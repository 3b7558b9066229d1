import EndToEnd.Device.ChatMessage
import EndToEnd.Proofs.Correspondence.Introduction
import EndToEnd.Proofs.Device.Alike

/-!
# Chat messages that are tried again

A chat message whose envelope is refused is left as it was, and so is everything that is stored. So
it is refused for the same cause whenever it is tried again, until the session with its sender or
our bundle changes, or a skipped key expires.

A body that is no text is found out too late. The envelope has been decrypted by then, and what that
changes is saved: the message is refused as well, but when it is tried again, its key is gone.

Main statements:

- `decrypt_beforeText`: which refusals come from the envelope;
- `receiveChat_again`: what becomes of a chat message that is refused.
-/

namespace EndToEnd.Device

variable {σ α : Type} {S : Suite} {d : Device} {s t : State σ}

/-! ## Refusals of a body -/

/-- A refusal that is not that a body is no text. -/
def BeforeText (cause : DeviceError) : Prop := cause ≠ .invalidBody

/-- A handshake is answered before there is a body. -/
theorem respond_beforeText (S : Suite) (d : Device) (own : Bundle) (oneTime : KeyPair)
    (m : Wire.HandshakeMessage) : Refuses BeforeText (d.respond S own oneTime m) s := by
  unfold respond
  refine .bind (.attempt fun _ _ => nofun) ?_
  intro secret s₁ _
  refine .bind (.attempt fun _ _ => nofun) ?_
  intro parts s₂ _
  refine .bind (.attempt fun _ _ => nofun) ?_
  intro first s₃ _
  refine .bind (.attempt fun _ _ => nofun) ?_
  intro session s₄ _
  refine .bind (.draw _) ?_
  intro bundle s₅ _
  exact .pure _

variable [Store σ]

theorem ask_beforeText (request : Store.Request α) :
    Refuses BeforeText (ask request : Action σ α) s := by
  intro cause s' h
  obtain ⟨hcause, -⟩ := Prod.mk.inj h
  obtain ⟨refusal, -, rfl⟩ := mapError_eq_error.mp hcause
  exact nofun

theorem currentBundle_beforeText : Refuses BeforeText (currentBundle : Action σ Bundle) s := by
  refine .bind (ask_beforeText _) ?_
  intro current s₁ _
  cases current with
  | none => exact .throw nofun
  | some own => exact .pure own

/-- A handshake message is opened before there is a body. -/
theorem openHandshake_beforeText (S : Suite) (d : Device) (sender : DeviceId) (key : Bytes)
    (existing : Option Session) :
    Refuses BeforeText (d.openHandshake S sender key existing) s := by
  unfold openHandshake
  refine .bind (.attempt fun _ _ => nofun) ?_
  intro m s₁ _
  refine .bind currentBundle_beforeText ?_
  intro own s₂ _
  split
  next oneTime _ => exact respond_beforeText S d own oneTime m
  next => exact .pure _
  next => exact .throw nofun

/-- An entry is opened before there is a body. -/
theorem openEntry_beforeText (S : Suite) (d : Device) (sender : DeviceId) (entry : Wire.Entry) :
    Refuses BeforeText (d.openEntry S sender entry) s := by
  unfold openEntry
  refine .bind (ask_beforeText _) ?_
  intro existing s₁ _
  split
  next => exact openHandshake_beforeText S d sender entry.key existing
  next =>
    split
    next => exact .pure _
    next => exact .throw nofun

/-- Replacing our bundle is refused by the store alone. -/
theorem replaceBundle_beforeText (bundle : Bundle) :
    Refuses BeforeText (replaceBundle bundle : Action σ Unit) s := by
  refine .bind (ask_beforeText _) ?_
  intro _ s₁ _
  exact .setUnpublished true

/-- An envelope is not refused because its body is no text. -/
theorem decrypt_beforeText (S : Suite) (d : Device) (e : Wire.Envelope) :
    Refuses BeforeText (d.decrypt S e) s := by
  unfold decrypt
  split
  next => exact .throw nofun
  next entry _ =>
    refine .bind (openEntry_beforeText S d e.sender entry) ?_
    intro opening s₁ _
    refine .bind .now ?_
    intro now s₂ _
    refine .bind (.attempt fun _ _ => nofun) ?_
    rintro ⟨bodyKey, after⟩ s₃ _
    refine .bind (.attempt fun _ _ => nofun) ?_
    intro plaintext s₄ _
    refine .bind (ask_beforeText _) ?_
    intro _ s₅ _
    split
    next => exact .pure _
    next bundle _ =>
      refine .bind (replaceBundle_beforeText bundle) ?_
      intro _ s₆ _
      exact .pure _

/-! ## Receiving a chat message -/

/-- What is left of a message that came in: what it has become, or the message as it was. -/
def leftOf (m : ChatMessage) : Except DeviceError (Option ChatMessage) → ChatMessage
  | .ok (some handled) => handled
  | _ => m

section Receiving

variable {m : ChatMessage} {e : Wire.Envelope} (hm : m.encrypted = some e) {s' : State σ}
  {plaintext : Bytes}
include hm

/-- A message whose envelope is refused is refused alike, and in the same state. -/
theorem receiveChat_of_error {cause : DeviceError} (h : d.decrypt S e s = (.error cause, s')) :
    d.receiveChat S m s = (.error cause, s') := by
  rw [receiveChat, hm]
  exact run_bind_error h

/-- A message whose body is a text is handled, and the text stands in it. -/
theorem receiveChat_of_text {body : String} (h : d.decrypt S e s = (.ok plaintext, s'))
    (htext : Bytes.toText? plaintext = some body) :
    d.receiveChat S m s =
      (.ok (some { m with body := some body, encrypted := none }), s') := by
  rw [receiveChat, hm]
  refine (run_bind_ok h).trans ?_
  rw [htext]
  rfl

/-- A message whose body is no text is refused in the state that decrypting it left. -/
theorem receiveChat_of_noText (h : d.decrypt S e s = (.ok plaintext, s'))
    (htext : Bytes.toText? plaintext = none) :
    d.receiveChat S m s = (.error .invalidBody, s') := by
  rw [receiveChat, hm]
  refine (run_bind_ok h).trans ?_
  rw [htext]
  rfl

end Receiving

variable [LawfulStore σ]

/-- On a store that refuses nothing, a refusal changes nothing. -/
theorem keeps_of_decrypt_error {e : Wire.Envelope} {s' : State σ} {cause : DeviceError}
    (hhealthy : s.Healthy) (h : d.decrypt S e s = (.error cause, s')) : Keeps s s' := by
  rcases decrypt_outcome S d e s with ⟨_, _, h', hkeeps⟩ |
    ⟨_, _, _, _, -, ⟨_, _, h', -⟩ | ⟨_, _, -, -, hno, -⟩⟩
  · obtain ⟨-, rfl⟩ := Prod.mk.inj (h'.symm.trans h)
    exact hkeeps
  · cases h'.symm.trans h
  · exact absurd hhealthy hno

/-! ## Chat messages -/

section Receiving

variable {m : ChatMessage} {e : Wire.Envelope} (hm : m.encrypted = some e) {s' : State σ}
  {cause : DeviceError}
include hm

/-- A message whose envelope was refused is refused for the same cause again. -/
theorem receiveChat_of_alike (h : d.decrypt S e s = (.error cause, s'))
    (halike : Alike e.sender s.env.clock t.env.clock s t)
    (hfresh : NoneExpired d e.sender s s.env.clock t.env.clock) :
    ∃ t', d.receiveChat S m t = (.error cause, t') ∧ Keeps t t' := by
  obtain ⟨t', ht'⟩ := decrypt_repeats S d halike hfresh cause s' h
  exact ⟨t', receiveChat_of_error hm ht', keeps_of_decrypt_error halike.healthy.2 ht'⟩

/-- A chat message with an envelope, on a store that refuses nothing. If it is handled, its body is
what the envelope says. If it is refused because that is no text, the envelope has been decrypted
and everything is saved: the session after it, and the bundle without the one-time key that it used
up. If it is refused for any other cause, the message and all that is stored are as they were, and
what is left of it is refused for the same cause again: at any time at which the same skipped keys of
its sender are fresh, whatever else has happened, if the session with its sender and our bundle are
the same. -/
theorem receiveChat_again (S : Suite) (d : Device) (hhealthy : s.Healthy) :
    match d.receiveChat S m s with
    | (.ok answer, s') =>
      ∃ body, d.decrypt S e s = (.ok (Bytes.ofText body), s') ∧
        answer = some { m with body := some body, encrypted := none }
    | (.error .invalidBody, s') =>
      ∃ entry opening bodyKey after plaintext,
        Unlocks S d s.records e entry opening s.env.clock bodyKey after ∧
        S.decrypt bodyKey e.iv.bytes e.body = .ok plaintext ∧ Bytes.toText? plaintext = none ∧
        s'.records = opening.saved s.records e.sender after
    | (.error cause, s') =>
      Keeps s s' ∧ leftOf m (.error cause) = m ∧
        ∀ t : State σ, t.Healthy → t.records.current = s.records.current →
          t.records.session e.sender = s.records.session e.sender →
          NoneExpired d e.sender s s.env.clock t.env.clock →
          ∃ t', d.receiveChat S (leftOf m (.error cause)) t = (.error cause, t') ∧
            Keeps t t' := by
  cases hdecrypt : d.decrypt S e s with
  | mk result s' =>
    cases result with
    | error cause =>
      rw [receiveChat_of_error hm hdecrypt]
      have hkeeps := keeps_of_decrypt_error hhealthy hdecrypt
      have halike {t : State σ} (ht : t.Healthy) (hcurrent : t.records.current = s.records.current)
          (hsession : t.records.session e.sender = s.records.session e.sender) :
          Alike e.sender s.env.clock t.env.clock s t :=
        ⟨⟨hhealthy, ht⟩, hsession, hcurrent, rfl, rfl⟩
      cases cause with
      -- decrypting has no such refusal, so this one comes behind a success
      | invalidBody => exact absurd rfl (decrypt_beforeText S d e _ _ hdecrypt)
      | _ => exact ⟨hkeeps, rfl, fun t ht hcurrent hsession hfresh =>
          receiveChat_of_alike hm hdecrypt (halike ht hcurrent hsession) hfresh⟩
    | ok plaintext =>
      cases htext : Bytes.toText? plaintext with
      | some body =>
        rw [receiveChat_of_text hm hdecrypt htext, Bytes.ofText_of_toText? htext]
        exact ⟨body, rfl, rfl⟩
      | none =>
        rw [receiveChat_of_noText hm hdecrypt htext]
        obtain ⟨entry, opening, bodyKey, after, hunlocks, hplain, hrecords⟩ :=
          decrypt_ok hdecrypt
        exact ⟨entry, opening, bodyKey, after, plaintext, hunlocks, hplain, htext, hrecords⟩

end Receiving

open Correspondent (alice bob)

/-- The body of an envelope has been lost, and Bob refuses it: also when it comes again five seconds
later. -/
theorem receiveChat_again_bob : ∃ letter,
    (alice.device.encrypt .plain ["bob"] [104, 105] alice.state).1 = .ok letter ∧
    let m : ChatMessage := ⟨"alice", ["bob"], none, some { letter with body := [] }⟩
    ∃ s' t', bob.device.receiveChat .plain m bob.state = (.error (.payload .padding), s') ∧
      Keeps bob.state s' ∧
      bob.device.receiveChat .plain m { s' with env := s'.env.advance 5 } =
        (.error (.payload .padding), t') ∧ t'.records = bob.state.records := by
  have hrun : ∃ letter,
      (alice.device.encrypt .plain ["bob"] [104, 105] alice.state).1 = .ok letter ∧
      (bob.device.receiveChat .plain
        ⟨"alice", ["bob"], none, some { letter with body := [] }⟩ bob.state).1 =
          .error (.payload .padding) ∧ letter.sender = alice.device.id := by
    decide +kernel
  obtain ⟨letter, hletter, hrefused, hsender⟩ := hrun
  have hagain := receiveChat_again (m := ⟨"alice", ["bob"], none, some { letter with body := [] }⟩)
    rfl .plain bob.device (s := bob.state) trivial
  obtain ⟨s', hreceive⟩ : ∃ s', bob.device.receiveChat .plain
      ⟨"alice", ["bob"], none, some { letter with body := [] }⟩ bob.state =
        (.error (.payload .padding), s') := ⟨_, Prod.ext hrefused rfl⟩
  rw [hreceive] at hagain
  obtain ⟨hkeeps, -, hagain⟩ := hagain
  have hnone : bob.state.records.session letter.sender = none := by
    rw [hsender]
    decide +kernel
  obtain ⟨t', ht', hkeeps'⟩ := hagain { s' with env := s'.env.advance 5 } trivial
    (congrArg Records.current hkeeps.1) (congrFun (congrArg Records.session hkeeps.1) _)
    fun session hsession => nomatch hnone.symm.trans hsession
  exact ⟨letter, hletter, s', t', hreceive, hkeeps, ht', hkeeps'.1.trans hkeeps.1⟩

/-- Alice sends Bob a byte that is no text. He refuses the message, and refuses it for another cause
when it comes again: there is a session now, its first position is used up, and so is a one-time key
of his. -/
theorem noText_used_up : ∃ letter,
    (alice.device.encrypt .plain ["bob"] [255] alice.state).1 = .ok letter ∧
    let m : ChatMessage := ⟨"alice", ["bob"], none, some letter⟩
    let first := bob.device.receiveChat .plain m bob.state
    first.1 = .error .invalidBody ∧ leftOf m first.1 = m ∧
      (bob.device.receiveChat .plain m first.2).1 = .error (.session (.rejected (.consumed 0 1))) ∧
      bob.state.records.session letter.sender = none ∧
      (first.2.records.session letter.sender).map (·.receiveIndex) = some 1 ∧
      first.2.records.current ≠ bob.state.records.current := by
  decide +kernel

end EndToEnd.Device
