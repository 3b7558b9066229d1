import EndToEnd.Proofs.Device.Reading
import EndToEnd.Proofs.Session.Fatal

/-!
# What is fatal to a device

Decrypting is refused for an entry that is missing, names nothing that is held, or holds no message;
for a message that its session refuses; for a body; or by the store. Without a failure of the store
only the session can give a fatal refusal, and it gives one for the end of a chain alone.

Main statements:

- `openEntry_refuses`, `decrypt_refuses`: what an envelope is refused for;
- `fatal_only_at_end`: what is fatal of all that a peer can send.
-/

namespace EndToEnd

/-- No refusal of a handshake's secret is fatal. -/
theorem Handshake.responderSecret_refuses (S : Suite) (identity oneTime : KeyPair)
    (theirIdentity theirBase : Bytes) :
    RefusesOnly (·.isFatal = false)
      (responderSecret S identity oneTime theirIdentity theirBase) := by
  apply (identity.agree_refuses S theirBase).bind
  intro first _
  apply (oneTime.agree_refuses S theirIdentity).bind
  intro second _
  apply (oneTime.agree_refuses S theirBase).bind
  intro third _
  exact .ok _

/-- No refusal to start a session from it is fatal. -/
theorem Session.responder_refuses (S : Suite) (secret theirRatchet : Bytes) :
    RefusesOnly (·.isFatal = false) (responder S secret theirRatchet) := by
  apply (Key.parse_refuses .publicHalf theirRatchet).bind
  intro their _
  exact .ok _

namespace Device

variable {σ α β ε : Type} {S : Suite} {d : Device} {s : State σ}

/-- Every refusal of an action from a state is as said. -/
def Refuses (P : DeviceError → Prop) (x : Action σ α) (s : State σ) : Prop :=
  ∀ cause s', x s = (.error cause, s') → P cause

namespace Refuses

variable {P : DeviceError → Prop}

/-- A refusal of a sequence is one of its first action, or of the second behind it. -/
theorem bind {x : Action σ α} {f : α → Action σ β} (hx : Refuses P x s)
    (hf : ∀ a s', x s = (.ok a, s') → Refuses P (f a) s') : Refuses P (x >>= f) s := by
  intro cause s' h
  rcases bind_run_error h with hfirst | ⟨a, s₁, ha, hrest⟩
  · exact hx cause s' hfirst
  · exact hf a s₁ ha cause s' hrest

theorem pure (a : α) : Refuses P (pure a : Action σ α) s := by
  intro cause s' h
  rw [run_pure] at h
  exact nomatch (Prod.mk.inj h).1

theorem throw {cause : DeviceError} (h : P cause) :
    Refuses P (throw cause : Action σ α) s := by
  intro cause' s' hthrown
  rw [run_throw] at hthrown
  obtain ⟨hcause, -⟩ := Prod.mk.inj hthrown
  obtain rfl := Except.error.inj hcause
  exact h

theorem attempt {refuse : ε → DeviceError} {result : Except ε α}
    (h : RefusesOnly (fun cause => P (refuse cause)) result) :
    Refuses P (attempt refuse result : Action σ α) s := by
  intro cause s' hrefused
  rw [run_attempt] at hrefused
  obtain ⟨hcause, -⟩ := Prod.mk.inj hrefused
  obtain ⟨cause', hcause', rfl⟩ := mapError_eq_error.mp hcause
  exact h cause' hcause'

theorem draw (f : Environment → α × Environment) : Refuses P (draw f : Action σ α) s := by
  intro cause s' h
  rw [run_draw] at h
  exact nomatch (Prod.mk.inj h).1

theorem now : Refuses P (now : Action σ UInt64) s := by
  intro cause s' h
  rw [run_now] at h
  exact nomatch (Prod.mk.inj h).1

theorem setUnpublished (unpublished : Bool) :
    Refuses P (setUnpublished unpublished : Action σ Unit) s := by
  intro cause s' h
  rw [run_setUnpublished] at h
  exact nomatch (Prod.mk.inj h).1

theorem mono {Q : DeviceError → Prop} {x : Action σ α} (hx : Refuses P x s)
    (h : ∀ cause, P cause → Q cause) : Refuses Q x s :=
  fun cause s' hrefused => h cause (hx cause s' hrefused)

variable [Store σ] [LawfulStore σ]

/-- A healthy store refuses nothing. -/
theorem ask (hhealthy : s.Healthy) (request : Store.Request α) :
    Refuses P (ask request : Action σ α) s := by
  intro cause s' h
  rcases ask_cases request s with ⟨s₁, hok, -⟩ | ⟨hno, -⟩
  · cases hok.symm.trans h
  · exact absurd hhealthy hno

/-- A healthy store that has our bundle gives it. -/
theorem currentBundle (hhealthy : s.Healthy) (hcurrent : s.records.current.isSome) :
    Refuses P (currentBundle : Action σ Bundle) s := by
  refine bind (ask hhealthy .current) ?_
  intro answer s' h
  obtain ⟨hanswer, -⟩ := ask_ok h
  obtain ⟨bundle, hbundle⟩ := Option.isSome_iff_exists.mp hcurrent
  rw [show answer = some bundle from hanswer.trans hbundle]
  exact pure bundle

end Refuses

/-- A handshake message that cannot be answered is the fault of the envelope. -/
theorem respond_refuses (S : Suite) (d : Device) (bundle : Bundle) (oneTime : KeyPair)
    (m : Wire.HandshakeMessage) :
    Refuses (·.isFatal = false) (d.respond S bundle oneTime m) s := by
  unfold respond
  refine .bind (.attempt (Handshake.responderSecret_refuses S _ oneTime _ _)) ?_
  intro secret s₁ _
  refine .bind (.attempt fun _ _ => rfl) ?_
  intro parts s₂ _
  refine .bind (.attempt fun _ _ => rfl) ?_
  intro first s₃ _
  refine .bind (.attempt (Session.responder_refuses S secret first.ratchetKey)) ?_
  intro session s₄ _
  refine .bind (.draw _) ?_
  intro bundle s₅ _
  exact .pure _

variable [Store σ] [LawfulStore σ]

/-- What is opened of an entry is what the message in it holds. -/
theorem OpensWith.holds {r : Records} {sender : DeviceId} {entry : Wire.Entry} {opening : Opening}
    (h : OpensWith S d r sender entry opening) :
    Session.Holds entry.isHandshake entry.key opening.payload := by
  cases h with
  | message plain =>
    rw [plain]
    rfl
  | known handshake decoded =>
    rw [handshake]
    exact ⟨_, decoded, rfl⟩
  | fresh handshake decoded =>
    rw [handshake]
    exact ⟨_, decoded, rfl⟩

/-- Where there is a bundle, and a store that refuses nothing, no refusal of a handshake message is
fatal. -/
theorem openHandshake_refuses (S : Suite) (d : Device) (sender : DeviceId) (key : Bytes)
    (existing : Option Session) (hhealthy : s.Healthy) (hcurrent : s.records.current.isSome) :
    Refuses (·.isFatal = false) (d.openHandshake S sender key existing) s := by
  unfold openHandshake
  refine .bind (.attempt fun _ _ => rfl) ?_
  intro m s₁ hm
  obtain ⟨-, rfl⟩ := Prod.mk.inj hm
  refine .bind (.currentBundle hhealthy hcurrent) ?_
  intro bundle s₂ _
  split
  next oneTime _ => exact respond_refuses S d bundle oneTime m
  next => exact .pure _
  next => exact .throw rfl

/-- An entry that cannot be opened is the fault of the envelope. -/
theorem openEntry_refuses (S : Suite) (d : Device) (sender : DeviceId) (entry : Wire.Entry)
    (hhealthy : s.Healthy) (hcurrent : s.records.current.isSome) :
    Refuses (·.isFatal = false) (d.openEntry S sender entry) s := by
  unfold openEntry
  refine .bind (.ask hhealthy (.session sender)) ?_
  intro existing s₁ hexisting
  split
  next =>
    apply openHandshake_refuses S d sender entry.key existing
    · have hstays := ask_staysHealthy (.session sender) s
      rw [hexisting] at hstays
      exact hstays hhealthy
    · rw [(query_ok (isQuery_session sender) hexisting).2.1]
      exact hcurrent
  next =>
    split
    next => exact .pure _
    next => exact .throw rfl

/-- Replacing the bundle in a healthy store is not refused. -/
theorem replaceBundle_refuses (bundle : Bundle) (hhealthy : s.Healthy) {P : DeviceError → Prop} :
    Refuses P (replaceBundle bundle) s := by
  refine .bind (.ask hhealthy _) ?_
  intro _ s' _
  exact .setUnpublished true

/-- The entry for the device is a message at the last position of its chain, in the session that opens
it. -/
def EndsChain (S : Suite) (d : Device) (s : State σ) (e : Wire.Envelope) : Prop :=
  ∃ entry opening, e.entryFor d.id = some entry ∧
    OpensWith S d s.records e.sender entry opening ∧
    opening.session.EndsChain S d.config s.env.clock opening.payload entry.isHandshake

/-- On a healthy store nothing is fatal to a device that is not fatal to a session. -/
theorem decrypt_refuses (S : Suite) (d : Device) (e : Wire.Envelope) (hhealthy : s.Healthy)
    (hcurrent : s.records.current.isSome) :
    Refuses (fun cause => cause.isFatal = true →
      cause = .session .indexOverflow ∧ EndsChain S d s e) (d.decrypt S e) s := by
  unfold decrypt
  split
  next => exact .throw nofun
  next entry hentry =>
    have hopening := openEntry_refuses S d e.sender entry hhealthy hcurrent
    refine .bind (hopening.mono fun cause hno hfatal => nomatch hfatal.symm.trans hno) ?_
    intro opening s₁ hopen
    have hopens := openEntry_ok hopen
    have hclock := openEntry_clock S d e.sender entry s
    have hhealthy₁ := openEntry_within staysHealthy_chains (fun _ => ask_staysHealthy _) S d
      e.sender entry s
    rw [hopen] at hclock hhealthy₁
    refine .bind .now ?_
    intro now s₂ hnow
    obtain ⟨htime, rfl⟩ := Prod.mk.inj hnow
    obtain rfl := Except.ok.inj htime
    -- the message is the only link that can be refused fatally
    refine .bind (.attempt ?_) ?_
    · intro cause hcause hfatal
      obtain ⟨rfl, hends⟩ := Session.endsChain_of_isFatal hcause hfatal
      rw [hclock] at hends
      exact ⟨rfl, entry, opening, hentry, hopens, hends⟩
    · rintro ⟨bodyKey, after⟩ s₂ hopened
      obtain ⟨-, rfl⟩ := Prod.mk.inj hopened
      refine .bind (.attempt fun _ _ => nofun) ?_
      intro plaintext s₂ hplain
      obtain ⟨-, rfl⟩ := Prod.mk.inj hplain
      refine .bind (.ask (hhealthy₁ hhealthy) _) ?_
      intro _ s₂ hsaved
      have hhealthy₂ := ask_staysHealthy (.saveSession e.sender after) s₁
      rw [hsaved] at hhealthy₂
      split
      next => exact .pure _
      next bundle _ =>
        refine .bind (replaceBundle_refuses bundle (hhealthy₂ (hhealthy₁ hhealthy))) ?_
        intro _ s₃ _
        exact .pure _

/-- An entry at the end of a chain was sealed by no session. -/
theorem EndsChain.not_sealed {e : Wire.Envelope} {entry : Wire.Entry} {S' : Suite}
    {peer after : Session} {plaintext : Bytes} {env : Environment} (h : EndsChain S d s e)
    (hentry : e.entryFor d.id = some entry) :
    (peer.sealAs S' entry.isHandshake plaintext env).1 ≠ .ok (entry.key, after) := by
  intro hsealed
  obtain ⟨entry', opening, hentry', hopens, hends⟩ := h
  obtain rfl := Option.some.inj (hentry.symm.trans hentry')
  obtain ⟨payload, hholds, hbefore⟩ := Session.beforeEnd_of_sealAs hsealed
  rw [← hopens.holds.unique hholds] at hends
  exact hbefore.not_endsChain hends

/-- Nothing that a peer sends is fatal but a message that is authentic at the last position of a
chain. Reading has an answer even if it is built from partial operations; of its refusals only the
one for the end of a chain is fatal, and it is given exactly to such messages. What a session has
sealed is in front of the last position, so whoever reads it, with whatever suite and limits and at
whatever time, is not refused fatally. A device whose store refuses nothing and holds its bundle is
refused fatally for such a message only, and so never for one that was sealed. -/
theorem fatal_only_at_end (S : Suite) :
    (∀ config now (s : Session) payload isHandshake,
      Partial.Answers (Partial.openMessage S config now s payload isHandshake)
        (s.openMessage S config now payload isHandshake) ∧
      (∀ cause, s.openMessage S config now payload isHandshake = .error cause →
        cause.isFatal = true → cause = .indexOverflow) ∧
      (s.openMessage S config now payload isHandshake = .error .indexOverflow ↔
        s.EndsChain S config now payload isHandshake)) ∧
    (∀ (s : Session) isHandshake plaintext env bytes after,
      (s.sealAs S isHandshake plaintext env).1 = .ok (bytes, after) →
      ∃ payload, Session.Holds isHandshake bytes payload ∧ Session.BeforeEnd payload ∧
        ∀ (S' : Suite) config now (reader : Session) wrapped cause,
          reader.openMessage S' config now payload wrapped = .error cause →
          cause.isFatal = false) ∧
    ∀ (d : Device) (e : Wire.Envelope) (s s' : State σ) cause, s.Healthy →
      s.records.current.isSome → d.decrypt S e s = (.error cause, s') → cause.isFatal = true →
      cause = .session .indexOverflow ∧ EndsChain S d s e ∧
        ∀ entry, e.entryFor d.id = some entry →
          ∀ (S' : Suite) (peer : Session) plaintext env after,
            (peer.sealAs S' entry.isHandshake plaintext env).1 ≠ .ok (entry.key, after) := by
  refine ⟨?_, ?_, ?_⟩
  · intro config now s payload isHandshake
    refine ⟨Partial.openMessage_answers S config now s payload isHandshake, ?_,
      Session.openMessage_eq_indexOverflow⟩
    intro cause hcause hfatal
    exact (Session.endsChain_of_isFatal hcause hfatal).1
  · intro s isHandshake plaintext env bytes after hsealed
    obtain ⟨payload, hholds, hbefore⟩ := Session.beforeEnd_of_sealAs hsealed
    refine ⟨payload, hholds, hbefore, ?_⟩
    intro S' config now reader wrapped cause hcause
    by_contra hfatal
    rw [Bool.not_eq_false] at hfatal
    exact hbefore.not_endsChain (Session.endsChain_of_isFatal hcause hfatal).2
  · intro d e s s' cause hhealthy hcurrent hdecrypt hfatal
    obtain ⟨hcause, hends⟩ := decrypt_refuses S d e hhealthy hcurrent cause s' hdecrypt hfatal
    exact ⟨hcause, hends, fun entry hentry S' peer plaintext env after => hends.not_sealed hentry⟩

/-- A session on the plain suite that has received up to the last position of a chain. -/
def plainLast : Session :=
  { Session.plainStart with
    theirRatchet := some (.replicate 32 5)
    receiveChain := some (.replicate 32 6)
    receiveIndex := 0xffffffff }

/-- The message at that position. -/
def lastPayload : Except Wire.Error Bytes :=
  let keys := MessageKeys.ofKey .plain (messageKey .plain (.replicate 32 6))
  Session.authenticated .plain keys
    (.current (Octets.replicate 32 5).bytes 0xffffffff (keys.encrypt .plain [9]))

/-- A device that has the session with device 2. -/
def atLast : State Memory :=
  { store := {
      current := some ⟨.ofNat 1, ⟨.replicate 32 1, some (.replicate 32 1)⟩, [], 0⟩
      sessions := ({} : Table DeviceId Session).put (.ofNat 2) plainLast }
    env := .ofSeed 0
    unpublished := false }

/-- The message in an envelope of device 2. -/
def lastEnvelope (payload : Bytes) : Wire.Envelope :=
  ⟨.ofNat 2, .replicate 16 0, [⟨.ofNat 1, false, payload⟩], []⟩

/-- The message at the last position is fatal to the session and to the device; one that a session has
sealed is refused by the same session, but not fatally. -/
theorem fatal_only_at_end_plain :
    (∃ payload, lastPayload = .ok payload ∧
      plainLast.openMessage .plain {} 0 payload false = .error .indexOverflow ∧
      plainLast.EndsChain .plain {} 0 payload false ∧
      (decrypt .plain ⟨.ofNat 1, {}⟩ (lastEnvelope payload) atLast).1 =
        .error (.session .indexOverflow) ∧
      EndsChain .plain ⟨.ofNat 1, {}⟩ atLast (lastEnvelope payload)) ∧
    ∃ payload after, (Session.plainStart.sealAs .plain false [9] (.ofSeed 0)).1 =
        .ok (payload, after) ∧ Session.BeforeEnd payload ∧
      ∃ cause, plainLast.openMessage .plain {} 0 payload true = .error cause ∧
        cause.isFatal = false := by
  have hfatal : ∃ payload, lastPayload = .ok payload ∧
      plainLast.openMessage .plain {} 0 payload false = .error .indexOverflow ∧
      (decrypt .plain ⟨.ofNat 1, {}⟩ (lastEnvelope payload) atLast).1 =
        .error (.session .indexOverflow) := by
    decide +kernel
  have hsealed : ∃ sealed, (Session.plainStart.sealAs .plain false [9] (.ofSeed 0)).1 = .ok sealed ∧
      plainLast.openMessage .plain {} 0 sealed.1 true =
        .error (.rejected (.consumed 0 0xffffffff)) := by
    decide +kernel
  obtain ⟨payload, hpayload, hopened, hdecrypt⟩ := hfatal
  obtain ⟨⟨other, after⟩, hsealed, hrejected⟩ := hsealed
  obtain ⟨hreads, hseals, hdecrypts⟩ := fatal_only_at_end (σ := Memory) .plain
  obtain ⟨_, hends⟩ := hreads {} 0 plainLast payload false
  obtain ⟨held, hheld, hbefore, hspares⟩ := hseals _ _ _ _ _ _ hsealed
  obtain rfl : held = other := hheld
  refine ⟨⟨payload, hpayload, hopened, hends.2.mp hopened, hdecrypt, ?_⟩, held, after, hsealed,
    hbefore, _, hrejected, hspares .plain {} 0 plainLast true _ hrejected⟩
  exact (hdecrypts _ _ atLast _ _ trivial rfl (Prod.ext hdecrypt rfl) rfl).2.1

end Device

end EndToEnd
