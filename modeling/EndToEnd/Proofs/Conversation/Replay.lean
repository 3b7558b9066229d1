import EndToEnd.Conversation
import EndToEnd.Proofs.Conversation.Exchange
import EndToEnd.Proofs.Session.Positions
import Mathlib.Data.List.Induction

/-!
# Replayed messages

A dialogue is a conversation whose sides are handed any bytes, in any order and any number of times,
as what a handshake message carries or not. Time may jump, also back. Each side keeps the account of
the positions that it has received.

A message that a side has read was opened with the key of one position, and that position stays
behind the side: in the same chain, after any number of steps, and in the chain to which a step under
an old ratchet key would lead. So the message is refused ever after.

Main statements:

- `Dialogue.Tracked.step`, `Dialogue.Tracked.run`: the accounts are right after every run;
- `Dialogue.replay_refused`: what was read is not read again.
-/

namespace EndToEnd

/-- A conversation, and what each side has received of the other. -/
structure Dialogue where
  talk : Conversation
  received : Side → Reception

namespace Dialogue

/-- What can happen in a dialogue. -/
inductive Event
  /-- A side seals a plaintext. -/
  | say (sender : Side) (plaintext : Bytes)
  /-- A side is handed bytes, from a handshake message or not. -/
  | read (reader : Side) (payload : Bytes) (isHandshake : Bool)
  /-- The clock is set. -/
  | clock (time : UInt64)

/-- What a side reads in the bytes, with its session after that. -/
def opened (S : Suite) (x : Dialogue) (reader : Side) (payload : Bytes) (isHandshake : Bool) :
    Except SessionError (Bytes × Session) :=
  (x.talk.session reader).openMessage S x.talk.config x.talk.env.clock payload isHandshake

/-- The dialogue after something has happened. What is refused changes nothing. -/
def step (S : Suite) (x : Dialogue) : Event → Dialogue
  | .say sender plaintext => { x with talk := (x.talk.send S sender plaintext).2 }
  | .read reader payload isHandshake =>
    match x.opened S reader payload isHandshake with
    | .error _ => x
    | .ok (_, after) =>
      { talk := x.talk.setSession reader after
        received := Function.update x.received reader
          ((x.received reader).reading S (x.talk.session reader) payload after) }
  | .clock time => { x with talk.env.clock := time }

/-- The dialogue after everything in a list has happened. -/
def run (S : Suite) (x : Dialogue) (events : List Event) : Dialogue := events.foldl (step S) x

/-- A conversation in which nothing has been received. -/
def start (c : Conversation) : Dialogue := ⟨c, fun _ => .empty⟩

/-- What is assumed of what a side has received: the message keys at different positions differ, and
no message that was read has the authenticator of two of them. -/
structure Assumed (S : Suite) (x : Dialogue) (reader : Side) : Prop where
  keys : (x.received reader).KeysDistinct
  tags : (x.received reader).TagsDistinct S

variable {S : Suite} {x : Dialogue} {reader : Side} {payload : Bytes} {isHandshake : Bool}

/-- A message that is refused changes nothing, and nothing is recorded. -/
theorem step_read_error {cause : SessionError}
    (h : x.opened S reader payload isHandshake = .error cause) :
    x.step S (.read reader payload isHandshake) = x := by
  simp only [step, h]

/-- A message that is read moves the reader's session, and is recorded with it. -/
theorem step_read_ok {plaintext : Bytes} {after : Session}
    (h : x.opened S reader payload isHandshake = .ok (plaintext, after)) :
    x.step S (.read reader payload isHandshake) =
      ⟨x.talk.setSession reader after, Function.update x.received reader
        ((x.received reader).reading S (x.talk.session reader) payload after)⟩ := by
  simp only [step, h]

/-! ## The accounts of a run -/

/-- Sealing receives nothing, on either side. -/
theorem send_frame (S : Suite) (c : Conversation) (sender : Side) (plaintext : Bytes)
    (side : Side) :
    ((c.send S sender plaintext).2.session side).receiveIndex = (c.session side).receiveIndex ∧
      ((c.send S sender plaintext).2.session side).skipped = (c.session side).skipped := by
  cases hsealed : (c.session sender).sealForPeer S plaintext c.env with
  | mk sealed env =>
    cases sealed with
    | error cause =>
      simp only [Conversation.send, hsealed, Exchange.session_env, and_self]
    | ok sealed =>
      obtain ⟨bytes, after⟩ := sealed
      have hframe := Session.sealForPeer_frame (congrArg Prod.fst hsealed)
      simp only [Conversation.send, hsealed, Conversation.session_setSession, Exchange.session_env]
      by_cases hside : side = sender
      · subst hside
        rw [if_pos rfl, hframe]
        exact ⟨rfl, rfl⟩
      · rw [if_neg hside]
        exact ⟨rfl, rfl⟩

/-- What each side has received is accounted for. -/
def Tracked (S : Suite) (x : Dialogue) : Prop :=
  ∀ side, (x.received side).Tracks S (x.talk.session side)

/-- The accounts are kept by everything that happens in a dialogue. -/
theorem Tracked.step (h : x.Tracked S) (e : Event) : (x.step S e).Tracked S := by
  intro side
  cases e with
  | say sender plaintext =>
    obtain ⟨hindex, hskipped⟩ := send_frame S x.talk sender plaintext side
    exact (h side).of_frame hindex hskipped
  | read reader payload isHandshake =>
    cases hopen : x.opened S reader payload isHandshake with
    | error cause =>
      rw [step_read_error hopen]
      exact h side
    | ok opened =>
      rw [step_read_ok hopen]
      simp only [Conversation.session_setSession]
      by_cases hside : side = reader
      · subst hside
        rw [if_pos rfl, Function.update_self]
        exact (h side).reading hopen
      · rw [if_neg hside, Function.update_of_ne hside]
        exact h side
  | clock time => cases side <;> exact h _

/-- A conversation that starts is tracked. -/
theorem Tracked.start {c : Conversation} (hfresh : c.IsFresh S) : (start c).Tracked S := by
  obtain ⟨secret, identity, ephemeral, theirOneTime, ratchet, hinitiator, hresponder⟩ := hfresh
  intro side
  cases side with
  | initiator =>
    refine Reception.Tracks.empty ?_
    show c.initiator.skipped = []
    rw [hinitiator]
    rfl
  | responder =>
    obtain ⟨their, -, hresponder⟩ := bind_eq_ok.mp hresponder
    refine Reception.Tracks.empty ?_
    show c.responder.skipped = []
    rw [← Except.ok.inj hresponder]

/-- The accounts are right after every run. -/
theorem Tracked.run (h : x.Tracked S) (events : List Event) : (x.run S events).Tracked S := by
  induction events generalizing x with
  | nil => exact h
  | cons e events ih => exact ih (h.step e)

/-! ## Reading twice -/

/-- What a side has read stays noted. -/
theorem opened_prefix_step (S : Suite) (x : Dialogue) (e : Event) (side : Side) :
    (x.received side).opened <+: ((x.step S e).received side).opened := by
  cases e with
  | say sender plaintext => exact List.prefix_rfl
  | read reader payload isHandshake =>
    cases hopen : x.opened S reader payload isHandshake with
    | error cause => rw [step_read_error hopen]
    | ok opened =>
      rw [step_read_ok hopen]
      by_cases hside : side = reader
      · subst hside
        simp only [Function.update_self]
        exact List.prefix_append _ _
      · simp only [Function.update_of_ne hside]
        exact List.prefix_rfl
  | clock time => exact List.prefix_rfl

/-- What was opened is only added to. -/
theorem opened_prefix_run (S : Suite) (x : Dialogue) (events : List Event) (side : Side) :
    (x.received side).opened <+: ((x.run S events).received side).opened := by
  induction events generalizing x with
  | nil => exact List.prefix_rfl
  | cons e events ih => exact (opened_prefix_step S x e side).trans (ih (x.step S e))

/-- What a side reads is noted last. -/
theorem opened_step_read {plaintext : Bytes} {after : Session}
    (h : x.opened S reader payload isHandshake = .ok (plaintext, after)) :
    ((x.step S (.read reader payload isHandshake)).received reader).opened =
      (x.received reader).opened ++ [payload] := by
  rw [step_read_ok h]
  simp only [Function.update_self]
  rfl

/-- Nothing is read twice by a side whose account is right. -/
theorem Tracked.nodup_opened (h : x.Tracked S) (hassumed : x.Assumed S reader) :
    (x.received reader).opened.Nodup := by
  have hfollows : (x.received reader).Follows S (some (x.talk.session reader)) := h reader
  exact hfollows.nodup_opened hassumed.keys hassumed.tags

/-- Bytes that a side has read are refused ever after, from a handshake message or not: whatever was
sealed and read, whichever steps were taken and whatever time it is. -/
theorem replay_refused {c : Conversation} (hfresh : c.IsFresh S) (before between : List Event)
    {first : Bool} {plaintext : Bytes} {after : Session}
    (hread : ((start c).run S before).opened S reader payload first = .ok (plaintext, after))
    (later : Bool)
    (hassumed : ((start c).run S (before ++ .read reader payload first ::
      (between ++ [.read reader payload later]))).Assumed S reader) :
    ∃ cause, ((start c).run S (before ++ .read reader payload first :: between)).opened S reader
      payload later = .error cause := by
  have htracked := (Tracked.start hfresh).run (before ++ .read reader payload first ::
    (between ++ [.read reader payload later]))
  have hnodup := htracked.nodup_opened hassumed
  simp only [run, List.foldl_append, List.foldl_cons, List.foldl_nil] at hnodup hread ⊢
  generalize before.foldl (step S) (start c) = x at *
  have hnoted : payload ∈ ((between.foldl (step S)
      (x.step S (.read reader payload first))).received reader).opened := by
    refine (opened_prefix_run S _ between reader).subset ?_
    rw [opened_step_read hread]
    exact List.mem_append_right _ (List.mem_singleton_self payload)
  generalize between.foldl (step S) (x.step S (.read reader payload first)) = y at *
  cases hagain : y.opened S reader payload later with
  | error cause => exact ⟨cause, rfl⟩
  | ok opened =>
    rw [opened_step_read hagain] at hnodup
    exact absurd rfl ((List.nodup_append.mp hnodup).2.2 _ hnoted _ (List.mem_singleton_self payload))

/-- The ratchet message, with its authenticator, of what a side would seal next. -/
def sealing (S : Suite) (x : Dialogue) (sender : Side) (plaintext : Bytes) :
    Except SessionError Bytes := do
  let flight ← (x.talk.send S sender plaintext).1
  flight.payload.mapError .wire

instance : Decidable (x.Assumed S reader) :=
  decidable_of_iff ((x.received reader).KeysDistinct ∧ (x.received reader).TagsDistinct S)
    ⟨fun h => ⟨h.1, h.2⟩, fun h => ⟨h.keys, h.tags⟩⟩

/-- Each side answers the other in a chain of its own. -/
def answers (reply third : Bytes) : List Event :=
  [.say .responder [2], .read .initiator reply false, .say .initiator [3],
    .read .responder third false]

/-- A conversation and the three messages that are sealed in it, if the responder reads the first and
then each side answers the other. -/
def messages : Except SessionError (Conversation × Bytes × Bytes × Bytes) := do
  let c ← Conversation.start .plain (Exchange.drawing [1, 2, 3, 4, 5, 6, 7]) {}
  let hello ← (start c).sealing .plain .initiator [1]
  let x := (start c).run .plain [.say .initiator [1], .read .responder hello true]
  let reply ← x.sealing .plain .responder [2]
  let third ← (x.run .plain ((answers reply []).take 2)).sealing .plain .initiator [3]
  return (c, hello, reply, third)

/-- The responder has read the first message of a conversation, and then one of a later chain. The
first is handed to it again, outside a handshake message: its ratchet key is an old one. -/
theorem replay_refused_after_steps : ∃ c hello reply third,
    messages = .ok (c, hello, reply, third) ∧
      let x := (start c).run .plain
        ([.say .initiator [1]] ++ .read .responder hello true :: answers reply third)
      (x.received .responder).opened = [hello, third] ∧
        ∃ cause, x.opened .plain .responder hello false = .error cause := by
  have hrun : ∃ m, messages = .ok m ∧
      (∃ r, ((start m.1).run .plain [.say .initiator [1]]).opened .plain .responder m.2.1 true =
        .ok r ∧ True) ∧
      (((start m.1).run .plain ([.say .initiator [1]] ++ .read .responder m.2.1 true ::
        answers m.2.2.1 m.2.2.2)).received .responder).opened = [m.2.1, m.2.2.2] ∧
      ((start m.1).run .plain ([.say .initiator [1]] ++ .read .responder m.2.1 true ::
        (answers m.2.2.1 m.2.2.2 ++ [.read .responder m.2.1 false]))).Assumed .plain .responder := by
    decide +kernel
  obtain ⟨⟨c, hello, reply, third⟩, hmessages, ⟨⟨plaintext, after⟩, hread, -⟩, hopened,
    hassumed⟩ := hrun
  have hfresh : c.IsFresh .plain := by
    obtain ⟨c', hstart, h⟩ := bind_eq_ok.mp hmessages
    obtain ⟨hello', -, h⟩ := bind_eq_ok.mp h
    obtain ⟨reply', -, h⟩ := bind_eq_ok.mp h
    obtain ⟨third', -, h⟩ := bind_eq_ok.mp h
    obtain ⟨rfl, -⟩ := Prod.mk.inj (Except.ok.inj h)
    exact Conversation.isFresh_of_start hstart
  exact ⟨c, hello, reply, third, hmessages, hopened,
    replay_refused hfresh [.say .initiator [1]] _ hread false hassumed⟩

end Dialogue

end EndToEnd
