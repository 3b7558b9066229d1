import EndToEnd.Proofs.Correspondence.Delivered
import EndToEnd.Proofs.Correspondence.Lane
import Mathlib.Data.List.Infix

/-!
# Two devices that both start

If both devices write before they read, each starts a handshake, and each replaces its own session by
the one that answers the other's as soon as it reads. The handshake envelopes are all read, but the
two devices end on different handshakes: what either writes afterwards is refused by the other.

Main statements:

- `Crossing.step`, `crossing_run`: the envelopes of both sides stay on their course;
- `crossed_run`: what is read and what is refused when both sides have started a session.
-/

namespace EndToEnd.Correspondence

open Correspondent Session

variable {σ : Type} [Store σ] [LawfulStore σ] {S : Suite} {x x' : Correspondence σ} {side : Side}
  {m : Meeting} {g session after : Session} {early late rest : List Post} {letters : List Letter}
  {l : Letter} {p : Post} {state : Device.State σ} {entry : Wire.Entry} {env : Environment}
  {initiator responder : Correspondent σ}

/-! ## Both sides start -/

/-- A side has a session only if it has started one by writing. -/
def EitherStarts (x : Correspondence σ) : Prop :=
  ∀ side, x.session side = none ∨ x.initiated side = true

/-- A side that has a session starts none. -/
theorem initiated_step_of_session (S : Suite) (e : Event) (hsome : x.session side ≠ none) :
    (x.step S e).initiated side = x.initiated side := by
  cases e with
  | write writer plaintext =>
    rw [step, write]
    split
    next => rfl
    next =>
      split
      next => rfl
      next =>
        simp only [posted, Function.update_apply]
        split
        next hside =>
          subst hside
          rw [Option.isNone_eq_false_iff.mpr (Option.isSome_iff_ne_none.mpr hsome), Bool.or_false]
        next => rfl
  | _ =>
    refine congrFun (initiated_step S x fun writer plaintext heq => ?_) side
    cases heq

/-- If both sides start in the end, no side has answered without having started. -/
theorem EitherStarts.of_step {e : Event} (h : (x.step S e).EitherStarts) : x.EitherStarts := by
  intro side
  by_cases hnone : x.session side = none
  · exact .inl hnone
  · exact .inr (initiated_step_of_session S e hnone ▸
      (h side).resolve_left (hasSession_step S e hnone))

/-! ## The invariant -/

/-- A side has neither written nor read, nor has the other read. What it knows of the other's bundle
is what the other holds. -/
structure Unstarted (x : Correspondence σ) (side : Side) : Prop where
  session : x.session side = none
  sent : x.sent side = []
  read : x.read side = 0
  readToo : x.read side.peer = 0
  initiated : x.initiated side = false
  knows : x.Knows side

/-- A side has not started, or its envelopes are on their course. -/
def OnCourse (S : Suite) (x : Correspondence σ) (side : Side) : Prop :=
  x.Unstarted side ∨ ∃ m g early late letters, Course S (x.view.lane side) m g early late letters

/-- Two devices that both start a session by writing, or have not yet. -/
structure Crossing (S : Suite) (x : Correspondence σ) : Prop where
  placed : x.Placed
  healthy : ∀ side, x.Healthy side
  counted : x.view.Counted
  onCourse : ∀ side, x.OnCourse S side

/-- The same view, with what is known still what is held. -/
theorem OnCourse.of_view (h : x.OnCourse S side) (hview : x'.view = x.view)
    (hinitiated : x'.initiated = x.initiated) (hknows : x.Knows side → x'.Knows side) :
    x'.OnCourse S side := by
  rcases h with h | h
  · refine .inl ⟨?_, ?_, ?_, ?_, ?_, hknows h.knows⟩
    · exact (congrFun (congrArg View.session hview) side).trans h.session
    · exact (congrFun (congrArg View.sent hview) side).trans h.sent
    · exact (congrFun (congrArg View.read hview) side).trans h.read
    · exact (congrFun (congrArg View.read hview) side.peer).trans h.readToo
    · exact (congrFun hinitiated side).trans h.initiated
  · exact .inr (hview ▸ h)

/-! ## Writing -/

/-- The envelopes of a side stay on their course when it writes. -/
theorem OnCourse.writes (h : x.OnCourse S side) (hcounted : x.view.Counted) {plaintext : Bytes}
    (hwrote : Wrote S x side plaintext p state entry session env after)
    (hdistinct : (x.posted side p state).KeysDistinct) : (x.posted side p state).OnCourse S side := by
  refine .inr ?_
  have hgenerated : (x.posted side p state).view.generated side =
      x.generated side ++ drawnKeys (x.session side) (some after) := by
    rw [view_posted hwrote]
    exact Function.update_self _ _ _
  have hkeys := hdistinct side
  rw [show (x.posted side p state).generated side = _ from hgenerated] at hkeys
  rw [show (x.posted side p state).view = x.view.posted side p after from view_posted hwrote,
    View.lane_posted]
  rcases h with h | ⟨m, g, early, late, letters, hcourse⟩
  · obtain ⟨m, rfl, hidentity, hmade, hholding, hdrawn⟩ :=
      h.knows.exists_meeting h.session hcounted hwrote
    have hcarrying : Carrying S (x.view.lane side) m (m.initiator S) p entry := by
      intro _ l hhandshake hplaintext hcarries hl
      exact hwrote.holds hhandshake hplaintext hcarries (fun _ => ⟨rfl, rfl, rfl⟩) fun _ => hl
    obtain ⟨letters, hcourse⟩ := Course.start (w := x.view.lane side) h.sent h.read h.readToo
      hidentity hmade hholding hwrote.sealed hcarrying
    rw [show x.view.session side = none from h.session, hdrawn]
    exact ⟨m, after, [p], [], letters, hcourse⟩
  · have hsession : x.session side = some session := by
      rcases hwrote.source with hstored | ⟨hnone, -⟩
      · exact hstored
      · cases hcourse.writer with
        | waiting _ ours => exact nomatch hnone.symm.trans ours
        | answering _ _ ours => exact nomatch hnone.symm.trans ours
    -- a waiting writer still has the handshake in its session, an answering one has no need of it
    have hcarrying : Carrying S (x.view.lane side) m session p entry := by
      intro hunread l hhandshake hplaintext hcarries hl
      refine hwrote.holds (by rw [hhandshake, hunread]; rfl) hplaintext hcarries (fun _ => ?_)
        fun _ => hl
      cases hcourse.writer with
      | waiting _ ours =>
        obtain rfl := Option.some.inj (hsession.symm.trans ours)
        exact ⟨hcourse.waiting.identity, hcourse.waiting.ephemeral, hcourse.waiting.oneTime⟩
      | answering b _ ours established =>
        obtain rfl := Option.some.inj (hsession.symm.trans ours)
        exact nomatch hunread.symm.trans established
    exact ⟨m, hcourse.writes hsession hwrote.sealed hwrote.sender hwrote.addressed
      hwrote.isHandshake hcarrying hkeys⟩

/-- The envelopes of a side stay on their course when the other writes. -/
theorem OnCourse.peerWrites (h : x.OnCourse S side.peer) {plaintext : Bytes}
    (hwrote : Wrote S x side plaintext p state entry session env after) :
    (x.posted side p state).OnCourse S side.peer := by
  have hne := Side.peer_ne side
  have hview : (x.posted side p state).view = x.view.posted side p after := view_posted hwrote
  rcases h with h | ⟨m, g, early, late, letters, hcourse⟩
  · refine .inl ⟨?_, ?_, h.read, h.readToo, ?_, ?_⟩
    · rw [show (x.posted side p state).session = _ from congrArg View.session hview]
      exact (Function.update_of_ne hne _ _).trans h.session
    · exact (Function.update_of_ne hne _ _).trans h.sent
    · exact (Function.update_of_ne hne _ _).trans h.initiated
    · have hknows : (x.withState side state).Knows side.peer :=
        h.knows.withState (by rw [hwrote.records]; rfl) (by rw [hwrote.records]; rfl)
      exact hknows.of_eq rfl rfl rfl rfl
  · refine .inr ⟨m, g, early, late, letters, ?_⟩
    rw [hview, View.lane_posted_peer]
    refine hcourse.peerWrites (fun b hb => ?_) hwrote.sealed
    rw [View.lane_peer] at hb
    rcases hwrote.source with hstored | ⟨hnone, -⟩
    · exact Option.some.inj (hb.symm.trans hstored)
    · exact nomatch hnone.symm.trans hb

/-! ## What is read -/

/-- What a side opens the next letter of the other's handshake with: the session that answers it, as
long as it has read nothing, and then the one it has. -/
inductive Answered (S : Suite) (x : Correspondence σ) (side : Side) (m : Meeting) (g : Session)
    (letters : List Letter) (p : Post) (l : Letter) (entry : Wire.Entry) : Prop
  | fresh {own bundle : Bundle} (unread : x.read side = 0)
      (current : (x.records side).current = some own)
      (held : (own.find? m.theirOneTime.bytes).isSome)
      (decoded : Wire.HandshakeMessage.decode entry.key = .ok (m.message l.payload))
      (stream : Stream .complete S g (m.responder S) (l :: letters))
      (opensWith : Device.OpensWith S (x.party side).device (x.records side) p.envelope.sender entry
        ⟨m.responder S, l.payload, some bundle⟩)
  | stored {b : Session} (hasRead : 0 < x.read side) (session : x.session side = some b)
      (answers : Answers S m b) (stream : Stream .complete S g b (l :: letters))
      (opensWith : Device.OpensWith S (x.party side).device (x.records side) p.envelope.sender entry
        ⟨b, l.payload, none⟩)

/-- The next letter of the other's handshake can be opened. -/
theorem Course.answered (h : Course S (x.view.lane side.peer) m g (p :: early) late letters)
    (hcounted : x.view.Counted) (hagrees : x.Agrees S) :
    ∃ l ls entry, letters = l :: ls ∧ p.Holds S m (x.id side.peer) (x.id side) l ∧
      p.envelope.entryFor (x.id side) = some entry ∧ l.isHandshake = true ∧
      entry.isHandshake = true ∧ Answered S x side m g ls p l entry := by
  rw [View.lane_peer] at h
  have hcarried := h.carried
  cases hcarried with
  | @cons _ l _ ls hp hrest =>
    have hletter : l.isHandshake = true := h.waiting.letters l List.mem_cons_self
    obtain ⟨entry, hentry, hhandshake, -⟩ := hp.entry
    refine ⟨l, ls, entry, rfl, hp, hentry, hletter, hhandshake.trans hletter, ?_⟩
    obtain ⟨own, hown, hmade⟩ := h.made
    cases h.reader with
    | waiting unread holding some stream =>
      obtain ⟨hdecoded, bundle, hopens⟩ := hp.opensWith_fresh_of_holding hentry hletter holding hown
        hmade h.identity h.ephemeral hcounted hagrees
      obtain ⟨own', hown', hheld⟩ := holding
      obtain rfl := Option.some.inj (hown'.symm.trans hown)
      exact .fresh unread hown hheld hdecoded stream hopens
    | answering b hasRead spent session answers stream =>
      refine .stored hasRead session answers stream (hp.opensWith_stored hentry session fun _ => ?_)
      exact ⟨own, hown, Option.not_isSome_iff_eq_none.mp fun hheld => spent ⟨own, hown, hheld⟩⟩

/-- A strange envelope is refused with nothing saved, once its reader has read a letter of the
handshake: at once, if it has not written since, and otherwise unless it is mistaken. -/
theorem Course.refused (h : Course S (x.view.lane side.peer) m g early late letters)
    (hlate : p ∈ late) (hread : 0 < x.read side) {b : Session} (hb : x.session side = some b)
    (hno : ∀ entry, p.envelope.entryFor (x.id side) = some entry → ¬ b.Mistakes S entry.key) :
    ∃ refusal state, x.opened S side p = (.error refusal, state) ∧
      Device.Keeps (x.party side).state state ∧
      (x.Healthy side → ∃ cause, refusal = .session cause ∧
        (b.ratchet = none → cause = .rejected .ratchetTooEarly)) := by
  rw [View.lane_peer] at h
  obtain ⟨hsender, entry, hentry, hplain, hstrange⟩ := h.stray p hlate
  cases h.reader with
  | waiting unread => exact absurd unread (Nat.ne_of_gt hread)
  | answering b' hasRead spent session answers stream =>
    obtain rfl : b' = b := Option.some.inj (session.symm.trans hb)
    have hopens : Device.OpensWith S (x.party side).device (x.records side) p.envelope.sender entry
        ⟨b', entry.key, none⟩ := by
      refine .message hplain ?_
      rw [show p.envelope.sender = x.id side.peer from hsender]
      exact session
    obtain ⟨refusal, state, hdecrypt, hkeeps, hcause⟩ := Device.OpensWith.decrypt_refused
      (s := (x.party side).state) (P := fun cause =>
        b'.ratchet = none → cause = .rejected .ratchetTooEarly) hentry hopens fun now => by
      rw [hplain]
      cases hratchet : b'.ratchet with
      | none => exact ⟨_, fun _ => rfl, answers.refuses_early hstrange hratchet⟩
      | some pair =>
        obtain ⟨cause, hrefused⟩ := answers.refuses hstrange (hno entry hentry)
        exact ⟨cause, nofun, hrefused⟩
    refine ⟨refusal, state, hdecrypt, hkeeps, fun hhealthy => ?_⟩
    obtain ⟨cause, hwhen, hrefusal⟩ := hcause hhealthy
    exact ⟨cause, hrefusal, hwhen⟩

/-! ## Reading -/

/-- No envelope outside a handshake message is mistaken by the session that its reader has. -/
def Unmixed (S : Suite) (x : Correspondence σ) : Prop :=
  ∀ side p session entry, p ∈ x.sent side.peer → x.session side = some session →
    p.envelope.entryFor (x.id side) = some entry → entry.isHandshake = false →
    ¬ session.Mistakes S entry.key

/-- A side that has sent nothing in its session mistakes nothing, and neither does one to which
only handshake messages are on their way. -/
theorem unmixed_of_forall (h : ∀ side, (∀ session ∈ x.session side, session.ratchet = none) ∨
      ∀ p ∈ x.sent side.peer, ∀ entry ∈ p.envelope.entryFor (x.id side), entry.isHandshake = true) :
    x.Unmixed S := by
  intro side p session entry hp hsession hentry hplain hmistakes
  obtain ⟨body, mac, message, own, shared, -, -, hown, -⟩ := hmistakes
  rcases h side with hratchet | hhandshake
  · exact nomatch (hratchet session hsession).symm.trans hown
  · exact Bool.false_ne_true (hplain.symm.trans (hhandshake p hp entry hentry))

/-- What is known of the other's bundle stays so when reading saves nothing. -/
theorem Knows.read (h : x.Knows side) {reader : Side}
    (hview : (x.step S (.read reader)).view = x.view) : (x.step S (.read reader)).Knows side := by
  obtain ⟨hpublished, hbundle⟩ := read_frame S x reader
  exact h.of_eq (congrFun (congrArg View.id hview) _) (congrFun (congrArg View.current hview) _)
    (hbundle side) (congrFun hpublished _)

/-- Behind the handshake stands a strange envelope, which is refused. -/
theorem Course.view_refused (h : Course S (x.view.lane side.peer) m g [] (p :: rest) letters)
    (hsent : x.sent side.peer = p :: rest) (hunmixed : x.Unmixed S) :
    (x.step S (.read side)).view = x.view := by
  obtain rfl := List.forall₂_nil_left_iff.mp h.carried
  have hreader := h.reader
  rw [View.lane_peer] at hreader
  cases hreader with
  | waiting _ _ some => exact absurd rfl some
  | answering b hasRead _ hsession _ _ =>
    have hplain := h.stray p List.mem_cons_self
    rw [View.lane_peer] at hplain
    obtain ⟨-, entry, hentry, hno, -⟩ := hplain
    obtain ⟨refusal, state, hrefused, hsaved, -⟩ :=
      h.refused List.mem_cons_self hasRead hsession fun entry' hentry' => by
        obtain rfl := Option.some.inj (hentry.symm.trans hentry')
        exact hunmixed side p b entry (hsent ▸ List.mem_cons_self) hsession hentry hno
    rw [step]
    simp only [hsent, hrefused]
    exact view_attempted_of_keeps hsaved

/-- The envelopes of a side that has started a session stay on their course when it answers the
other's handshake. -/
theorem OnCourse.starts (h : x.OnCourse S side) (hstarts : (x.step S (.read side)).EitherStarts)
    {own stored : Bundle}
    (hview : (x.step S (.read side)).view = x.view.started side rest after own stored)
    (hunread : x.read side = 0) (hestablished : after.isEstablished = true)
    (hratchet : after.ratchet = none) : (x.step S (.read side)).OnCourse S side := by
  rcases h with hunstarted | ⟨m, g, early, late, letters, hcourse⟩
  · -- a side that has read without having started
    have hsome : (x.step S (.read side)).session side = some after :=
      (congrFun (congrArg View.session hview) side).trans (Function.update_self _ _ _)
    rcases hstarts side with hnone | hyes
    · cases hsome.symm.trans hnone
    · rw [initiated_read S x side, hunstarted.initiated] at hyes
      exact absurd hyes Bool.false_ne_true
  · refine .inr ⟨m, g, outdated (replaces (x.session side) (some after)) early, [], letters, ?_⟩
    rw [hview, View.lane_started]
    exact hcourse.starts hunread hestablished hratchet _ _

/-- The envelopes of a side stay on their course when its session reads a letter. -/
theorem OnCourse.reads (h : x.OnCourse S side)
    (hview : (x.step S (.read side)).view = x.view.opened side rest after)
    (hread : 0 < x.read side) (hsession : x.session side = some session) {config : Config}
    {now : UInt64} {payload bodyKey : Bytes} {isHandshake : Bool}
    (hopen : session.openMessage S config now payload isHandshake = .ok (bodyKey, after)) :
    (x.step S (.read side)).OnCourse S side := by
  rcases h with hunstarted | ⟨m, g, early, late, letters, hcourse⟩
  · cases hsession.symm.trans hunstarted.session
  · refine .inr ⟨m, g, early, late, letters, ?_⟩
    rw [hview, View.lane_opened]
    exact hcourse.reads hread hsession hopen

/-- Nothing is off its course after a read that saves nothing. -/
theorem Crossing.reads_nothing (h : x.Crossing S) (hview : (x.step S (.read side)).view = x.view) :
    (x.step S (.read side)).view.Counted ∧ ∀ other, (x.step S (.read side)).OnCourse S other :=
  ⟨hview ▸ h.counted, fun other =>
    (h.onCourse other).of_view hview (initiated_read S x side) (·.read hview)⟩

/-- The envelopes of both sides stay on their course when one answers the other's handshake. -/
theorem Crossing.reads_first (h : x.Crossing S)
    (hcourse : Course S (x.view.lane side.peer) m g (p :: early) late (l :: letters))
    (hsent : x.sent side.peer = p :: (early ++ late)) (hsender : p.envelope.sender = x.id side.peer)
    (hentry : p.envelope.entryFor (x.id side) = some entry)
    (hhandshake : entry.isHandshake = l.isHandshake)
    (hstarts : (x.step S (.read side)).EitherStarts)
    (hsound : (x.step S (.read side)).view.Sound S) (hunread : x.read side = 0) {own bundle : Bundle}
    (hcurrent : (x.records side).current = some own)
    (hheld : (own.find? m.theirOneTime.bytes).isSome)
    (hdecoded : Wire.HandshakeMessage.decode entry.key = .ok (m.message l.payload))
    (hstream : Stream .complete S g (m.responder S) (l :: letters))
    (hopens : Device.OpensWith S (x.party side).device (x.records side) p.envelope.sender entry
      ⟨m.responder S, l.payload, some bundle⟩) :
    (x.step S (.read side)).view.Counted ∧ ∀ other, (x.step S (.read side)).OnCourse S other := by
  rcases read_fresh side hsent hsender hentry hdecoded hcurrent hopens with
    hview | ⟨now, bodyKey, after, hopened, -, ⟨env, stored, hstored, hview⟩ | ⟨hunhealthy, -⟩⟩
  · exact h.reads_nothing hview
  · have hstarted : (x.step S (.read side)).view =
        x.view.started side (early ++ late) after own stored := hview
    rw [hhandshake] at hopened
    refine ⟨hstarted ▸ h.counted.started hcurrent hheld hstored, fun other => ?_⟩
    -- the lane of the reader starts anew, and on the lane of the writer the one-time key is spent
    rcases Side.eq_or_eq_peer side other with rfl | rfl
    · obtain ⟨hanswers, -⟩ := (Answers.start S m).opened hstream hopened
      exact (h.onCourse other).starts hstarts hstarted hunread hanswers.isEstablished
        (by rw [openMessage_frame hopened]; rfl)
    · refine .inr ⟨m, g, early, late, letters, ?_⟩
      have hspent := View.not_holding_started h.counted hcurrent hheld hstored (hstarted ▸ hsound)
      simp only [View.Holding, View.started, Function.update_self] at hspent
      obtain ⟨-, -, hidentity, -⟩ := exists_addedKeys hheld hstored
      rw [hstarted, View.lane_started_peer]
      rw [View.lane_peer] at hcourse ⊢
      exact hcourse.peerStarts hunread hcurrent hidentity hspent hopened
  · exact absurd (h.healthy side) hunhealthy

/-- The envelopes of both sides stay on their course when the session of one reads a letter. -/
theorem Crossing.reads_next (h : x.Crossing S)
    (hcourse : Course S (x.view.lane side.peer) m g (p :: early) late (l :: letters))
    (hsent : x.sent side.peer = p :: (early ++ late)) (hsender : p.envelope.sender = x.id side.peer)
    (hentry : p.envelope.entryFor (x.id side) = some entry)
    (hhandshake : entry.isHandshake = l.isHandshake) (hread : 0 < x.read side)
    (hsession : x.session side = some session)
    (hopens : Device.OpensWith S (x.party side).device (x.records side) p.envelope.sender entry
      ⟨session, l.payload, none⟩) :
    (x.step S (.read side)).view.Counted ∧ ∀ other, (x.step S (.read side)).OnCourse S other := by
  rcases read_stored side hsent hsender hentry hsession hopens with
    hview | ⟨now, bodyKey, after, hopened, -, hview⟩
  · exact h.reads_nothing hview
  · have hopenedView : (x.step S (.read side)).view =
        x.view.opened side (early ++ late) after := hview
    rw [hhandshake] at hopened
    refine ⟨h.counted.of_eq (by rw [hopenedView]; rfl) (by rw [hopenedView]; rfl), fun other => ?_⟩
    rcases Side.eq_or_eq_peer side other with rfl | rfl
    · exact (h.onCourse other).reads hopenedView hread hsession hopened
    · refine .inr ⟨m, g, early, late, letters, ?_⟩
      rw [hopenedView, View.lane_opened_peer]
      rw [View.lane_peer] at hcourse ⊢
      exact hcourse.peerReads hread hsession hopened

/-- The envelopes of both sides stay on their course when one reads. -/
theorem Crossing.reads (h : x.Crossing S) (side : Side) (hagrees : x.Agrees S)
    (hunmixed : x.Unmixed S) (hstarts : (x.step S (.read side)).EitherStarts)
    (hsound : (x.step S (.read side)).view.Sound S) :
    (x.step S (.read side)).view.Counted ∧ ∀ other, (x.step S (.read side)).OnCourse S other := by
  cases hsent : x.sent side.peer with
  | nil =>
    refine h.reads_nothing ?_
    rw [step]
    simp only [hsent]
  | cons p rest =>
    rcases h.onCourse side.peer with hunstarted | ⟨m, g, early, late, letters, hcourse⟩
    · cases hsent.symm.trans hunstarted.sent
    have hposts : p :: rest = early ++ late := hsent.symm.trans hcourse.sent
    cases early with
    | nil =>
      obtain rfl : p :: rest = late := hposts
      exact h.reads_nothing (hcourse.view_refused hsent hunmixed)
    | cons first early =>
      obtain ⟨rfl, rfl⟩ := List.cons.inj hposts
      obtain ⟨l, letters, entry, rfl, hp, hentry, hletter, hhandshake, hanswered⟩ :=
        hcourse.answered h.counted hagrees
      have hsame : entry.isHandshake = l.isHandshake := hhandshake.trans hletter.symm
      cases hanswered with
      | fresh unread current held decoded stream opensWith =>
        exact h.reads_first hcourse hsent hp.sender hentry hsame hstarts hsound unread current held
          decoded stream opensWith
      | stored hasRead session _ _ opensWith =>
        exact h.reads_next hcourse hsent hp.sender hentry hsame hasRead session opensWith

/-! ## Runs -/

/-- The envelopes of both sides stay on their course, whatever happens. -/
theorem Crossing.step (h : x.Crossing S) {e : Event} (hallowed : e.IsAllowed .complete)
    (hunmixed : x.Unmixed S) (hagrees : (x.step S e).Agrees S)
    (hdistinct : (x.step S e).KeysDistinct) (hstarts : (x.step S e).EitherStarts) :
    (x.step S e).Crossing S := by
  have hplaced := (staysPlaced_step S _ e).placed h.placed
  have hhealthy (side : Side) := healthy_step S e (h.healthy side)
  have hquiet (hquiet : e.IsQuiet) : (x.step S e).Crossing S := by
    have hview := view_quiet (S := S) (x := x) hquiet
    exact ⟨hplaced, hhealthy, hview ▸ h.counted, fun side =>
      (h.onCourse side).of_view hview (initiated_step S x hquiet.ne_write) (·.quiet hquiet)⟩
  cases e with
  | write writer plaintext =>
    suffices hcourse : (x.write S writer plaintext).view.Counted ∧
        ∀ side, (x.write S writer plaintext).OnCourse S side from
      ⟨hplaced, hhealthy, hcourse.1, hcourse.2⟩
    rw [Correspondence.step] at hdistinct
    rcases write_cases S h.placed writer plaintext with ⟨state, heq, hkeeps⟩ |
      ⟨p, state, entry, session, env, after, heq, hwrote⟩
    · rw [heq]
      have hview := view_of_keeps hkeeps
      exact ⟨hview ▸ h.counted, fun side => (h.onCourse side).of_view hview rfl
        (·.withState (congrArg Records.current hkeeps.1) (congrArg Records.bundle hkeeps.1))⟩
    · rw [heq] at hdistinct ⊢
      refine ⟨h.counted.of_prefix (by rw [view_posted hwrote]) (prefix_update _ _ _),
        fun side => ?_⟩
      rcases Side.eq_or_eq_peer writer side with rfl | rfl
      · exact (h.onCourse side).writes h.counted hwrote hdistinct
      · exact (h.onCourse writer.peer).peerWrites hwrote
  | read reader =>
    obtain ⟨hcounted, hcourse⟩ := h.reads reader (hagrees.of_extends (extends_step S x _)) hunmixed
      hstarts ⟨hagrees, hdistinct⟩
    exact ⟨hplaced, hhealthy, hcounted, hcourse⟩
  | lose writer => cases hallowed
  | publish publisher => exact hquiet trivial
  | republish publisher => exact hquiet trivial
  | learn learner position => exact hquiet trivial
  | wait other seconds => exact hquiet trivial

theorem Crossing.start (h : Acquainted initiator responder) (h' : Acquainted responder initiator)
    (hhealthy : initiator.state.Healthy ∧ responder.state.Healthy) :
    (start initiator responder).Crossing S := by
  have hpublished {current : Option Bundle} {own : Bundle} (hown : current = some own) :
      current.toList.map (·.publish) = [own.publish] := by
    rw [hown]
    rfl
  refine ⟨placed_start h, fun side => ?_, counted_start initiator responder, fun side => .inl ?_⟩
  · cases side with
    | initiator => exact hhealthy.1
    | responder => exact hhealthy.2
  · cases side with
    | initiator =>
      obtain ⟨own, stored, hown, hstored, hoffers⟩ := h.bundle
      exact ⟨h.noSession, rfl, rfl, rfl, rfl, .of_offers hown hstored hoffers (hpublished hown)⟩
    | responder =>
      obtain ⟨own, stored, hown, hstored, hoffers⟩ := h'.bundle
      exact ⟨h'.noSession, rfl, rfl, rfl, rfl, .of_offers hown hstored hoffers (hpublished hown)⟩

/-- The envelopes of both sides stay on their course over every run in which both start. -/
theorem crossing_run (h : Acquainted initiator responder) (h' : Acquainted responder initiator)
    (hhealthy : initiator.state.Healthy ∧ responder.state.Healthy) (events : List Event)
    (hallowed : ∀ e ∈ events, e.IsAllowed .complete)
    (hunmixed : ∀ before behind, events = before ++ behind →
      ((start initiator responder).run S before).Unmixed S)
    (hagrees : ((start initiator responder).run S events).Agrees S)
    (hdistinct : ((start initiator responder).run S events).KeysDistinct)
    (hstarts : ((start initiator responder).run S events).EitherStarts) :
    ((start initiator responder).run S events).Crossing S := by
  induction events using List.reverseRecOn with
  | nil => exact .start h h' hhealthy
  | append_singleton events e ih =>
    rw [run_concat] at hagrees hdistinct hstarts ⊢
    have hextends := extends_step S ((start initiator responder).run S events) e
    have hbefore := ih (fun e' he' => hallowed e' (List.mem_append_left _ he'))
      (fun before behind heq => hunmixed before (behind ++ [e]) (by rw [heq, List.append_assoc]))
      (hagrees.of_extends hextends) (hdistinct.of_extends hextends) hstarts.of_step
    exact hbefore.step (hallowed e (List.mem_append_right _ List.mem_cons_self))
      (hunmixed events [e] rfl) hagrees hdistinct hstarts

/-! ## What becomes of the envelopes -/

/-- What is read and refused between two devices that have both started a session, where `meeting`
is the handshake that each side has started. -/
structure Crossed (S : Suite) (x : Correspondence σ) (meeting : Side → Meeting) : Prop where
  /-- Each side has made its handshake with its own keys and the other's identity. -/
  made : ∀ side, (∀ pair ∈ [(meeting side).identity, (meeting side).ephemeral,
      (meeting side).ratchet], pair ∈ x.generated side) ∧
    ∃ own, (x.records side.peer).current = some own ∧
      (meeting side).MadeWith S own.identity.publicKey
  /-- Either side writes inside handshake messages, its own, until it has read something. -/
  flags : ∀ side plaintext e entry, (x.written S side plaintext).1 = .ok e → entry ∈ e.entries →
    (entry.isHandshake = true ↔ x.read side = 0)
  names : ∀ side p entry, p ∈ x.sent side → p.envelope.entryFor (x.id side.peer) = some entry →
    entry.isHandshake = true →
      ∃ l, p.Holds S (meeting side) (x.id side) (x.id side.peer) l
  /-- The next handshake message is read as what was written. -/
  reads : ∀ side p rest entry, x.sent side.peer = p :: rest →
    p.envelope.entryFor (x.id side) = some entry → entry.isHandshake = true →
      (x.opened S side p).1 = .ok p.plaintext
  /-- A side that has read something has the session that answers the other's handshake. -/
  ends : ∀ side, 0 < x.read side →
    ∃ b, x.session side = some b ∧ Answers S (meeting side.peer) b
  /-- It refuses everything outside handshake messages, and nothing changes by that. -/
  refuses : ∀ side p entry b, p ∈ x.sent side.peer →
    p.envelope.entryFor (x.id side) = some entry → entry.isHandshake = false → 0 < x.read side →
    x.session side = some b →
      ∃ cause state, x.opened S side p = (.error (.session cause), state) ∧
        state.records = x.records side ∧ (b.ratchet = none → cause = .rejected .ratchetTooEarly)

/-- An envelope on a lane carries a letter of its meeting, inside a handshake message, or is a strange
one, outside. -/
theorem Course.mem_cases {w : Lane} (h : Course S w m g early late letters) (hp : p ∈ w.sent)
    (hentry : p.envelope.entryFor w.reader = some entry) :
    (entry.isHandshake = true ∧ p ∈ early ∧ ∃ l, p.Holds S m w.writer w.reader l) ∨
      entry.isHandshake = false ∧ p ∈ late := by
  rw [h.sent] at hp
  rcases List.mem_append.mp hp with hp | hp
  · obtain ⟨l, hl, hholds⟩ := exists_of_forall₂ h.carried hp
    obtain ⟨entry', hentry', hsame, -⟩ := hholds.entry
    obtain rfl := Option.some.inj (hentry.symm.trans hentry')
    exact .inl ⟨hsame.trans (h.waiting.letters l hl), hp, l, hholds⟩
  · obtain ⟨-, entry', hentry', hplain, -⟩ := h.stray p hp
    obtain rfl := Option.some.inj (hentry.symm.trans hentry')
    exact .inr ⟨hplain, hp⟩

/-- What is read of the envelopes of a side on its course. -/
theorem Course.read (hcipher : S.CipherUndoes)
    (h : Course S (x.view.lane side.peer) m g early late letters) (hcounted : x.view.Counted)
    (hagrees : x.Agrees S) (hhealthy : x.Healthy side) (hsent : x.sent side.peer = p :: rest)
    (hentry : p.envelope.entryFor (x.id side) = some entry)
    (hhandshake : entry.isHandshake = true) : (x.opened S side p).1 = .ok p.plaintext := by
  have hlane := h
  rw [View.lane_peer] at hlane
  have hmem : p ∈ x.sent side.peer := hsent ▸ List.mem_cons_self
  have hearly : p ∈ early := by
    rcases hlane.mem_cases hmem hentry with ⟨-, hearly, -⟩ | ⟨hplain, -⟩
    · exact hearly
    · exact nomatch hhandshake.symm.trans hplain
  cases early with
  | nil => exact nomatch hearly
  | cons first early =>
    obtain ⟨rfl, -⟩ := List.cons.inj (hsent.symm.trans hlane.sent)
    obtain ⟨l, letters, entry', rfl, hp, hentry', hletter, hhandshake', hanswered⟩ :=
      h.answered hcounted hagrees
    have hread {session : Session} {bundle : Option Bundle}
        (hopens : Device.OpensWith S (x.party side).device (x.records side) p.envelope.sender entry'
          ⟨session, l.payload, bundle⟩)
        (hmessage : ∀ now, ∃ after, session.openMessage S (x.party side).device.config now l.payload
          l.isHandshake = .ok (l.plaintext, after)) : (x.opened S side p).1 = .ok p.plaintext :=
      (opened_cases hcipher hp hentry' (hhandshake'.trans hletter.symm) hopens hmessage).resolve_right
        fun hno => hno.1 hhealthy
    cases hanswered with
    | fresh _ _ _ _ stream opensWith =>
      exact hread opensWith fun now => (Answers.start S m).opens hcipher stream
    | stored _ _ answers stream opensWith =>
      exact hread opensWith fun now => answers.opens hcipher stream

/-- A side on its course writes inside handshake messages until it has read something. -/
theorem Course.isHandshake_iff (h : Course S (x.view.lane side) m g early late letters)
    (hplaced : x.Placed) {plaintext : Bytes} {e : Wire.Envelope}
    (hwritten : (x.written S side plaintext).1 = .ok e) (hentry : entry ∈ e.entries) :
    entry.isHandshake = true ↔ x.read side = 0 := by
  rcases isHandshake_of_written hplaced hwritten hentry with ⟨session, hstored, hsame⟩ | ⟨hnone, -⟩
  · rw [hsame]
    cases h.writer with
    | waiting unread ours =>
      obtain rfl := Option.some.inj (hstored.symm.trans ours)
      rw [h.unread]
      exact ⟨fun _ => unread, fun _ => rfl⟩
    | answering b hasRead ours established =>
      obtain rfl := Option.some.inj (hstored.symm.trans ours)
      rw [established]
      exact ⟨nofun, fun hzero => absurd hzero (Nat.ne_of_gt hasRead)⟩
  · cases h.writer with
    | waiting _ ours => exact nomatch hnone.symm.trans ours
    | answering _ _ ours => exact nomatch hnone.symm.trans ours

/-- What comes outside a handshake message is refused by a side that has read one. -/
theorem Crossing.refuses (h : x.Crossing S)
    (hcourse : Course S (x.view.lane side.peer) m g early late letters) (hunmixed : x.Unmixed S)
    (hp : p ∈ x.sent side.peer) (hentry : p.envelope.entryFor (x.id side) = some entry)
    (hplain : entry.isHandshake = false) (hread : 0 < x.read side) {b : Session}
    (hb : x.session side = some b) :
    ∃ cause state, x.opened S side p = (.error (.session cause), state) ∧
      state.records = x.records side ∧ (b.ratchet = none → cause = .rejected .ratchetTooEarly) := by
  have hlate : p ∈ late := by
    have hlane := hcourse
    rw [View.lane_peer] at hlane
    rcases hlane.mem_cases hp hentry with ⟨hhandshake, -⟩ | ⟨-, hlate⟩
    · exact nomatch hhandshake.symm.trans hplain
    · exact hlate
  obtain ⟨refusal, state, hrefused, hkeeps, hcause⟩ :=
    hcourse.refused hlate hread hb fun entry' hentry' => by
      obtain rfl := Option.some.inj (hentry.symm.trans hentry')
      exact hunmixed side p b entry hp hb hentry hplain
  obtain ⟨cause, rfl, hwhen⟩ := hcause (h.healthy side)
  exact ⟨cause, state, hrefused, hkeeps.1, hwhen⟩

/-- Two devices that have both started a session read each other's handshake messages, and refuse
everything else. -/
theorem Crossing.crossed (hcipher : S.CipherUndoes) (h : x.Crossing S) (hagrees : x.Agrees S)
    (hunmixed : x.Unmixed S) (hboth : ∀ side, x.initiated side = true) :
    ∃ meeting, x.Crossed S meeting := by
  have hcourse (side : Side) : ∃ m g early late letters,
      Course S (x.view.lane side) m g early late letters := by
    rcases h.onCourse side with hunstarted | hcourse
    · exact nomatch hunstarted.initiated.symm.trans (hboth side)
    · exact hcourse
  choose meeting g early late letters hcourse using hcourse
  refine ⟨meeting, ⟨fun side => ⟨fun pair hpair => ?_, (hcourse side).made⟩,
    fun side plaintext e entry hwritten hentry => ?_,
    fun side p entry hp hentry hhandshake => ?_,
    fun side p rest entry hsent hentry hhandshake => ?_, fun side hread => ?_,
    fun side p entry b hp hentry hplain hread hb => ?_⟩⟩
  · simp only [List.mem_cons, List.not_mem_nil, or_false] at hpair
    rcases hpair with rfl | rfl | rfl
    · exact (hcourse side).identity
    · exact (hcourse side).ephemeral
    · exact (hcourse side).ratchet
  · exact (hcourse side).isHandshake_iff h.placed hwritten hentry
  · rcases (hcourse side).mem_cases hp hentry with ⟨-, -, hholds⟩ | ⟨hplain, -⟩
    · exact hholds
    · exact nomatch hhandshake.symm.trans hplain
  · exact (hcourse side.peer).read hcipher h.counted hagrees (h.healthy side) hsent hentry hhandshake
  · have hreader := (hcourse side.peer).reader
    rw [View.lane_peer] at hreader
    cases hreader with
    | waiting unread => exact absurd unread (Nat.ne_of_gt hread)
    | answering b _ _ hsession answers _ => exact ⟨b, hsession, answers⟩
  · exact h.refuses (hcourse side.peer) hunmixed hp hentry hplain hread hb

/-- In every run of two devices that both write before they read, in which nothing is lost and no
store fails, the handshake messages of either are read by the other as what was written. Each side
ends on the session that answers the other's handshake, and refuses whatever the other writes after
it has done so. -/
theorem crossed_run (hcipher : S.CipherUndoes) (h : Acquainted initiator responder)
    (h' : Acquainted responder initiator)
    (hhealthy : initiator.state.Healthy ∧ responder.state.Healthy) (events : List Event)
    (hallowed : ∀ e ∈ events, e.IsAllowed .complete)
    (hboth : ∀ side, ((start initiator responder).run S events).initiated side = true)
    (hagrees : ((start initiator responder).run S events).Agrees S)
    (hdistinct : ((start initiator responder).run S events).KeysDistinct)
    (hunmixed : ∀ before behind, events = before ++ behind →
      ((start initiator responder).run S before).Unmixed S) :
    ∃ meeting, ((start initiator responder).run S events).Crossed S meeting :=
  (crossing_run h h' hhealthy events hallowed hunmixed hagrees hdistinct
    fun side => .inr (hboth side)).crossed hcipher hagrees
      (hunmixed events [] (List.append_nil _).symm) hboth

/-- Alice and Bob write to each other, read what the other has written, and Alice writes again. -/
theorem crossed_run_alice_bob :
    let x := (start alice bob).run .plain [.write .initiator [1], .write .responder [2],
      .read .initiator, .read .responder, .write .initiator [3]]
    (∀ side, x.read side = 1) ∧ (x.sent .initiator).length = 1 ∧
      ∃ meeting, x.Crossed .plain meeting := by
  have hrun :
      let x := (start alice bob).run .plain [.write .initiator [1], .write .responder [2],
        .read .initiator, .read .responder, .write .initiator [3]]
      (∀ side, ∀ p ∈ x.generated side, p.privateKey = some p.publicKey) ∧ x.KeysDistinct ∧
        (∀ side, x.initiated side = true) ∧ (∀ side, x.read side = 1) ∧
        (x.sent .initiator).length = 1 := by
    decide +kernel
  have hprefixes : ∀ before ∈ [Event.write .initiator [1], .write .responder [2], .read .initiator,
      .read .responder, .write .initiator [3]].inits,
      let x := (start alice bob).run .plain before
      ∀ side, (∀ session ∈ x.session side, session.ratchet = none) ∨
        ∀ p ∈ x.sent side.peer, ∀ entry ∈ p.envelope.entryFor (x.id side),
          entry.isHandshake = true := by
    decide +kernel
  obtain ⟨hown, hdistinct, hboth, hread, hsent⟩ := hrun
  refine ⟨hread, hsent, crossed_run Suite.plain_cipherUndoes acquainted_alice_bob
    acquainted_bob_alice ⟨healthy_memory alice, healthy_memory bob⟩ _ ?_ hboth (.of_plain hown)
    hdistinct fun before behind hevents => ?_⟩
  · simp [Event.IsAllowed]
  · exact unmixed_of_forall (hprefixes before ((List.mem_inits _ _).mpr ⟨behind, hevents.symm⟩))

/-- Bob refuses what Alice has written then. -/
theorem refused_after_crossing :
    Acquainted alice bob ∧ Acquainted bob alice ∧
    let x := (start alice bob).run .plain [.write .initiator [1], .write .responder [2],
      .read .initiator, .read .responder, .write .initiator [3]]
    (∀ side, x.read side = 1) ∧ ∃ p, x.sent .initiator = [p] ∧ p.plaintext = [3] ∧
      (x.opened .plain .responder p).1 = .error (.session (.rejected .ratchetTooEarly)) := by
  have hrun :
      let x := (start alice bob).run .plain [.write .initiator [1], .write .responder [2],
        .read .initiator, .read .responder, .write .initiator [3]]
      (∀ side, x.read side = 1) ∧ (x.sent .initiator).map (·.plaintext) = [[3]] ∧
        ∀ p ∈ x.sent .initiator, (x.opened .plain .responder p).1 =
          .error (.session (.rejected .ratchetTooEarly)) := by
    decide +kernel
  obtain ⟨hread, hplaintext, hrefused⟩ := hrun
  obtain ⟨p, hsent, hp⟩ := List.map_eq_singleton_iff.mp hplaintext
  exact ⟨acquainted_alice_bob, acquainted_bob_alice, hread, p, hsent, hp,
    hrefused p (hsent ▸ List.mem_singleton_self p)⟩
end EndToEnd.Correspondence
