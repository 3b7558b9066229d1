import EndToEnd.Proofs.Correspondence.InTouch
import EndToEnd.Proofs.Correspondence.Lasting
import Mathlib.Data.List.Induction

/-!
# Staying in touch

A device that knows another's bundle is in touch with it from its first envelope on, and whatever
happens next, the two stay so: step by step, and so over every run.

Main statements:

- `Met.responderOpens`: what the responder opens the next envelope with;
- `InTouch.step`, `inTouch_run`: two devices stay in touch.
-/

namespace EndToEnd.Correspondence

open Session

variable {σ : Type} [Store σ] [LawfulStore σ] {d : Delivery} {S : Suite} {x x' : Correspondence σ}
  {v : View} {m : Meeting} {a : Session} {letters : List Letter} {l : Letter} {p : Post}
  {rest : List Post} {state : Device.State σ}

/-! ## Before the first envelope -/

/-- Neither device has written to the other. What the initiator knows of the responder's bundle, or
can learn of it, is what the responder holds. -/
structure Unmet (x : Correspondence σ) : Prop where
  session : ∀ side, x.session side = none
  sent : ∀ side, x.sent side = []
  read : ∀ side, x.read side = 0
  knows : x.Knows .initiator

/-- The same view, with what is known of the responder's bundle still what it holds. -/
theorem Unmet.of_view (h : x.Unmet) (hview : x'.view = x.view) (hknows : x'.Knows .initiator) :
    x'.Unmet := by
  refine ⟨fun side => ?_, fun side => ?_, fun side => ?_, hknows⟩
  · exact (congrFun (congrArg View.session hview) side).trans (h.session side)
  · exact (congrFun (congrArg View.sent hview) side).trans (h.sent side)
  · exact (congrFun (congrArg View.read hview) side).trans (h.read side)

/-- The first envelope puts two devices in touch. -/
theorem Unmet.initiatorWrites (h : x.Unmet) (hcounted : x.view.Counted) {plaintext : Bytes}
    {entry : Wire.Entry} {session after : Session} {env : Environment}
    (hwrote : Wrote S x .initiator plaintext p state entry session env after)
    (hsound : (x.posted .initiator p state).view.Sound S) :
    ∃ m letters, Met d S (x.posted .initiator p state).view m after letters := by
  have hnone : x.session .initiator = none := h.session .initiator
  obtain ⟨m, rfl, hidentity, hmade, hholding, hdrawn⟩ :=
    h.knows.exists_meeting hnone hcounted hwrote
  -- the session before it seals, with the keys that it was made from
  let before : View := { x.view with
    session := Function.update x.session .initiator (some (m.initiator S))
    generated := Function.update x.generated .initiator
      (x.generated .initiator ++ [m.ephemeral, m.ratchet]) }
  have hmet : Met d S before m (m.initiator S) [] := by
    have hcarried : before.sent .initiator = [] := h.sent .initiator
    have hnew {pair : KeyPair} (hpair : pair ∈ [m.ephemeral, m.ratchet]) :
        pair ∈ before.generated .initiator := List.mem_append_right _ hpair
    refine ⟨rfl, hcarried ▸ .nil, List.mem_append_left _ hidentity, hnew List.mem_cons_self,
      fun pair hpair => ?_, hmade, fun _ => ⟨rfl, rfl, rfl, ⟨rfl, rfl⟩, rfl, nofun⟩,
      fun _ _ => .start (m.responder_eq S), .absent (h.session .responder) rfl
        (h.sent .responder) hholding, fun _ => ⟨?_, ?_⟩⟩
    · obtain rfl := Option.some.inj hpair
      exact hnew (List.mem_cons_of_mem _ List.mem_cons_self)
    · have hread : before.read .initiator = 0 := h.read .initiator
      rw [hread]
      exact ⟨nofun, nofun⟩
    · have hread : before.read .responder = 0 := h.read .responder
      exact ⟨fun _ => hread, fun _ => h.session .responder⟩
  have hview : (x.posted .initiator p state).view = before.posted .initiator p after := by
    rw [view_posted hwrote, hnone, hdrawn]
    show _ = View.mk _ (Function.update (Function.update _ _ _) _ _) _ _
      (Function.update (Function.update _ _ _) _ (_ ++ [])) _
    rw [List.append_nil, Function.update_idem, Function.update_idem]
    rfl
  rw [hview] at hsound ⊢
  obtain ⟨l, hmet⟩ := hmet.initiatorWrites hwrote.sealed
    (fun l hhandshake hplaintext hcarries hfirst =>
      hwrote.holds hhandshake hplaintext hcarries (fun _ => ⟨rfl, rfl, rfl⟩) hfirst) hsound
  exact ⟨m, _, hmet⟩

/-! ## What the next envelope is opened with -/

/-- The next envelope of the initiator carries a letter. -/
theorem Met.exists_letter (h : Met d S x.view m a letters)
    (hsent : x.sent .initiator = p :: rest) : ∃ l ls, letters = l :: ls := by
  have hcarried := h.carried
  rw [show x.view.sent .initiator = p :: rest from hsent] at hcarried
  cases hcarried with
  | cons _ _ => exact ⟨_, _, rfl⟩

/-- What the responder opens the next envelope with: the session that answers the meeting, if the
envelope names the one-time key and that is still held, and its own otherwise. -/
inductive Opens (S : Suite) (x : Correspondence σ) (m : Meeting) (p : Post) (l : Letter)
    (entry : Wire.Entry) : Prop
  | fresh {own bundle : Bundle} (handshake : l.isHandshake = true)
      (holding : x.view.Holding .responder m)
      (current : (x.records .responder).current = some own)
      (decoded : Wire.HandshakeMessage.decode entry.key = .ok (m.message l.payload))
      (opensWith : Device.OpensWith S (x.party .responder).device (x.records .responder)
        p.envelope.sender entry ⟨m.responder S, l.payload, some bundle⟩)
  | stored {b : Session} (session : x.session .responder = some b)
      (spent : l.isHandshake = true → ¬ x.view.Holding .responder m)
      (opensWith : Device.OpensWith S (x.party .responder).device (x.records .responder)
        p.envelope.sender entry ⟨b, l.payload, none⟩)

theorem Met.responderOpens (h : Met d S x.view m a (l :: letters)) (hcounted : x.view.Counted)
    (hagrees : x.Agrees S) (hsent : x.sent .initiator = p :: rest) :
    p.Holds S m (x.id .initiator) (x.id .responder) l ∧
      ∃ entry, p.envelope.entryFor (x.id .responder) = some entry ∧
        entry.isHandshake = l.isHandshake ∧ Opens S x m p l entry := by
  have hcarried : List.Forall₂ (Post.Holds S m (x.id .initiator) (x.id .responder)) (p :: rest)
      (l :: letters) := hsent ▸ h.carried
  obtain ⟨hp, -⟩ := List.forall₂_cons.mp hcarried
  obtain ⟨entry, hentry, hhandshake, -⟩ := hp.entry
  refine ⟨hp, entry, hentry, hhandshake, ?_⟩
  obtain ⟨own, hown, hmade⟩ := h.made
  by_cases hfresh : l.isHandshake = true ∧ x.view.Holding .responder m
  · obtain ⟨hletter, hholding⟩ := hfresh
    obtain ⟨hdecoded, bundle, hopens⟩ := hp.opensWith_fresh_of_holding hentry hletter hholding
      hown hmade h.identity h.ephemeral hcounted hagrees
    exact .fresh hletter hholding hown hdecoded hopens
  · have hspent (hletter : l.isHandshake = true) : ¬ x.view.Holding .responder m :=
      fun hholding => hfresh ⟨hletter, hholding⟩
    cases h.partner with
    | absent none unread silent holding =>
      exact absurd holding (hspent ((h.waiting unread).letters l List.mem_cons_self))
    | present b some answering =>
      refine .stored some hspent (hp.opensWith_stored hentry some fun hletter => ?_)
      exact ⟨own, hown, Option.not_isSome_iff_eq_none.mp fun hheld =>
        hspent hletter ⟨own, hown, hheld⟩⟩

/-! ## One step -/

/-- What a correspondence is, beside where the devices are. -/
def Stage (d : Delivery) (S : Suite) (x : Correspondence σ) : Prop :=
  x.view.Counted ∧ (x.Unmet ∨ ∃ m a letters, Met d S x.view m a letters)

theorem Stage.of_keeps (h : Stage d S x) {side : Side}
    (hkeeps : Device.Keeps (x.party side).state state) : Stage d S (x.withState side state) := by
  have hview := view_of_keeps hkeeps
  obtain ⟨hcounted, hunmet | hmet⟩ := h
  · exact ⟨hview ▸ hcounted, .inl (hunmet.of_view hview (hunmet.knows.withState
      (congrArg Records.current hkeeps.1) (congrArg Records.bundle hkeeps.1)))⟩
  · exact ⟨hview ▸ hcounted, .inr (hview ▸ hmet)⟩

/-- The assumptions, as far as they concern the view. -/
theorem Assumed.sound (h : x.Assumed d S) : x.view.Sound S := ⟨h.agrees, h.distinct⟩

/-- Writing keeps two devices in touch. -/
theorem Stage.write (h : Stage d S x) (hplaced : x.Placed) {writer : Side} {plaintext : Bytes}
    (hassumed : (x.write S writer plaintext).Assumed d S) :
    Stage d S (x.write S writer plaintext) := by
  rcases write_cases S hplaced writer plaintext with ⟨state, heq, hkeeps⟩ |
    ⟨p, state, entry, session, env, after, heq, hwrote⟩
  · rw [heq]
    exact h.of_keeps hkeeps
  rw [heq] at hassumed ⊢
  obtain ⟨hcounted, hstage⟩ := h
  have hview := view_posted hwrote
  refine ⟨?_, .inr ?_⟩
  · refine hcounted.of_prefix ?_ (prefix_update _ _ _)
    rw [hview]
  -- only the initiator starts sessions
  have hstarted (hnone : x.session .responder = none) (hwriter : writer = .responder) : False := by
    subst hwriter
    have hno := hassumed.oneStarts
    have hyes : (x.posted .responder p state).initiated .responder = true := by
      show (x.initiated .responder || (x.session .responder).isNone) = true
      rw [hnone, Option.isNone_none, Bool.or_true]
    exact Bool.false_ne_true (hno.symm.trans hyes)
  rcases hstage with hunmet | ⟨m, a, letters, hmet⟩
  · cases writer with
    | responder => exact (hstarted (hunmet.session .responder) rfl).elim
    | initiator =>
      obtain ⟨m, letters, hmet⟩ := hunmet.initiatorWrites hcounted hwrote hassumed.sound
      exact ⟨m, after, letters, hmet⟩
  · have hsound := hassumed.sound
    rw [hview] at hsound ⊢
    cases writer with
    | initiator =>
      obtain rfl : session = a := by
        rcases hwrote.source with hstored | ⟨hnone, -⟩
        · exact Option.some.inj (hstored.symm.trans hmet.ours)
        · exact nomatch hnone.symm.trans hmet.ours
      obtain ⟨l, hmet'⟩ := hmet.initiatorWrites hwrote.sealed
        (fun l hhandshake hplaintext hcarries hfirst => hwrote.holds hhandshake hplaintext hcarries
          (fun hunread => ⟨(hmet.waiting hunread).identity, (hmet.waiting hunread).ephemeral,
            (hmet.waiting hunread).oneTime⟩) hfirst) hsound
      exact ⟨m, after, _, hmet'⟩
    | responder =>
      have hstored : x.session .responder = some session := by
        rcases hwrote.source with hstored | ⟨hnone, -⟩
        · exact hstored
        · exact (hstarted hnone rfl).elim
      refine ⟨m, a, letters, hmet.responderWrites hstored hwrote.sealed hwrote.addressed
        hwrote.isHandshake hwrote.sender hwrote.notStale ?_ hsound⟩
      intro hest l hhandshake hplaintext hcarries
      refine hwrote.holds (hhandshake.trans (by rw [hest]; rfl)) hplaintext hcarries ?_ ?_
      · exact fun hunread => nomatch hest.symm.trans hunread
      · exact fun hunread => nomatch hest.symm.trans hunread

/-- Reading by the initiator keeps two devices in touch. -/
theorem Stage.initiatorReads (h : Stage d S x)
    (hassumed : (x.step S (.read .initiator)).Assumed d S) :
    Stage d S (x.step S (.read .initiator)) := by
  cases hsent : x.sent .responder with
  | nil =>
    have heq : x.step S (.read .initiator) = x := by
      rw [step]
      simp only [Side.peer, hsent]
    rw [heq]
    exact h
  | cons p rest =>
    obtain ⟨hcounted, hunmet | ⟨m, a, letters, hmet⟩⟩ := h
    · -- before they have met nothing is on its way
      cases hsent.symm.trans (hunmet.sent .responder)
    obtain ⟨hsender, entry, hentry, hplain⟩ :
        p.envelope.sender = x.id .responder ∧
          ∃ entry, p.envelope.entryFor (x.id .initiator) = some entry ∧
            entry.isHandshake = false := by
      cases hmet.partner with
      | absent none unread silent => cases hsent.symm.trans silent
      | present b some answering =>
        have hmem : p ∈ x.sent .responder := hsent ▸ List.mem_cons_self
        exact answering.plain p hmem
    have hopens : Device.OpensWith S (x.party .initiator).device (x.records .initiator)
        p.envelope.sender entry ⟨a, entry.key, none⟩ := by
      rw [hsender]
      exact .message hplain hmet.ours
    rcases read_stored .initiator hsent hsender hentry hmet.ours hopens with
      hview | ⟨now, bodyKey, after, hopened, hstale, hview⟩
    · rw [Stage, hview]
      exact ⟨hcounted, .inr ⟨m, a, letters, hmet⟩⟩
    · obtain ⟨l, hp, hletter, -, hread⟩ :=
        hmet.initiatorReads hsent fun hd => hstale (hassumed.kept hd)
      obtain ⟨entry', hentry', -, hkey⟩ := hp.entry
      obtain rfl := Option.some.inj (hentry.symm.trans hentry')
      rw [hletter, if_neg Bool.false_ne_true] at hkey
      rw [hplain, hkey, ← hletter] at hopened
      refine ⟨hcounted.of_eq (by rw [hview]) (by rw [hview]), ?_⟩
      rw [hview]
      exact .inr ⟨m, after, letters, hread hopened⟩

/-- The letter with which the responder starts a session keeps two devices in touch. -/
theorem Met.responderStarts_stage (hmet : Met d S x.view m a (l :: letters))
    (hcounted : x.view.Counted) (hhealthy : d = .complete → x.Healthy .responder)
    (hassumed : (x.step S (.read .responder)).Assumed d S)
    (hsent : x.sent .initiator = p :: rest) (hsender : p.envelope.sender = x.id .initiator)
    {entry : Wire.Entry} (hentry : p.envelope.entryFor (x.id .responder) = some entry)
    (hsame : entry.isHandshake = l.isHandshake) (hletter : l.isHandshake = true)
    (hholding : x.view.Holding .responder m) {own bundle : Bundle}
    (hcurrent : (x.records .responder).current = some own)
    (hdecoded : Wire.HandshakeMessage.decode entry.key = .ok (m.message l.payload))
    (hopens : Device.OpensWith S (x.party .responder).device (x.records .responder)
      p.envelope.sender entry ⟨m.responder S, l.payload, some bundle⟩) :
    Stage d S (x.step S (.read .responder)) := by
  rcases read_fresh .responder hsent hsender hentry hdecoded hcurrent hopens with
    hview | ⟨now, bodyKey, after, hopened, hsuperseded, hresult⟩
  · rw [Stage, hview]
    exact ⟨hcounted, .inr ⟨m, a, _, hmet⟩⟩
  rw [hsame] at hopened
  -- where letters can be lost, the initiator has read nothing of a session that is replaced
  have hkept (hreplaces : replaces (x.session .responder) (some after) = true) :
      a.isEstablished = false := by
    cases hd : d with
    | lossy => exact hsuperseded (hassumed.kept hd) hreplaces a hmet.ours
    | complete =>
      cases hmet.partner with
      | absent none unread => exact unread
      | present b some answering => exact absurd hholding (answering.whole hd).2.2
  rcases hresult with ⟨env, stored, hstored, hview⟩ | ⟨hunhealthy, hview⟩
  · have hsound := hassumed.sound
    rw [hview] at hsound
    refine ⟨?_, .inr ⟨m, a, letters, ?_⟩⟩
    · rw [hview]
      obtain ⟨own', hown', hheld⟩ := hholding
      obtain rfl := Option.some.inj (hown'.symm.trans hcurrent)
      exact hcounted.started hcurrent hheld hstored
    · rw [hview]
      exact hmet.responderStarts hholding hopened hkept hsent hcurrent hstored hcounted hsound
  · have hd : d = .lossy := by
      cases hd : d with
      | lossy => rfl
      | complete => exact absurd (hhealthy hd) hunhealthy
    refine ⟨hcounted.of_eq (by rw [hview]) (by rw [hview]), ?_⟩
    rw [hview]
    exact .inr ⟨m, a, _, hmet.responderHalts hholding hopened hkept hd hletter⟩

/-- Reading by the responder keeps two devices in touch. -/
theorem Stage.responderReads (h : Stage d S x)
    (hhealthy : d = .complete → x.Healthy .responder)
    (hassumed : (x.step S (.read .responder)).Assumed d S) :
    Stage d S (x.step S (.read .responder)) := by
  have hbefore := hassumed.of_extends (extends_step S x _)
  cases hsent : x.sent .initiator with
  | nil =>
    have heq : x.step S (.read .responder) = x := by
      rw [step]
      simp only [Side.peer, hsent]
    rw [heq]
    exact h
  | cons p rest =>
    obtain ⟨hcounted, hunmet | ⟨m, a, letters, hmet⟩⟩ := h
    · cases hsent.symm.trans (hunmet.sent .initiator)
    obtain ⟨l, letters, rfl⟩ := hmet.exists_letter hsent
    obtain ⟨hp, entry, hentry, hsame, hopens⟩ :=
      hmet.responderOpens hcounted hbefore.agrees hsent
    cases hopens with
    | stored hsession hspent hopens =>
      rcases read_stored .responder hsent hp.sender hentry hsession hopens with
        hview | ⟨now, bodyKey, after, hopened, -, hview⟩
      · rw [Stage, hview]
        exact ⟨hcounted, .inr ⟨m, a, _, hmet⟩⟩
      · rw [hsame] at hopened
        refine ⟨hcounted.of_eq (by rw [hview]) (by rw [hview]), ?_⟩
        rw [hview]
        exact .inr ⟨m, a, letters, hmet.responderReads hsession hsent hspent hopened⟩
    | fresh hletter hholding hcurrent hdecoded hopens =>
      exact hmet.responderStarts_stage hcounted hhealthy hassumed hsent hp.sender hentry hsame hletter
        hholding hcurrent hdecoded hopens

/-- The loss of an envelope keeps two devices in touch. -/
theorem Stage.loses (h : Stage .lossy S x) (writer : Side) :
    Stage .lossy S (x.step S (.lose writer)) := by
  obtain ⟨hcounted, hunmet | ⟨m, a, letters, hmet⟩⟩ := h
  · refine ⟨hcounted, .inl ⟨hunmet.session, fun side => ?_, hunmet.read,
      hunmet.knows.known, hunmet.knows.published⟩⟩
    show Function.update x.sent writer (x.sent writer).tail side = []
    rw [hunmet.sent writer, Function.update_apply]
    split
    next => rfl
    next => exact hunmet.sent side
  · cases writer with
    | initiator => exact ⟨hcounted, .inr ⟨m, a, _, hmet.initiatorLoses⟩⟩
    | responder => exact ⟨hcounted, .inr ⟨m, a, _, hmet.responderLoses⟩⟩

/-- A correspondence of two devices that are in touch, or will be by the first envelope. -/
structure InTouch (d : Delivery) (S : Suite) (x : Correspondence σ) : Prop where
  placed : x.Placed
  healthy : d = .complete → ∀ side, x.Healthy side
  stage : Stage d S x

/-- Whatever happens, two devices stay in touch. -/
theorem InTouch.step (h : x.InTouch d S) {e : Event} (hallowed : e.IsAllowed d)
    (hassumed : (x.step S e).Assumed d S) : (x.step S e).InTouch d S := by
  refine ⟨(staysPlaced_step S _ e).placed h.placed,
    fun hd side => healthy_step S e (h.healthy hd side), ?_⟩
  have hquiet (hquiet : e.IsQuiet) : Stage d S (x.step S e) := by
    have hview := view_quiet (S := S) (x := x) hquiet
    obtain ⟨hcounted, hunmet | hmet⟩ := h.stage
    · exact ⟨hview ▸ hcounted, .inl (hunmet.of_view hview (hunmet.knows.quiet hquiet))⟩
    · exact ⟨hview ▸ hcounted, .inr (hview ▸ hmet)⟩
  cases e with
  | write writer plaintext => exact h.stage.write h.placed hassumed
  | read reader =>
    cases reader with
    | initiator => exact h.stage.initiatorReads hassumed
    | responder => exact h.stage.responderReads (fun hd => h.healthy hd .responder) hassumed
  | lose writer =>
    obtain rfl : d = .lossy := hallowed
    exact h.stage.loses writer
  | publish publisher => exact hquiet trivial
  | republish publisher => exact hquiet trivial
  | learn learner position => exact hquiet trivial
  | wait side seconds => exact hquiet trivial

/-! ## Runs -/

/-- Two devices that have not written to each other. The initiator knows the responder's device, and
a bundle that the responder holds the keys of. -/
structure Acquainted (initiator responder : Correspondent σ) : Prop where
  apart : initiator.device.id ≠ responder.device.id
  known : initiator.state.records.devices responder.name = [responder.device.id]
  knownToo : responder.state.records.devices initiator.name = [] ∨
    responder.state.records.devices initiator.name = [initiator.device.id]
  bundle : ∃ own stored, responder.state.records.current = some own ∧
    initiator.state.records.bundle responder.device.id = some stored ∧ own.Offers stored
  noSession : initiator.state.records.session responder.device.id = none
  noSessionToo : responder.state.records.session initiator.device.id = none

/-- What has happened before the last of several events. -/
theorem run_concat (S : Suite) (x : Correspondence σ) (events : List Event) (e : Event) :
    x.run S (events ++ [e]) = (x.run S events).step S e := by
  rw [run, run, List.foldl_append]
  rfl

section Start

variable {initiator responder : Correspondent σ}

theorem placed_start (h : Acquainted initiator responder) : (start initiator responder).Placed := by
  refine ⟨h.apart, fun side => ?_⟩
  cases side with
  | initiator => exact .inr h.known
  | responder => exact h.knownToo

omit [Store σ] [LawfulStore σ] in
theorem mem_pairs_sublist (current : Option Bundle) {own : Bundle} (h : current = some own) :
    own.pairs.Sublist (current.toList.flatMap (·.pairs)) := by
  rw [h, Option.toList_some, List.flatMap_singleton]

/-- The key pairs of the bundles that there are at first are counted. -/
theorem counted_start (initiator responder : Correspondent σ) :
    (start initiator responder).view.Counted := by
  intro side own hown
  cases side with
  | initiator => exact mem_pairs_sublist _ hown
  | responder => exact mem_pairs_sublist _ hown

theorem InTouch.start (h : Acquainted initiator responder)
    (hhealthy : d = .complete → initiator.state.Healthy ∧ responder.state.Healthy) :
    (start initiator responder).InTouch d S := by
  obtain ⟨own, stored, hown, hstored, hoffers⟩ := h.bundle
  refine ⟨placed_start h, fun hd side => ?_, counted_start initiator responder,
    .inl ⟨fun side => ?_, fun _ => rfl, fun _ => rfl, .of_offers hown hstored hoffers ?_⟩⟩
  · cases side with
    | initiator => exact (hhealthy hd).1
    | responder => exact (hhealthy hd).2
  · cases side with
    | initiator => exact h.noSession
    | responder => exact h.noSessionToo
  · show responder.state.records.current.toList.map (·.publish) = _
    rw [hown]
    rfl

end Start

/-- Two devices stay in touch over every run. -/
theorem inTouch_run {initiator responder : Correspondent σ} (h : Acquainted initiator responder)
    (hhealthy : d = .complete → initiator.state.Healthy ∧ responder.state.Healthy)
    (events : List Event) (hallowed : ∀ e ∈ events, e.IsAllowed d)
    (hassumed : ((start initiator responder).run S events).Assumed d S) :
    ((start initiator responder).run S events).InTouch d S := by
  induction events using List.reverseRecOn with
  | nil => exact .start h hhealthy
  | append_singleton events e ih =>
    rw [run_concat] at hassumed ⊢
    have hbefore := hassumed.of_extends (extends_step S _ e)
    exact (ih (fun e' he' => hallowed e' (List.mem_append_left _ he')) hbefore).step
      (hallowed e (List.mem_append_right _ List.mem_cons_self)) hassumed

end EndToEnd.Correspondence
