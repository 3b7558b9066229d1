import EndToEnd.Proofs.Correspondence.Posts

/-!
# What steps do to sessions, bundles and envelopes

The laws of a correspondence speak of the sessions and bundles that the two sides have stored, of
the envelopes on their way, and of what is counted beside them. That is the view of a correspondence;
every step is said here by what it does to it.

Main statements:

- `view_quiet`: waiting, publishing and learning do nothing;
- `view_posted`: writing changes one session, and puts one envelope on its way;
- `read_stored`, `read_fresh`: reading does what opening the next envelope does.
-/

namespace EndToEnd.Correspondence

/-- What the laws of a correspondence speak of. -/
structure View where
  id : Side → DeviceId
  session : Side → Option Session
  current : Side → Option Bundle
  sent : Side → List Post
  generated : Side → List KeyPair
  read : Side → Nat

variable {σ : Type} [Store σ] [LawfulStore σ] {S : Suite} {x : Correspondence σ} {side : Side}
  {state : Device.State σ} {p : Post} {rest : List Post} {session : Session}

/-- The view of a correspondence. -/
def view (x : Correspondence σ) : View where
  id := x.id
  session := x.session
  current side := (x.records side).current
  sent := x.sent
  generated := x.generated
  read := x.read

/-- What another state on one side makes of sessions and bundles. -/
theorem view_withState (x : Correspondence σ) (side : Side) (state : Device.State σ) :
    (x.withState side state).id = x.id ∧
      (x.withState side state).session =
        Function.update x.session side (state.records.session (x.id side.peer)) ∧
      (fun other => ((x.withState side state).records other).current) =
        Function.update (fun other => (x.records other).current) side state.records.current := by
  refine ⟨funext fun _ => id_withState, funext fun other => ?_, funext fun other => ?_⟩
  · rw [session_withState, Function.update_apply]
    split
    next heq => subst heq; rfl
    next => rfl
  · rw [records_withState, Function.update_apply]
    split <;> rfl

/-! ## Nothing -/

/-- A state with the same session and bundle makes no difference. -/
theorem view_withState_eq
    (hsession : state.records.session (x.id side.peer) = x.session side)
    (hcurrent : state.records.current = (x.records side).current) :
    (x.withState side state).view = x.view := by
  obtain ⟨hid, hsessions, hcurrents⟩ := view_withState x side state
  rw [hsession, Function.update_eq_self] at hsessions
  rw [hcurrent, Function.update_eq_self side (fun other => (x.records other).current)] at hcurrents
  simp only [view, hid, hsessions, hcurrents]
  rfl

/-- A state that keeps the records makes no difference to the view. -/
theorem view_of_keeps (h : Device.Keeps (x.party side).state state) :
    (x.withState side state).view = x.view :=
  view_withState_eq (congrArg (Records.session · _) h.1) (congrArg Records.current h.1)

/-- Publishing writes no record. -/
theorem publication_sameRecords :
    Device.Within Device.SameRecords (some <$> Device.publishedBundle : Device.Action σ _) := by
  rw [map_eq_pure_bind]
  exact Device.Within.bind Device.sameRecords_chains Device.publishedBundle_sameRecords fun _ =>
    .pure Device.sameRecords_chains _

/-- Publishing keeps what is stored. -/
theorem publishBy_cases (x : Correspondence σ) (publisher : Side)
    {publication : Device.Action σ (Option Wire.PublishedBundle)}
    (hwithin : Device.Within Device.SameRecords publication) :
    ∃ state, state.records = x.records publisher ∧
      (x.publishBy publisher publication = x.withState publisher state ∨
        ∃ published, publication (x.party publisher).state = (.ok (some published), state) ∧
          x.publishBy publisher publication =
            { x.withState publisher state with
              published := Function.update x.published publisher
                (x.published publisher ++ [published]) }) := by
  have hsame := hwithin (x.party publisher).state
  unfold publishBy
  cases hrun : publication (x.party publisher).state with
  | mk result state =>
    rw [hrun] at hsame
    refine ⟨state, hsame, ?_⟩
    split
    next published state' heq =>
      obtain ⟨rfl, rfl⟩ := Prod.mk.inj heq
      exact .inr ⟨published, rfl, rfl⟩
    next state' _ heq =>
      obtain ⟨-, rfl⟩ := Prod.mk.inj heq
      exact .inl rfl

/-- An event that no session, bundle or envelope has a part in. -/
def Event.IsQuiet : Event → Prop
  | .publish _ | .republish _ | .learn _ _ | .wait _ _ => True
  | _ => False

theorem Event.IsQuiet.ne_write {e : Event} (h : e.IsQuiet) (writer : Side) (plaintext : Bytes) :
    e ≠ .write writer plaintext := by
  rintro rfl
  exact h

/-- Waiting, publishing and learning do nothing to sessions, bundles and envelopes. -/
theorem view_quiet {e : Event} (h : e.IsQuiet) : (x.step S e).view = x.view := by
  have hpublish (publisher : Side) {publication : Device.Action σ (Option Wire.PublishedBundle)}
      (hwithin : Device.Within Device.SameRecords publication) :
      (x.publishBy publisher publication).view = x.view := by
    obtain ⟨state, hsame, heq | ⟨published, -, heq⟩⟩ := publishBy_cases x publisher hwithin
    · rw [heq]
      exact view_withState_eq (congrArg (Records.session · _) hsame) (congrArg _ hsame)
    · rw [heq]
      have hview : (x.withState publisher state).view = x.view :=
        view_withState_eq (congrArg (Records.session · _) hsame) (congrArg _ hsame)
      exact hview
  cases e with
  | write => exact h.elim
  | read => exact h.elim
  | lose => exact h.elim
  | publish publisher => exact hpublish publisher publication_sameRecords
  | republish publisher => exact hpublish publisher Device.takeUnpublished_sameRecords
  | learn learner position =>
    rw [step]
    split
    next => rfl
    next published _ =>
      rcases Device.learnBundle_cases (x.party learner).device published
        (x.party learner).state with hsame | ⟨bundle, -, hsame⟩
      · exact view_withState_eq (congrArg (Records.session · _) hsame) (congrArg _ hsame)
      · exact view_withState_eq (by rw [hsame]; rfl) (by rw [hsame]; rfl)
  | wait side seconds => exact view_withState_eq rfl rfl

/-! ## Writing -/

/-- Writing changes one session, and puts one envelope on its way. -/
theorem view_posted {plaintext : Bytes} {entry : Wire.Entry} {env : Environment} {after : Session}
    (h : Wrote S x side plaintext p state entry session env after) :
    (x.posted side p state).view =
      { x.view with
        session := Function.update x.session side (some after)
        sent := Function.update x.sent side (x.sent side ++ [p])
        generated := Function.update x.generated side
          (x.generated side ++ drawnKeys (x.session side) (some after)) } := by
  obtain ⟨hid, hsession, hcurrent⟩ := view_withState x side state
  have hafter : state.records.session (x.id side.peer) = some after := by
    rw [h.records]
    exact Function.update_self _ _ _
  have hsame : state.records.current = (x.records side).current := by rw [h.records]; rfl
  rw [hafter] at hsession
  rw [hsame, Function.update_eq_self side (fun other => (x.records other).current)] at hcurrent
  show View.mk (x.withState side state).id (x.withState side state).session
    (fun other => ((x.withState side state).records other).current) _
    (Function.update _ _ (_ ++ drawnKeys _ ((x.withState side state).session side))) _ = _
  rw [hid, hsession, hcurrent, Function.update_self]
  rfl

/-! ## Reading -/

variable {entry : Wire.Entry} {payload : Bytes}

/-- The view after an attempt: the records of the new state, and the envelope off its way if it was
read. -/
theorem view_attempted (x : Correspondence σ) (side : Side) (p : Post) (wasRead : Bool)
    (state : Device.State σ) :
    (x.attempted side p wasRead state).view =
      { id := x.id
        session := Function.update x.session side (state.records.session (x.id side.peer))
        current := Function.update (fun other => (x.records other).current) side
          state.records.current
        sent := Function.update
          (Function.update x.sent side.peer
            (if wasRead then (x.sent side.peer).tail else x.sent side.peer)) side
          (outdated (replaces (x.session side) (state.records.session (x.id side.peer)))
            (x.sent side))
        generated := Function.update x.generated side
          (x.generated side ++ addedKeys (x.records side).current state.records.current)
        read := Function.update x.read side (x.read side + wasRead.toNat) } := by
  obtain ⟨hid, hsession, hcurrent⟩ := view_withState x side state
  have hself : ((x.withState side state).records side).current = state.records.current := by
    rw [records_withState, if_pos rfl]
  show View.mk (x.withState side state).id (x.withState side state).session
    (fun other => ((x.withState side state).records other).current)
    (Function.update _ _ (outdated (replaces _ ((x.withState side state).session side)) _))
    (Function.update _ _ (_ ++ addedKeys _ ((x.withState side state).records side).current)) _ = _
  rw [hid, hsession, hcurrent, hself, Function.update_self]
  rfl

@[simp] theorem replaces_self (s : Option Session) : replaces s s = false := by
  cases s with
  | none => rfl
  | some s => cases h : s.ratchet <;> simp [replaces, h]

@[simp] theorem addedKeys_self (b : Option Bundle) : addedKeys b b = [] := by
  cases b with
  | none => rfl
  | some b => exact if_pos rfl

/-- An attempt that saves nothing does nothing. -/
theorem view_attempted_of_keeps (h : Device.Keeps (x.party side).state state) :
    (x.attempted side p false state).view = x.view := by
  have hsession : state.records.session (x.id side.peer) = x.session side :=
    congrArg (Records.session · _) h.1
  have hcurrent : state.records.current = (x.records side).current := congrArg Records.current h.1
  rw [view_attempted, hsession, hcurrent, replaces_self, addedKeys_self, List.append_nil]
  simp only [outdated, Bool.false_eq_true, if_false, Bool.toNat_false, Nat.add_zero,
    Function.update_eq_self]
  rfl

/-- The envelopes of the reader are as they were if none is outdated. -/
theorem update_peer_update {α : Type} (f : Side → α) (side : Side) (value : α) :
    Function.update (Function.update f side.peer value) side (f side) =
      Function.update f side.peer value := by
  have hne := (Side.peer_ne side).symm
  rw [Function.update_eq_self_iff, Function.update_of_ne hne]

/-- Reading with the stored session does nothing, or takes the next envelope, and what opening it
makes of the session is saved. -/
theorem read_stored (side : Side) (hsent : x.sent side.peer = p :: rest)
    (hsender : p.envelope.sender = x.id side.peer)
    (hentry : p.envelope.entryFor (x.id side) = some entry)
    (hstored : x.session side = some session)
    (hopens : Device.OpensWith S (x.party side).device (x.records side) p.envelope.sender entry
      ⟨session, payload, none⟩) :
    (x.step S (.read side)).view = x.view ∨
    ∃ now bodyKey after,
      session.openMessage S (x.party side).device.config now payload entry.isHandshake =
        .ok (bodyKey, after) ∧
      ((x.step S (.read side)).superseded = false → p.stale = false) ∧
      (x.step S (.read side)).view =
        { x.view with
          session := Function.update x.session side (some after)
          sent := Function.update x.sent side.peer rest
          read := Function.update x.read side (x.read side + 1) } := by
  rw [step]
  simp only [hsent]
  rcases hopens.decrypt_stored hentry with ⟨cause, state, hdecrypt, hkeeps⟩ |
    ⟨now, bodyKey, after, plaintext, state, hopened, hdecrypt, hrecords⟩
  · left
    rw [show x.opened S side p = (.error cause, state) from hdecrypt]
    exact view_attempted_of_keeps hkeeps
  · refine .inr ⟨now, bodyKey, after, hopened, ?_⟩
    rw [show x.opened S side p = (.ok plaintext, state) from hdecrypt]
    have hsession : state.records.session (x.id side.peer) = some after := by
      rw [hrecords, hsender]
      exact Function.update_self _ _ _
    have hcurrent : state.records.current = (x.records side).current := by rw [hrecords]; rfl
    have hratchet : after.ratchet = session.ratchet := by
      rw [Session.openMessage_frame hopened]
    have hkept : replaces (some session) (some after) = false := by
      rw [replaces, hratchet]
      exact replaces_self (some session)
    refine ⟨fun hsuperseded => ?_, ?_⟩
    · simp only [attempted, Bool.true_and, Bool.or_eq_false_iff] at hsuperseded
      exact hsuperseded.1.2
    · rw [view_attempted, hsession, hcurrent, hstored, hkept, addedKeys_self, List.append_nil]
      simp only [outdated, Bool.false_eq_true, if_false, if_true, hsent, List.tail_cons,
        Bool.toNat_true, update_peer_update, Function.update_eq_self]
      rfl

/-- Reading with a session that the envelope starts does nothing, or saves the new session: it takes
the next envelope and uses up the one-time key, or, if the store fails in between, does neither.
What the reader has sent before is outdated if it sent it in a session that is replaced. -/
theorem read_fresh (side : Side) {own bundle : Bundle} {m : Wire.HandshakeMessage}
    (hsent : x.sent side.peer = p :: rest)
    (hsender : p.envelope.sender = x.id side.peer)
    (hentry : p.envelope.entryFor (x.id side) = some entry)
    (hdecoded : Wire.HandshakeMessage.decode entry.key = .ok m)
    (hcurrent : (x.records side).current = some own)
    (hopens : Device.OpensWith S (x.party side).device (x.records side) p.envelope.sender entry
      ⟨session, payload, some bundle⟩) :
    (x.step S (.read side)).view = x.view ∨
    ∃ now bodyKey after,
      session.openMessage S (x.party side).device.config now payload entry.isHandshake =
        .ok (bodyKey, after) ∧
      ((x.step S (.read side)).superseded = false →
        replaces (x.session side) (some after) = true →
        ∀ s, x.session side.peer = some s → s.isEstablished = false) ∧
      ((∃ env stored, stored = ((own.erase m.oneTimeKey).replenish S
            (x.party side).device.config.oneTimeKeys env).2.1 ∧
          (x.step S (.read side)).view =
            { x.view with
              session := Function.update x.session side (some after)
              current := Function.update x.view.current side (some stored)
              sent := Function.update (Function.update x.sent side.peer rest) side
                (outdated (replaces (x.session side) (some after)) (x.sent side))
              generated := Function.update x.generated side
                (x.generated side ++ addedKeys (some own) (some stored))
              read := Function.update x.read side (x.read side + 1) }) ∨
        ¬ x.Healthy side ∧ (x.step S (.read side)).view =
          { x.view with
            session := Function.update x.session side (some after)
            sent := Function.update x.sent side
              (outdated (replaces (x.session side) (some after)) (x.sent side)) }) := by
  rw [step]
  simp only [hsent]
  -- what counts as superseded, however far reading comes
  have hsuperseded {wasRead : Bool} {state : Device.State σ} {after : Session}
      (hsession : state.records.session (x.id side.peer) = some after)
      (hno : (x.attempted side p wasRead state).superseded = false)
      (hreplaces : replaces (x.session side) (some after) = true) (s : Session)
      (hs : x.session side.peer = some s) : s.isEstablished = false := by
    obtain ⟨-, hsessions, -⟩ := view_withState x side state
    simp only [attempted, hsessions, Function.update_self, hsession, hreplaces, hs,
      Option.any_some, Bool.true_and, Bool.or_eq_false_iff] at hno
    exact hno.2
  rcases hopens.decrypt_fresh hentry hdecoded hcurrent with ⟨cause, state, hdecrypt, hkeeps⟩ |
    ⟨now, bodyKey, after, hopened, ⟨plaintext, state, env, hdecrypt, hrecords⟩ |
      ⟨cause, state, hdecrypt, hunhealthy, hrecords⟩⟩
  · left
    rw [show x.opened S side p = (.error cause, state) from hdecrypt]
    exact view_attempted_of_keeps hkeeps
  · refine .inr ⟨now, bodyKey, after, hopened, ?_⟩
    rw [show x.opened S side p = (.ok plaintext, state) from hdecrypt]
    have hsession : state.records.session (x.id side.peer) = some after := by
      rw [hrecords, hsender]
      exact Function.update_self _ _ _
    refine ⟨hsuperseded hsession, .inl ⟨env, _, rfl, ?_⟩⟩
    rw [view_attempted, hsession, hcurrent, hrecords]
    simp only [if_true, hsent, List.tail_cons, Bool.toNat_true, Records.withCurrent]
    rfl
  · refine .inr ⟨now, bodyKey, after, hopened, ?_⟩
    rw [show x.opened S side p = (.error cause, state) from hdecrypt]
    have hsession : state.records.session (x.id side.peer) = some after := by
      rw [hrecords, hsender]
      exact Function.update_self _ _ _
    have hsame : state.records.current = (x.records side).current := by rw [hrecords]; rfl
    refine ⟨hsuperseded hsession, .inr ⟨hunhealthy, ?_⟩⟩
    rw [view_attempted, hsession, hsame, addedKeys_self, List.append_nil]
    simp only [Bool.false_eq_true, if_false, Bool.toNat_false, Nat.add_zero,
      Function.update_eq_self]
    rfl

end EndToEnd.Correspondence
