import EndToEnd.Proofs.Correspondence.View

/-!
# What lasts

Whatever happens between two devices, they stay where they are, they know each other as before, they
keep having the sessions that they have, and a healthy store stays healthy.
-/

namespace EndToEnd.Correspondence

variable {σ : Type} [Store σ] [LawfulStore σ] {S : Suite} {x : Correspondence σ} {side : Side}
  {state : Device.State σ} {p : Post}

/-! ## Where the devices are -/

/-- Reading has no part in which bundles of others are known. -/
theorem decrypt_bundle (d : Device) (e : Wire.Envelope) (s : Device.State σ) :
    (d.decrypt S e s).2.records.bundle = s.records.bundle := by
  have hkeeps {α : Type} {request : Store.Request α}
      (hanswer : ∀ r : Records, (r.answer request).2.bundle = r.bundle) :
      Device.Within (fun s s' : Device.State σ => s'.records.bundle = s.records.bundle)
        (Device.ask request) :=
    Device.ask_within (P := fun r r' => r'.bundle = r.bundle) (fun _ => rfl) hanswer
  have hchains : Device.Chains
      fun s s' : Device.State σ => s'.records.bundle = s.records.bundle :=
    ⟨fun h h' => h'.trans h, fun _ _ => rfl⟩
  exact Device.decrypt_within_of_replaceBundle hchains
    (fun hquery => hkeeps fun r => congrArg Records.bundle (hquery r))
    (fun _ _ => hkeeps fun _ => rfl)
    (fun _ => .bind hchains (hkeeps fun _ => rfl) fun _ _ => rfl) S d e s

/-- Reading has no part in what is published and known of bundles. -/
theorem read_frame (S : Suite) (x : Correspondence σ) (reader : Side) :
    (x.step S (.read reader)).published = x.published ∧
      ∀ side, ((x.step S (.read reader)).records side).bundle = (x.records side).bundle := by
  rw [step]
  split
  next => exact ⟨rfl, fun _ => rfl⟩
  next p _ _ =>
    have hbundle := decrypt_bundle (S := S) (x.party reader).device p.envelope
      (x.party reader).state
    have hattempted (wasRead : Bool) (state : Device.State σ)
        (hstate : (x.opened S reader p).2 = state) (side : Side) :
        ((x.attempted reader p wasRead state).records side).bundle = (x.records side).bundle := by
      show ((x.withState reader state).records side).bundle = _
      rw [records_withState]
      split
      next heq =>
        subst heq
        rw [← hstate]
        exact hbundle
      next => rfl
    split
    next heq => exact ⟨rfl, hattempted true _ (by rw [heq])⟩
    next heq => exact ⟨rfl, hattempted false _ (by rw [heq])⟩

/-! ## What one step changes -/

/-- A step changes the state of one side only, and by one action of its device. So a relation that
chains, and holds of every call which such an action makes, holds of that change. -/
theorem party_step {R : Device.State σ → Device.State σ → Prop} (hR : Device.Chains R)
    (hquery : ∀ {α : Type} {request : Store.Request α}, Device.IsQuery request →
      Device.Within R (Device.ask request))
    (hsession : ∀ peer session, Device.Within R (Device.ask (.saveSession peer session)))
    (hcurrent : ∀ bundle, Device.Within R (Device.replaceBundle bundle))
    (hbundle : ∀ peer bundle, Device.Within R (Device.ask (.saveBundle peer bundle)))
    (hnote : ∀ unpublished, Device.Within R (Device.setUnpublished unpublished)) (S : Suite)
    (x : Correspondence σ) (e : Event) :
    ∃ actor state, (x.step S e).party = (x.withState actor state).party ∧
      R (x.party actor).state state := by
  have hnothing (actor : Side) : ∃ actor state, x.party = (x.withState actor state).party ∧
      R (x.party actor).state state :=
    ⟨actor, (x.party actor).state, (Function.update_eq_self actor x.party).symm,
      hR.env _ (x.party actor).state.env⟩
  have hpublish (publisher : Side) {publication : Device.Action σ (Option Wire.PublishedBundle)}
      (hwithin : Device.Within R publication) :
      ∃ actor state, (x.publishBy publisher publication).party = (x.withState actor state).party ∧
        R (x.party actor).state state := by
    refine ⟨publisher, _, ?_, hwithin (x.party publisher).state⟩
    unfold publishBy
    split
    next heq => rw [heq]
    next heq => rw [heq]
  cases e with
  | write writer plaintext =>
    refine ⟨writer, (x.written S writer plaintext).2, ?_,
      Device.encrypt_within_of_saveSession hR hquery hsession S _ _ plaintext _⟩
    rw [step, write]
    split
    next heq => rw [heq]
    next heq =>
      rw [heq]
      split <;> rfl
  | read reader =>
    rw [step]
    split
    next => exact hnothing reader
    next p _ _ =>
      refine ⟨reader, (x.opened S reader p).2, ?_,
        Device.decrypt_within_of_replaceBundle hR hquery hsession hcurrent S _ p.envelope _⟩
      split
      next heq => rw [heq]; rfl
      next heq => rw [heq]; rfl
  -- what is lost was on its way, and no party changes
  | lose writer => exact hnothing writer
  | publish publisher =>
    refine hpublish publisher ?_
    rw [map_eq_pure_bind]
    exact Device.Within.bind hR (.bind hR (.currentBundle hR (hquery Device.isQuery_current))
      fun _ => .pure hR _) fun _ => .pure hR _
  | republish publisher =>
    exact hpublish publisher
      (Device.takeUnpublished_within hR (hquery Device.isQuery_current) hnote)
  | learn learner position =>
    rw [step]
    split
    next => exact hnothing learner
    next published _ =>
      exact ⟨learner, _, rfl, Device.learnBundle_within hR hbundle _ published _⟩
  | wait side seconds => exact ⟨side, _, rfl, hR.env _ _⟩

/-- Whatever happens, a side saves nothing but sessions and bundles. So a relation that chains, and
holds of such saves, holds of what the side has stored. -/
theorem records_step {P : Records → Records → Prop} (hrefl : ∀ r, P r r)
    (htrans : ∀ {r r' r''}, P r r' → P r' r'' → P r r'')
    (hsession : ∀ r peer session, P r (r.answer (.saveSession peer session)).2)
    (hcurrent : ∀ r bundle, P r (r.answer (.saveCurrent bundle)).2)
    (hbundle : ∀ r peer bundle, P r (r.answer (.saveBundle peer bundle)).2) (S : Suite)
    (x : Correspondence σ) (e : Event) (side : Side) :
    P (x.records side) ((x.step S e).records side) := by
  have hchains : Device.Chains fun s s' : Device.State σ => P s.records s'.records :=
    ⟨htrans, fun _ _ => hrefl _⟩
  have hask {α : Type} {request : Store.Request α}
      (hanswer : ∀ r : Records, P r (r.answer request).2) :
      Device.Within (fun s s' : Device.State σ => P s.records s'.records) (Device.ask request) :=
    Device.ask_within hrefl hanswer
  obtain ⟨actor, state, hparty, hrecords⟩ := party_step hchains
    (fun hquery => hask fun r => (hquery r).symm ▸ hrefl r)
    (fun _ _ => hask fun r => hsession r _ _)
    (fun _ => .bind hchains (hask fun r => hcurrent r _) fun _ _ => hrefl _)
    (fun _ _ => hask fun r => hbundle r _ _) (fun _ _ => hrefl _) S x e
  have hside : (x.step S e).records side = (x.withState actor state).records side := by
    simp only [records, hparty]
  rw [hside, records_withState]
  split
  next heq => subst heq; exact hrecords
  next => exact hrefl _

/-- The correspondence has the same devices and names, and the same devices are known. -/
structure StaysPlaced (x x' : Correspondence σ) : Prop where
  device : ∀ side, (x'.party side).device = (x.party side).device
  name : ∀ side, (x'.party side).name = (x.party side).name
  devices : ∀ side, (x'.records side).devices = (x.records side).devices

theorem StaysPlaced.placed {x' : Correspondence σ} (h : x.StaysPlaced x') (hx : x.Placed) :
    x'.Placed := by
  have hid (side : Side) : x'.id side = x.id side := congrArg Device.id (h.device side)
  refine ⟨?_, fun side => ?_⟩
  · rw [hid, hid]
    exact hx.apart
  · rw [h.devices, h.name, hid]
    exact hx.devices side

/-- Whatever happens, the devices stay where they are and know each other as before. -/
theorem staysPlaced_step (S : Suite) (x : Correspondence σ) (e : Event) :
    x.StaysPlaced (x.step S e) := by
  obtain ⟨actor, state, hparty, -⟩ := party_step (R := fun _ _ => True)
    ⟨fun _ _ => trivial, fun _ _ => trivial⟩ (fun _ _ => trivial) (fun _ _ _ => trivial)
    (fun _ _ => trivial) (fun _ _ _ => trivial) (fun _ _ => trivial) S x e
  refine ⟨fun side => ?_, fun side => ?_, records_step (P := fun r r' => r'.devices = r.devices)
    (fun _ => rfl) (fun h h' => h'.trans h) (fun _ _ _ => rfl) (fun _ _ => rfl)
    (fun _ _ _ => rfl) S x e⟩
  · rw [hparty]
    simp only [withState, Function.update_apply]
    split
    next heq => rw [heq]
    next => rfl
  · rw [hparty, name_withState]

/-- Whatever happens, a side that has a session with the other keeps having one. -/
theorem hasSession_step (S : Suite) (e : Event) (hsome : x.session side ≠ none) :
    (x.step S e).session side ≠ none := by
  have hid : (x.step S e).id side.peer = x.id side.peer :=
    congrArg Device.id ((staysPlaced_step S x e).device side.peer)
  have hpeer := records_step
    (P := fun r r' => ∀ peer, r.session peer ≠ none → r'.session peer ≠ none)
    (fun _ _ h => h) (fun h h' peer hr => h' peer (h peer hr))
    (fun r sender session peer hr => by
      show Function.update r.session sender (some session) peer ≠ none
      rw [Function.update_apply]
      split
      next => exact nofun
      next => exact hr)
    (fun _ _ _ h => h) (fun _ _ _ _ h => h) S x e side
  rw [session, hid]
  exact hpeer _ hsome

/-! ## Health -/

/-- Whatever happens, a healthy store stays healthy. -/
theorem healthy_step (S : Suite) (e : Event) (hx : x.Healthy side) :
    (x.step S e).Healthy side := by
  obtain ⟨actor, state, hparty, hstays⟩ := party_step (Device.staysHealthy_chains (σ := σ))
    (fun _ => Device.ask_staysHealthy _) (fun _ _ => Device.ask_staysHealthy _)
    (fun _ => .bind Device.staysHealthy_chains (Device.ask_staysHealthy _) fun _ _ h => h)
    (fun _ _ => Device.ask_staysHealthy _) (fun _ _ h => h) S x e
  rw [Healthy, hparty]
  simp only [withState, Function.update_apply]
  split
  next heq => subst heq; exact hstays hx
  next => exact hx

end EndToEnd.Correspondence
