import EndToEnd.Device.Publication
import EndToEnd.Proofs.Device.Running
import EndToEnd.Proofs.Refusal

/-!
# What publishing and learning do

Starting a device makes a bundle if there is none, and changes nothing else that is stored. Handing
out the bundle changes nothing that is stored. Learning a bundle stores it for its device, as it was
published, and changes nothing else; learning devices leaves bundles and sessions alone.
-/

namespace EndToEnd.Device

variable {σ : Type} [Store σ] {d : Device} {s s' : State σ}

/-- Whatever holds of every call, and of noting that the bundle is to be published, holds of starting
a device. -/
theorem start_within {R : State σ → State σ → Prop} (hR : Chains R)
    (hask : ∀ {α : Type} (request : Store.Request α), Within R (ask request))
    (hnote : ∀ unpublished, Within R (setUnpublished unpublished)) (S : Suite) (config : Config) :
    Within R (start S config : Action σ Device) := by
  refine Within.bind hR (hask _) fun current => ?_
  have hrest (id : DeviceId) : Within R (do setUnpublished true; return ⟨id, config⟩ :
      Action σ Device) := .bind hR (hnote true) fun _ => .pure hR _
  cases current with
  | some bundle => exact .bind hR (.pure hR _) hrest
  | none =>
    exact .bind hR (.draw hR _) fun bundle => .bind hR (hask _) fun _ => .bind hR (.pure hR _) hrest

/-- Whatever holds of every call, and of noting what is published, holds of handing out the bundle. -/
theorem takeUnpublished_within {R : State σ → State σ → Prop} (hR : Chains R)
    (hcurrent : Within R (ask (.current : Store.Request (Option Bundle))))
    (hnote : ∀ unpublished, Within R (setUnpublished unpublished)) :
    Within R (takeUnpublished : Action σ (Option Wire.PublishedBundle)) := by
  have hget : Within R (get : Action σ (State σ)) := fun s => hR.env s s.env
  refine Within.bind hR hget fun s => ?_
  split
  next => exact .bind hR (.bind hR (.currentBundle hR hcurrent) fun _ => .pure hR _) fun _ =>
      .bind hR (hnote false) fun _ => .pure hR _
  next => exact .pure hR _

/-- Whatever holds of noting a bundle holds of learning one. -/
theorem learnBundle_within {R : State σ → State σ → Prop} (hR : Chains R)
    (hask : ∀ device bundle, Within R (ask (.saveBundle device bundle))) (d : Device)
    (p : Wire.PublishedBundle) : Within R (d.learnBundle p) := by
  unfold learnBundle
  split
  next => exact .pure hR _
  next => exact .bind hR (.attempt hR _ _) fun _ => .bind hR (hask _ _) fun _ => .pure hR _

/-- Whatever holds of noting a device holds of learning devices. -/
theorem learnDevices_within {R : State σ → State σ → Prop} (hR : Chains R)
    (hask : ∀ peer device, Within R (ask (.saveDevice peer device))) (d : Device)
    (list : Wire.DeviceList) : Within R (d.learnDevices list) := by
  refine .forM hR (fun device => ?_) list.devices
  unfold learnDevice
  split
  next => exact .pure hR _
  next => exact hask _ _

variable [LawfulStore σ]

/-- A device that has been started has a bundle, goes by its identifier, and is to publish it. -/
theorem start_ok {S : Suite} {config : Config} (h : start S config s = (.ok d, s')) :
    s'.unpublished = true ∧ ∃ b, s'.records.current = some b ∧ b.device = d.id := by
  obtain ⟨current, s₁, hask, h⟩ := bind_run_ok h
  obtain ⟨hanswer, hkeeps⟩ := query_ok isQuery_current hask
  cases current with
  | some b =>
    obtain ⟨hd, rfl⟩ := Prod.mk.inj h
    refine ⟨rfl, b, (congrArg Records.current hkeeps.1).trans hanswer.symm, ?_⟩
    rw [← Except.ok.inj hd]
  | none =>
    simp only [pure_bind] at h
    obtain ⟨b, s₂, hdraw, h⟩ := bind_run_ok h
    obtain ⟨_, s₃, hsave, h⟩ := bind_run_ok h
    obtain ⟨-, hrecords, -⟩ := ask_ok hsave
    obtain ⟨hd, rfl⟩ := Prod.mk.inj h
    exact ⟨rfl, b, congrArg Records.current hrecords, by rw [← Except.ok.inj hd]⟩

/-- A device that starts keeps what is stored, or gets a fresh bundle where there was none. -/
theorem start_cases (S : Suite) (config : Config) (s : State σ) :
    (start S config s).2.records = s.records ∨
      s.records.current = none ∧
        ∃ env, (start S config s).2.records =
          s.records.withCurrent (Bundle.generate S config.oneTimeKeys env).1 := by
  unfold start
  cases hask : (ask .current : Action σ (Option Bundle)) s with
  | mk result s₁ =>
    cases result with
    | error cause =>
      rw [run_bind_error hask]
      exact .inl (ask_error hask).1
    | ok current =>
      obtain ⟨hcurrent, hkeeps⟩ := query_ok isQuery_current hask
      rw [run_bind_ok hask]
      cases current with
      | some bundle => exact .inl hkeeps.1
      | none =>
        simp only [pure_bind]
        rw [run_bind_ok (run_draw _ _)]
        generalize hbundle : (Bundle.generate S config.oneTimeKeys s₁.env).1 = bundle
        generalize hs₂ : ({ s₁ with env := _ } : State σ) = s₂
        have hsame : s₂.records = s.records := (hs₂ ▸ rfl : s₂.records = s₁.records).trans hkeeps.1
        rcases ask_cases (.saveCurrent bundle) s₂ with
          ⟨s₃, hok, hrecords, -⟩ | ⟨-, cause, s₃, herror, hrecords, -⟩
        · rw [run_bind_ok hok]
          exact .inr ⟨hcurrent.symm, s₁.env, by rw [hbundle, ← hsame]; exact hrecords⟩
        · rw [run_bind_error herror]
          exact .inl (hrecords.trans hsame)

/-- What is stored is as it was. -/
def SameRecords (s s' : State σ) : Prop := s'.records = s.records

theorem sameRecords_chains : Chains (SameRecords (σ := σ)) :=
  ⟨fun h h' => h'.trans h, fun _ _ => rfl⟩

theorem query_sameRecords {α : Type} {request : Store.Request α} (hquery : IsQuery request) :
    Within SameRecords (ask request : Action σ α) := fun s => (query_keeps hquery s).1

/-- Making the document of our bundle writes nothing. -/
theorem publishedBundle_sameRecords :
    Within SameRecords (publishedBundle : Action σ Wire.PublishedBundle) :=
  Within.bind sameRecords_chains
    (.currentBundle sameRecords_chains (query_sameRecords isQuery_current)) fun _ =>
    .pure sameRecords_chains _

/-- The document that is made is that of our bundle. -/
theorem publishedBundle_ok {p : Wire.PublishedBundle} (h : publishedBundle s = (.ok p, s')) :
    ∃ bundle, s.records.current = some bundle ∧ p = bundle.publish := by
  obtain ⟨bundle, s₁, hbundle, h⟩ := bind_run_ok h
  exact ⟨bundle, (currentBundle_ok hbundle).1, (Except.ok.inj (Prod.mk.inj h).1).symm⟩

/-- The bundle is handed out if it is to be published, and then it is not any more, unless the store
refuses to read it. -/
theorem takeUnpublished_cases {own : Bundle} (hcurrent : s.records.current = some own) :
    (s.unpublished = false ∧ takeUnpublished s = (.ok none, s)) ∨
    s.unpublished = true ∧
      ((∃ s', takeUnpublished s = (.ok (some own.publish), s') ∧ s'.records = s.records ∧
        s'.unpublished = false) ∨ Refused takeUnpublished s) := by
  have hget : (get : Action σ (State σ)) s = (.ok s, s) := rfl
  unfold Refused takeUnpublished
  rw [run_bind_ok hget]
  cases hpending : s.unpublished with
  | false => exact .inl ⟨rfl, rfl⟩
  | true =>
    rw [if_pos rfl]
    refine .inr ⟨rfl, ?_⟩
    rcases Reads.currentBundle (P := (· = own)) hcurrent rfl with
      ⟨_, s', hread, rfl, hkeeps, -⟩ | ⟨hno, cause, s', hread, hkeeps⟩
    · refine .inl ⟨{ s' with unpublished := false }, ?_, hkeeps.1, rfl⟩
      exact run_bind_ok (run_bind_ok hread)
    · exact .inr ⟨hno, cause, s', run_bind_error (run_bind_error hread), hkeeps⟩

/-- The document that is handed out is that of our bundle. -/
theorem takeUnpublished_ok {p : Wire.PublishedBundle}
    (h : takeUnpublished s = (.ok (some p), s')) :
    ∃ bundle, s.records.current = some bundle ∧ p = bundle.publish := by
  obtain ⟨s₁, s₂, hget, h⟩ := bind_run_ok h
  obtain ⟨-, rfl⟩ := Prod.mk.inj hget
  split at h
  next =>
    obtain ⟨q, s₃, hq, h⟩ := bind_run_ok h
    obtain ⟨_, s₄, -, h⟩ := bind_run_ok h
    obtain rfl := Option.some.inj (Except.ok.inj (Prod.mk.inj h).1)
    exact publishedBundle_ok hq
  next => exact nomatch Except.ok.inj (Prod.mk.inj h).1

/-- A learned bundle is stored for its device, or nothing is. -/
theorem learnBundle_cases (d : Device) (p : Wire.PublishedBundle) (s : State σ) :
    (d.learnBundle p s).2.records = s.records ∨
      ∃ bundle, Bundle.ofPublished p = .ok bundle ∧
        (d.learnBundle p s).2.records =
          { s.records with bundle := Function.update s.records.bundle p.device (some bundle) } := by
  unfold learnBundle
  split
  next => exact .inl rfl
  next =>
    cases hread : Bundle.ofPublished p with
    | error cause =>
      have herror : (attempt .invalidBundle (.error cause : Except CryptoError Bundle) :
          Action σ Bundle) s = (.error (.invalidBundle cause), s) := rfl
      rw [run_bind_error herror]
      exact .inl rfl
    | ok bundle =>
      have hok : (attempt .invalidBundle (.ok bundle : Except CryptoError Bundle) :
          Action σ Bundle) s = (.ok bundle, s) := rfl
      rw [run_bind_ok hok]
      have hdevice : bundle.device = p.device := by
        obtain ⟨identity, -, h⟩ := bind_eq_ok.mp hread
        obtain ⟨keys, -, h⟩ := bind_eq_ok.mp h
        obtain rfl := Except.ok.inj h
        rfl
      rcases ask_cases (.saveBundle bundle.device bundle) s with
        ⟨s₁, hask, hrecords, -⟩ | ⟨-, cause, s₁, hask, hrecords, -⟩
      · rw [run_bind_ok hask]
        exact .inr ⟨bundle, rfl, by rw [← hdevice]; exact hrecords⟩
      · rw [run_bind_error hask]
        exact .inl hrecords

/-- Our bundle and our sessions are as they were. -/
def KeepsOwn (s s' : State σ) : Prop :=
  s'.records.current = s.records.current ∧ s'.records.session = s.records.session

theorem keepsOwn_chains : Chains (KeepsOwn (σ := σ)) :=
  ⟨fun h h' => ⟨h'.1.trans h.1, h'.2.trans h.2⟩, fun _ _ => ⟨rfl, rfl⟩⟩

theorem KeepsOwn.of_records (h : s'.records = s.records) : KeepsOwn s s' := by
  rw [KeepsOwn, h]
  exact ⟨rfl, rfl⟩

/-- Learning a bundle is nothing to our own, nor to a session. -/
theorem learnBundle_keepsOwn (d : Device) (p : Wire.PublishedBundle) :
    Within (KeepsOwn (σ := σ)) (d.learnBundle p) := by
  intro s
  rcases learnBundle_cases d p s with h | ⟨bundle, -, h⟩
  · exact .of_records h
  · rw [KeepsOwn, h]
    exact ⟨rfl, rfl⟩

/-- Learning a list of devices is nothing to our bundle, nor to a session. -/
theorem learnDevices_keepsOwn (d : Device) (list : Wire.DeviceList) :
    Within (KeepsOwn (σ := σ)) (d.learnDevices list) := by
  refine learnDevices_within keepsOwn_chains (fun peer device => ?_) d list
  exact ask_within (P := fun r r' => r'.current = r.current ∧ r'.session = r.session)
    (fun _ => ⟨rfl, rfl⟩) fun _ => ⟨rfl, rfl⟩

/-- Learning devices changes no bundle. -/
theorem learnDevices_bundle (d : Device) (list : Wire.DeviceList) (s : State σ) :
    (d.learnDevices list s).2.records.bundle = s.records.bundle :=
  learnDevices_within (R := fun s s' => s'.records.bundle = s.records.bundle)
    ⟨fun h h' => h'.trans h, fun _ _ => rfl⟩
    (fun _ _ => ask_within (P := fun r r' => r'.bundle = r.bundle) (fun _ => rfl) fun _ => rfl) d
    list s

theorem takeUnpublished_sameRecords :
    Within SameRecords (takeUnpublished : Action σ (Option Wire.PublishedBundle)) :=
  takeUnpublished_within sameRecords_chains (query_sameRecords isQuery_current) fun _ _ => rfl

end EndToEnd.Device
