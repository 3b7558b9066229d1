import EndToEnd.Proofs.Device.Writing

/-!
# What encrypting for many does for one of them

An envelope is for any number of recipients, each with any number of devices, and a recipient or a
device can be named more than once. Seen from one device, encrypting seals for it one entry after
the other, each in the session that the one before has left, and spares it in between. An answer
tells all of these entries in the envelope; a refusal has told none of them, and those that were
sealed before it are lost.

Main statements:

- `Tells.mapM`: sealing for each of a list tells what each of them tells, in order;
- `encrypt_tells`: what encrypting seals for a device, and what of it is in the envelope.
-/

namespace EndToEnd.Device

variable {σ α β : Type} [Store σ] [LawfulStore σ] {S : Suite} {peer : DeviceId} {bodyKey : Key}
  {s s' s'' : State σ}

/-- What sealing for a device needs is as it was: the session with it, its bundle and ours. -/
def Spares (peer : DeviceId) (s s' : State σ) : Prop :=
  s'.records.session peer = s.records.session peer ∧
    s'.records.bundle = s.records.bundle ∧ s'.records.current = s.records.current

theorem Spares.of_records (h : s'.records = s.records) : Spares peer s s' := by
  rw [Spares, h]
  exact ⟨rfl, rfl, rfl⟩

theorem Spares.trans (h : Spares peer s s') (h' : Spares peer s' s'') : Spares peer s s'' :=
  ⟨h'.1.trans h.1, h'.2.1.trans h.2.1, h'.2.2.trans h.2.2⟩

/-- Entries for a device are sealed one after the other, and it is spared in between. -/
inductive SealsEach (S : Suite) (peer : DeviceId) (bodyKey : Key) :
    State σ → List Wire.Entry → State σ → Prop
  | nothing {s s' : State σ} (spares : Spares peer s s') : SealsEach S peer bodyKey s [] s'
  | one {s s' : State σ} {entry : Wire.Entry} {session after : Session} {env : Environment}
      (seals : Seals S peer bodyKey s entry s' session env after) :
      SealsEach S peer bodyKey s [entry] s'
  | append {s s' s'' : State σ} {first rest : List Wire.Entry}
      (before : SealsEach S peer bodyKey s first s')
      (behind : SealsEach S peer bodyKey s' rest s'') :
      SealsEach S peer bodyKey s (first ++ rest) s''

/-- Sealing for a device touches neither the bundles that were learned nor our own. -/
theorem SealsEach.bundles {entries : List Wire.Entry} (h : SealsEach S peer bodyKey s entries s') :
    s'.records.bundle = s.records.bundle ∧ s'.records.current = s.records.current := by
  induction h with
  | nothing spares => exact spares.2
  | one seals =>
    rw [seals.records]
    exact ⟨rfl, rfl⟩
  | append _ _ ih ih' => exact ⟨ih'.1.trans ih.1, ih'.2.trans ih.2⟩

/-- Sealing for a device receives nothing in the session with it. -/
theorem SealsEach.receives {entries : List Wire.Entry} {session : Session}
    (h : SealsEach S peer bodyKey s entries s') (hstored : s.records.session peer = some session) :
    ∃ after, s'.records.session peer = some after ∧ after.theirRatchet = session.theirRatchet ∧
      after.receiveChain = session.receiveChain ∧ after.receiveIndex = session.receiveIndex ∧
      after.skipped = session.skipped := by
  induction h generalizing session with
  | nothing spares => exact ⟨session, spares.1.trans hstored, rfl, rfl, rfl, rfl⟩
  | @one s s' entry source after env seals =>
    rcases seals.source with hsource | ⟨hnone, -⟩
    · obtain rfl := Option.some.inj (hstored.symm.trans hsource)
      refine ⟨after, ?_, ?_⟩
      · rw [seals.records]
        exact Function.update_self _ _ _
      · rw [Session.sealForPeer_frame seals.sealed]
        exact ⟨rfl, rfl, rfl, rfl⟩
    · cases hnone.symm.trans hstored
  | append _ _ ih ih' =>
    obtain ⟨mid, hmid, hratchet, hchain, hindex, hskipped⟩ := ih hstored
    obtain ⟨after, hafter, hratchet', hchain', hindex', hskipped'⟩ := ih' hmid
    exact ⟨after, hafter, hratchet'.trans hratchet, hchain'.trans hchain, hindex'.trans hindex,
      hskipped'.trans hskipped⟩

/-- Where a device is spared, a session is found or started with it as before. -/
theorem Spares.sessionFrom {session : Session} (h : Spares peer s s')
    (hsession : SessionFrom S s'.records peer session) : SessionFrom S s.records peer session := by
  rw [SessionFrom, Initiates, h.1, h.2.1, h.2.2] at hsession
  exact hsession

/-- Where no entry is sealed for a device, it is spared. -/
theorem SealsEach.spares_of_nil (h : SealsEach S peer bodyKey s [] s') : Spares peer s s' := by
  generalize hnil : [] = entries at h
  induction h with
  | nothing spares => exact spares
  | one => exact nomatch hnil
  | append _ _ ih ih' =>
    obtain ⟨hfirst, hrest⟩ := List.append_eq_nil_iff.mp hnil.symm
    exact (ih hfirst.symm).trans (ih' hrest.symm)

/-- Entries are sealed for a device in a session that is found or started with it. -/
theorem SealsEach.sessionFrom {entries : List Wire.Entry}
    (h : SealsEach S peer bodyKey s entries s') (hne : entries ≠ []) :
    ∃ session, SessionFrom S s.records peer session := by
  induction h with
  | nothing => exact absurd rfl hne
  | one seals => exact ⟨_, seals.source⟩
  | @append _ _ _ first rest before behind ih ih' =>
    by_cases hfirst : first = []
    · subst hfirst
      obtain ⟨session, hsession⟩ := ih' hne
      exact ⟨session, before.spares_of_nil.sessionFrom hsession⟩
    · exact ih hfirst

/-- An action seals entries for a device one after the other. It tells them if it is answered; what a
refused action has sealed is lost. -/
def Tells (S : Suite) (peer : DeviceId) (bodyKey : Key) (x : Action σ α)
    (told : α → List Wire.Entry) : Prop :=
  ∀ s, match x s with
    | (.ok a, s') => SealsEach S peer bodyKey s (told a) s'
    | (.error _, s') => ∃ lost, SealsEach S peer bodyKey s lost s'

namespace Tells

variable {x : Action σ α} {told : α → List Wire.Entry} {told' : β → List Wire.Entry}

/-- What comes before the first entry spares the device. -/
theorem bind_of_spares {f : α → Action σ β} (hx : Within (Spares peer) x)
    (hf : ∀ a, Tells S peer bodyKey (f a) told') : Tells S peer bodyKey (x >>= f) told' := by
  intro s
  have hspares := hx s
  cases hxs : x s with
  | mk result s₁ =>
    rw [hxs] at hspares
    cases result with
    | error cause =>
      rw [run_bind_error hxs]
      exact ⟨[], .nothing hspares⟩
    | ok a =>
      rw [run_bind_ok hxs]
      have hrest := hf a s₁
      cases hfa : f a s₁ with
      | mk result s₂ =>
        rw [hfa] at hrest
        cases result with
        | error cause =>
          obtain ⟨lost, hlost⟩ := hrest
          exact ⟨lost, .append (.nothing hspares) hlost⟩
        | ok b => exact .append (.nothing hspares) hrest

/-- The same entries, told in another form. -/
theorem map (hx : Tells S peer bodyKey x told) {g : α → β} (htold : ∀ a, told' (g a) = told a) :
    Tells S peer bodyKey (x >>= fun a => pure (g a)) told' := by
  intro s
  have hs := hx s
  cases hxs : x s with
  | mk result s₁ =>
    rw [hxs] at hs
    cases result with
    | error cause =>
      rw [run_bind_error hxs]
      exact hs
    | ok a =>
      rw [run_bind_ok hxs, run_pure]
      show SealsEach S peer bodyKey s (told' (g a)) s₁
      rw [htold]
      exact hs

/-- Each of a list tells its entries behind those of the ones before. -/
theorem mapM {f : α → Action σ β} (hf : ∀ a, Tells S peer bodyKey (f a) told') (as : List α) :
    Tells S peer bodyKey (as.mapM f) (·.flatMap told') := by
  induction as with
  | nil =>
    intro s
    rw [List.mapM_nil]
    exact .nothing (.of_records rfl)
  | cons a as ih =>
    intro s
    rw [List.mapM_cons]
    have hfirst := hf a s
    cases hfa : f a s with
    | mk result s₁ =>
      rw [hfa] at hfirst
      cases result with
      | error cause =>
        rw [run_bind_error hfa]
        exact hfirst
      | ok b =>
        rw [run_bind_ok hfa]
        have hrest := ih s₁
        cases has : as.mapM f s₁ with
        | mk result s₂ =>
          rw [has] at hrest
          cases result with
          | error cause =>
            rw [run_bind_error has]
            obtain ⟨lost, hlost⟩ := hrest
            exact ⟨told' b ++ lost, .append hfirst hlost⟩
          | ok bs =>
            rw [run_bind_ok has, run_pure]
            show SealsEach S peer bodyKey s ((b :: bs).flatMap told') s₂
            rw [List.flatMap_cons]
            exact .append hfirst hrest

end Tells

/-- The entries for a device. -/
def addressed (peer : DeviceId) (entries : List Wire.Entry) : List Wire.Entry :=
  entries.filter (·.recipient = peer)

/-- Sealing for another device spares this one. -/
theorem Seals.spares {other : DeviceId} {entry : Wire.Entry} {session after : Session}
    {env : Environment} (h : Seals S other bodyKey s entry s' session env after)
    (hother : other ≠ peer) : Spares peer s s' := by
  rw [Spares, h.records]
  exact ⟨Function.update_of_ne hother.symm _ _, rfl, rfl⟩

/-- An entry for another device spares this one. -/
theorem entryFor_tells (S : Suite) (d : Device) (bodyKey : Key) (peer other : DeviceId) :
    Tells (σ := σ) S peer bodyKey (d.entryFor S bodyKey other) (addressed peer ·.toList) := by
  intro s
  rcases entryFor_cases S d bodyKey other s with
    ⟨cause, s', h, hkeeps⟩ | ⟨s', h, hkeeps⟩ | ⟨entry, s', session, env, after, h, hseals⟩
  · rw [h]
    exact ⟨[], .nothing (.of_records hkeeps.1)⟩
  · rw [h]
    exact .nothing (.of_records hkeeps.1)
  · rw [h]
    show SealsEach S peer bodyKey s (addressed peer [entry]) s'
    by_cases hother : other = peer
    · subst hother
      have hpeer : addressed other [entry] = [entry] := by simp [addressed, hseals.recipient]
      rw [hpeer]
      exact .one hseals
    · have hnone : addressed peer [entry] = [] := by simp [addressed, hseals.recipient, hother]
      rw [hnone]
      exact .nothing (hseals.spares hother)

/-- Of the devices of a name, the turns of the device are told in order, and the others spare it. -/
theorem entriesFor_tells (S : Suite) (d : Device) (bodyKey : Key) (peer : DeviceId)
    (name : String) :
    Tells (σ := σ) S peer bodyKey (d.entriesFor S bodyKey name) (addressed peer) := by
  have hquery : Within (Spares (σ := σ) peer) (ask (.devices name)) := fun s =>
    .of_records (query_keeps (isQuery_devices name) s).1
  refine .bind_of_spares hquery fun devices => ?_
  refine (Tells.mapM (entryFor_tells S d bodyKey peer) devices).map fun entries => ?_
  simp only [addressed, List.filter_flatMap]

/-- What encrypting seals for a device, for any recipients: an envelope has all of these entries, in
order, and its body is encrypted with the key that is sealed in each of them. -/
theorem encrypt_tells (S : Suite) (d : Device) (recipients : List String) (plaintext : Bytes)
    (peer : DeviceId) (s : State σ) :
    match d.encrypt S recipients plaintext s with
    | (.ok e, s') =>
      SealsEach S peer (s.env.draw 32).1 s (addressed peer e.entries) s' ∧ e.sender = d.id ∧
        e.body = S.encryptWith (s.env.draw 32).1 e.iv plaintext
    | (.error _, s') => ∃ lost, SealsEach S peer (s.env.draw 32).1 s lost s' := by
  unfold encrypt
  rw [run_bind_ok (run_draw _ _), run_bind_ok (run_draw _ _)]
  generalize (s.env.draw 32).1 = bodyKey
  generalize (Environment.draw 16 _).1 = iv
  generalize hs₁ : ({ s with env := _ } : State σ) = s₁
  have hspares : Spares peer s s₁ := hs₁ ▸ .of_records rfl
  have hentries := Tells.mapM (entriesFor_tells (σ := σ) S d bodyKey peer) recipients s₁
  cases hrun : recipients.mapM (d.entriesFor S bodyKey) s₁ with
  | mk result s₂ =>
    rw [hrun] at hentries
    cases result with
    | error cause =>
      rw [run_bind_error hrun]
      obtain ⟨lost, hlost⟩ := hentries
      exact ⟨lost, .append (.nothing hspares) hlost⟩
    | ok entries =>
      rw [run_bind_ok hrun, run_pure]
      refine ⟨?_, rfl, rfl⟩
      show SealsEach S peer bodyKey s (addressed peer entries.flatten) s₂
      have hflatten : addressed peer entries.flatten = entries.flatMap (addressed peer) := by
        rw [addressed, List.filter_flatten, List.flatMap_def]
        rfl
      rw [hflatten]
      exact .append (.nothing hspares) hentries

end EndToEnd.Device
