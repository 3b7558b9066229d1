import EndToEnd.Proofs.Device.Writing

/-!
# Who an envelope is addressed to

An envelope names each recipient's devices in the order in which they are listed, a device that is
listed twice two times. Two kinds of devices are left out: this one, and those that are out of reach,
because there is neither a session with them nor a one-time key to start one from. Who is out of
reach does not change on the way.

Main statements:

- `entryFor_ok`: a device that is left out, or one that an entry is sealed for;
- `encrypt_addressees`: the recipients of an envelope's entries.
-/

namespace EndToEnd

/-- Whether there is a session with a device, or a one-time key to start one from. -/
def Records.reaches (r : Records) (peer : DeviceId) : Bool :=
  (r.session peer).isSome || (r.bundle peer).any (!·.oneTimeKeys.isEmpty)

/-- A device with a session can be reached. -/
theorem Records.reaches_of_session {r : Records} {peer : DeviceId} {session : Session}
    (h : r.session peer = some session) : r.reaches peer = true := by
  rw [reaches, h]
  rfl

/-- A device with a key left in its bundle can be reached. -/
theorem Records.reaches_of_oneTimeKey {r : Records} {peer : DeviceId} {bundle : Bundle}
    {k : OneTimeKey} (hbundle : r.bundle peer = some bundle) (hk : k ∈ bundle.oneTimeKeys) :
    r.reaches peer = true := by
  have hsome : bundle.oneTimeKeys.isEmpty = false := by
    simpa [List.isEmpty_iff] using List.ne_nil_of_mem hk
  rw [reaches, hbundle, Option.any_some, hsome, Bool.not_false, Bool.or_true]

namespace Device

variable {σ α β : Type} [Store σ] [LawfulStore σ] {S : Suite} {d : Device} {peer : DeviceId}
  {bodyKey : Key} {s s' : State σ} {entry : Wire.Entry} {session after : Session}
  {env : Environment}

/-- The devices that an envelope has an entry for, each as often as it is listed. -/
def addressees (d : Device) (r : Records) (recipients : List String) : List DeviceId :=
  (recipients.flatMap r.devices).filter fun peer => peer ≠ d.id && r.reaches peer

/-! ## One device -/

/-- A bundle from which no key can be drawn has none. -/
theorem drawOneTimeKey_eq_none {b : Bundle} (h : (b.drawOneTimeKey env).1 = none) :
    b.oneTimeKeys.isEmpty = true := by
  cases hempty : b.oneTimeKeys.isEmpty with
  | true => rfl
  | false =>
    have hpos : 0 < b.oneTimeKeys.length :=
      List.length_pos_iff.mpr (by simpa [List.isEmpty_iff] using hempty)
    have hdrawn : (b.drawOneTimeKey env).1 =
        b.oneTimeKeys[env.drawNat64.1 % b.oneTimeKeys.length]?.map (·.pair) := by
      rw [Bundle.drawOneTimeKey, hempty]
      rfl
    rw [hdrawn, List.getElem?_eq_getElem (Nat.mod_lt _ hpos)] at h
    exact nomatch h

/-- A device is out of reach if no session with it is found or started. -/
theorem reaches_of_sessionWith_none (h : sessionWith S peer s = (.ok none, s')) :
    s.records.reaches peer = false := by
  obtain ⟨stored, s₁, hask, h⟩ := bind_run_ok h
  obtain ⟨rfl, hkeeps⟩ := query_ok (isQuery_session peer) hask
  have hanswer : (s.records.answer (.session peer)).1 = s.records.session peer := rfl
  rw [hanswer] at h
  cases hsession : s.records.session peer with
  | some session =>
    rw [hsession] at h
    exact nomatch Except.ok.inj (Prod.mk.inj h).1
  | none =>
    rw [hsession] at h
    obtain ⟨bundle, s₂, hask', h⟩ := bind_run_ok h
    obtain ⟨rfl, -⟩ := query_ok (isQuery_bundle peer) hask'
    have hanswer' : (s₁.records.answer (.bundle peer)).1 = s.records.bundle peer := by
      rw [hkeeps.1]
      rfl
    rw [hanswer'] at h
    rw [Records.reaches, hsession]
    cases hbundle : s.records.bundle peer with
    | none => rfl
    | some bundle =>
      rw [hbundle] at h
      obtain ⟨oneTime, s₃, hdraw, h⟩ := bind_run_ok h
      obtain ⟨hdrawn, -⟩ := Prod.mk.inj hdraw
      cases oneTime with
      | none =>
        have hempty := drawOneTimeKey_eq_none (Except.ok.inj hdrawn)
        simp only [Option.isSome_none, Option.any_some, hempty, Bool.not_true, Bool.or_false]
      | some oneTime =>
        obtain ⟨own, s₄, -, h⟩ := bind_run_ok h
        obtain ⟨ephemeral, s₅, -, h⟩ := bind_run_ok h
        obtain ⟨secret, -, h⟩ := attempt_bind_ok h
        obtain ⟨started, s₆, -, h⟩ := bind_run_ok h
        exact nomatch Except.ok.inj (Prod.mk.inj h).1

/-- A device that a session is found with, or started with, is in reach. -/
theorem reaches_of_sessionFrom {r : Records} (h : SessionFrom S r peer session) :
    r.reaches peer = true := by
  rcases h with hstored | ⟨-, bundle, k, -, -, -, -, hbundle, hk, -⟩
  · exact Records.reaches_of_session hstored
  · exact Records.reaches_of_oneTimeKey hbundle hk

/-- A device is left out, because it is this one or is out of reach, or an entry is sealed for it. -/
theorem entryFor_ok {result : Option Wire.Entry}
    (h : d.entryFor S bodyKey peer s = (.ok result, s')) :
    (result = none ∧ (peer = d.id ∨ s.records.reaches peer = false) ∧ Keeps s s') ∨
    (∃ entry session env after, result = some entry ∧ peer ≠ d.id ∧
      Seals S peer bodyKey s entry s' session env after) := by
  by_cases hself : peer = d.id
  · rw [entryFor, if_pos hself] at h
    obtain ⟨hresult, rfl⟩ := Prod.mk.inj h
    exact .inl ⟨(Except.ok.inj hresult).symm, .inl hself, .refl s⟩
  · rcases entryFor_cases S d bodyKey peer s with
      ⟨cause, s₁, herror, -⟩ | ⟨s₁, hnone, hkeeps⟩ | ⟨entry, s₁, session, env, after, hsome, hseals⟩
    · rw [herror] at h
      exact nomatch (Prod.mk.inj h).1
    · rw [hnone] at h
      obtain ⟨hresult, rfl⟩ := Prod.mk.inj h
      refine .inl ⟨(Except.ok.inj hresult).symm, .inr ?_, hkeeps⟩
      rw [entryFor, if_neg hself] at hnone
      obtain ⟨found, s₂, hfound, hrest⟩ := bind_run_ok hnone
      cases found with
      | none => exact reaches_of_sessionWith_none hfound
      | some session =>
        obtain ⟨sealed, s₃, -, hrest⟩ := bind_run_ok hrest
        obtain ⟨saved, s₄, -, hrest⟩ := bind_run_ok hrest
        exact nomatch Except.ok.inj (Prod.mk.inj hrest).1
    · rw [hsome] at h
      obtain ⟨hresult, rfl⟩ := Prod.mk.inj h
      exact .inr ⟨entry, session, env, after, (Except.ok.inj hresult).symm, hself, hseals⟩

/-! ## On the way -/

/-- What decides who an envelope is addressed to is as it was, and no session is gone. -/
structure Steady (r r' : Records) : Prop where
  devices : r'.devices = r.devices
  bundle : r'.bundle = r.bundle
  current : r'.current = r.current
  reaches : r'.reaches = r.reaches
  session : ∀ peer, r'.session peer = none → r.session peer = none

theorem Steady.refl (r : Records) : Steady r r := ⟨rfl, rfl, rfl, rfl, fun _ h => h⟩

theorem Steady.trans {r r' r'' : Records} (h : Steady r r') (h' : Steady r' r'') : Steady r r'' :=
  ⟨h'.devices.trans h.devices, h'.bundle.trans h.bundle, h'.current.trans h.current,
    h'.reaches.trans h.reaches, fun peer hnone => h.session peer (h'.session peer hnone)⟩

theorem Keeps.steady (h : Keeps s s') : Steady s.records s'.records := h.1 ▸ .refl _

/-- Saving a session with a device in reach changes nothing of it. -/
theorem steady_withSession {r : Records} (h : r.reaches peer = true) (after : Session) :
    Steady r (r.withSession peer after) := by
  have hsaved := r.session_withSession_self peer after
  refine ⟨rfl, rfl, rfl, funext fun other => ?_, fun other hnone => ?_⟩ <;>
    by_cases hne : other = peer
  · subst hne
    rw [Records.reaches_of_session hsaved, h]
  · rw [Records.reaches, r.session_withSession_of_ne after hne]
    rfl
  · subst hne
    exact nomatch hsaved.symm.trans hnone
  · exact (r.session_withSession_of_ne after hne).symm.trans hnone

theorem Seals.steady (h : Seals S peer bodyKey s entry s' session env after) :
    Steady s.records s'.records := by
  rw [h.records]
  exact steady_withSession (reaches_of_sessionFrom h.source) after

/-! ## All devices -/

/-- What is appended item by item agrees if it does for each. -/
theorem flatMap_eq_of_forall₂ {γ : Type} {g : β → List γ} {k : α → List γ} {as : List α}
    {bs : List β} (h : List.Forall₂ (fun a b => g b = k a) as bs) : bs.flatMap g = as.flatMap k := by
  induction h with
  | nil => rfl
  | cons hhead _ ih => rw [List.flatMap_cons, List.flatMap_cons, hhead, ih]

variable {r : Records} {name : String} {recipients : List String} {plaintext : Bytes}

/-- A device gets its entry if it is another one and can be reached, and no entry otherwise. -/
theorem entryFor_addressees {result : Option Wire.Entry} (hs : Steady r s.records)
    (h : d.entryFor S bodyKey peer s = (.ok result, s')) :
    Steady r s'.records ∧
      result.toList.map (·.recipient) = [peer].filter (fun p => p ≠ d.id && r.reaches p) := by
  rcases entryFor_ok h with ⟨rfl, hout, hkeeps⟩ | ⟨entry, session, env, after, rfl, hself, hseals⟩
  · refine ⟨hs.trans hkeeps.steady, ?_⟩
    rcases hout with rfl | hout
    · simp
    · rw [hs.reaches] at hout
      simp [hout]
  · have hreach := reaches_of_sessionFrom hseals.source
    rw [hs.reaches] at hreach
    exact ⟨hs.trans hseals.steady, by simp [hself, hreach, hseals.recipient]⟩

/-- The devices of one name are addressed in the order in which they are listed. -/
theorem entriesFor_addressees {entries : List Wire.Entry} (hs : Steady r s.records)
    (h : d.entriesFor S bodyKey name s = (.ok entries, s')) :
    Steady r s'.records ∧ entries.map (·.recipient) =
      (r.devices name).filter (fun p => p ≠ d.id && r.reaches p) := by
  obtain ⟨devices, s₁, hask, h⟩ := bind_run_ok h
  obtain ⟨hdevices, hkeeps⟩ := query_ok (isQuery_devices name) hask
  obtain ⟨results, s₂, hresults, h⟩ := bind_run_ok h
  obtain ⟨hentries, rfl⟩ := Prod.mk.inj h
  obtain rfl := Except.ok.inj hentries
  have hstep (peer : DeviceId) (s : State σ) (result : Option Wire.Entry) (s' : State σ)
      (hs : Steady r s.records) (h : d.entryFor S bodyKey peer s = (.ok result, s')) :=
    entryFor_addressees hs h
  obtain ⟨hs₂, hall⟩ := mapM_run_ok hstep (hs.trans hkeeps.steady) hresults
  have hlisted : devices = r.devices name := by
    rw [← hs.devices]
    exact hdevices
  refine ⟨hs₂, ?_⟩
  rw [List.map_flatMap, flatMap_eq_of_forall₂ hall, ← List.filter_flatMap, List.flatMap_singleton',
    hlisted]

/-- An envelope has the entries of its recipients, one list behind the other. -/
theorem encrypt_ok {e : Wire.Envelope} (h : d.encrypt S recipients plaintext s = (.ok e, s')) :
    ∃ s₁ entries, Keeps s s₁ ∧
      recipients.mapM (d.entriesFor S (s.env.draw 32).1) s₁ = (.ok entries, s') ∧
      e.entries = entries.flatten := by
  unfold encrypt at h
  rw [run_bind_ok (run_draw _ _), run_bind_ok (run_draw _ _)] at h
  obtain ⟨entries, s₁, hentries, h⟩ := bind_run_ok h
  obtain ⟨he, rfl⟩ := Prod.mk.inj h
  refine ⟨_, entries, ?_, hentries, congrArg Wire.Envelope.entries (Except.ok.inj he).symm⟩
  exact ⟨rfl, rfl⟩

/-- The entries of an envelope are for the listed devices, in order, but for this one and those out
of reach. -/
theorem encrypt_addressees {e : Wire.Envelope}
    (h : d.encrypt S recipients plaintext s = (.ok e, s')) :
    e.entries.map (·.recipient) = d.addressees s.records recipients := by
  obtain ⟨s₁, entries, hkeeps, hentries, he⟩ := encrypt_ok h
  have hstep (name : String) (s₁ : State σ) (entries : List Wire.Entry) (s₂ : State σ)
      (hs : Steady s.records s₁.records)
      (h : d.entriesFor S (s.env.draw 32).1 name s₁ = (.ok entries, s₂)) :=
    entriesFor_addressees hs h
  obtain ⟨-, hall⟩ := mapM_run_ok hstep hkeeps.steady hentries
  rw [he, List.map_flatten, ← List.flatMap_def, flatMap_eq_of_forall₂ hall, addressees,
    List.filter_flatMap]

end Device

end EndToEnd
