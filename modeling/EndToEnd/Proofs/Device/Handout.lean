import EndToEnd.Proofs.Device.OneTimeKeys

/-!
# Handing the bundle out

A device hands its bundle out after it was started and after every change of the bundle, and not
twice in between. Its store may refuse any call, so a change may not come about, and the bundle may
have to be asked for again; but no change that came about is left unpublished.

What becomes of the bundle is read in a diary that the store keeps.

Main statements:

- `UpToDate.step`: what is noted last tells whether the bundle is to be handed out;
- `handed_out_run`: when the bundle is handed out, and what is published if it is not.
-/

namespace EndToEnd

/-- What becomes of our bundle: it is saved, or its document is handed out. -/
inductive Notice
  | saved (bundle : Bundle)
  | handedOut (document : Wire.PublishedBundle)
deriving DecidableEq

/-- A store, and what became of our bundle, in order. -/
structure Diary (σ : Type) where
  inner : σ
  notices : List Notice

namespace Diary

variable {σ : Type} [Store σ]

open Store in
/-- What there is to note of a call: that our bundle was saved. -/
def noticed {α : Type} : Request α → Except Store.Error α → List Notice
  | .saveCurrent bundle, .ok _ => [.saved bundle]
  | _, _ => []

/-- Calls are passed on. -/
instance : Store (Diary σ) where
  call request diary :=
    let (answer, inner) := Store.call request diary.inner
    (answer, ⟨inner, diary.notices ++ noticed request answer⟩)

theorem noticed_error {α : Type} (request : Store.Request α) (cause : Store.Error) :
    noticed request (.error cause) = [] := by
  cases request <;> rfl

/-- A call of the store is not a handing out. -/
theorem handedOut_notMem_noticed {α : Type} (request : Store.Request α)
    (answer : Except Store.Error α) (document : Wire.PublishedBundle) :
    .handedOut document ∉ noticed request answer := by
  unfold noticed
  split
  next => exact fun hmem => nomatch List.mem_singleton.mp hmem
  next => exact List.not_mem_nil

/-- Asking for the bundle notes nothing. -/
theorem notices_takeUnpublished (s : Device.State (Diary σ)) :
    (Device.takeUnpublished s).2.store.notices = s.store.notices := by
  have hchains : Device.Chains fun s s' : Device.State (Diary σ) =>
      s'.store.notices = s.store.notices := ⟨fun h h' => h'.trans h, fun _ _ => rfl⟩
  refine Device.takeUnpublished_within hchains (fun s => ?_) (fun _ _ => rfl) s
  exact List.append_nil _

variable [LawfulStore σ]

instance : LawfulStore (Diary σ) where
  records diary := LawfulStore.records diary.inner
  Healthy diary := LawfulStore.Healthy diary.inner
  call_cases request diary := LawfulStore.call_cases request diary.inner

/-! ## What can happen -/

/-- What can happen to a device that was started, and around it. -/
inductive Event (σ : Type)
  | encrypt (recipients : List String) (plaintext : Bytes)
  | decrypt (e : Wire.Envelope)
  | learnBundle (p : Wire.PublishedBundle)
  | learnDevices (list : Wire.DeviceList)
  /-- It hands its bundle out if it is to be published. -/
  | publish
  /-- Time passes, and others write to the store, but not our bundle. -/
  | elsewhere (store : σ) (env : Environment)

/-- The state with one more notice. -/
def note (s : Device.State (Diary σ)) (notice : Notice) : Device.State (Diary σ) :=
  { s with store := { s.store with notices := s.store.notices ++ [notice] } }

/-- The state after something has happened. -/
def step (S : Suite) (d : Device) (s : Device.State (Diary σ)) :
    Event σ → Device.State (Diary σ)
  | .encrypt recipients plaintext => (d.encrypt S recipients plaintext s).2
  | .decrypt e => (d.decrypt S e s).2
  | .learnBundle p => (d.learnBundle p s).2
  | .learnDevices list => (d.learnDevices list s).2
  | .publish =>
    match Device.takeUnpublished s with
    | (.ok (some document), s') => note s' (.handedOut document)
    | (_, s') => s'
  | .elsewhere store env =>
    if (LawfulStore.records store).current = s.records.current then
      { s with store := { s.store with inner := store }, env }
    else s

/-- The state after everything in a list has happened. -/
def run (S : Suite) (d : Device) (s : Device.State (Diary σ)) (events : List (Event σ)) :
    Device.State (Diary σ) :=
  events.foldl (step S d) s

/-! ## What is noted last -/

/-- There is a bundle. It was handed out if that is noted last, and else it is to be handed out. -/
structure UpToDate (s : Device.State (Diary σ)) : Prop where
  held : ∃ own, s.records.current = some own
  pending : s.unpublished = true ↔ ∀ document, s.store.notices.getLast? ≠ some (.handedOut document)
  published : ∀ document, s.store.notices.getLast? = some (.handedOut document) →
    ∃ own, s.records.current = some own ∧ document = own.publish

variable {S : Suite} {d : Device} {s s' : Device.State (Diary σ)}

/-- Up to date is a matter of the bundle, of whether it is to be handed out, and of the notices. -/
theorem UpToDate.of_eq (h : UpToDate s) (hcurrent : s'.records.current = s.records.current)
    (hflag : s'.unpublished = s.unpublished) (hnotices : s'.store.notices = s.store.notices) :
    UpToDate s' where
  held := hcurrent ▸ h.held
  pending := by rw [hflag, hnotices, h.pending]
  published := by
    rw [hcurrent, hnotices]
    exact h.published

/-- A bundle that was saved is to be handed out. -/
theorem upToDate_saved {own : Bundle} {notices : List Notice}
    (hcurrent : s.records.current = some own) (hflag : s.unpublished = true)
    (hnotices : s.store.notices = notices ++ [.saved own]) : UpToDate s := by
  have hlast : s.store.notices.getLast? = some (.saved own) := by
    rw [hnotices, List.getLast?_concat]
  refine ⟨⟨own, hcurrent⟩, iff_of_true hflag fun document => ?_, fun document hdocument => ?_⟩
  · rw [hlast]
    exact nofun
  · rw [hlast] at hdocument
    exact nomatch Option.some.inj hdocument

/-- A bundle that was handed out is not to be handed out. -/
theorem upToDate_handedOut {own : Bundle} {notices : List Notice}
    (hcurrent : s.records.current = some own) (hflag : s.unpublished = false)
    (hnotices : s.store.notices = notices ++ [.handedOut own.publish]) : UpToDate s := by
  have hlast : s.store.notices.getLast? = some (.handedOut own.publish) := by
    rw [hnotices, List.getLast?_concat]
  refine ⟨⟨own, hcurrent⟩, iff_of_false ?_ fun h => h _ hlast, fun document hdocument => ?_⟩
  · rw [hflag]
    exact Bool.false_ne_true
  · rw [hlast] at hdocument
    obtain rfl := Notice.handedOut.inj (Option.some.inj hdocument)
    exact ⟨own, hcurrent, rfl⟩

/-! ## Calls -/

/-- A call is answered and noted, or it is refused and changes nothing. -/
theorem ask_cases {α : Type} (request : Store.Request α) (s : Device.State (Diary σ)) :
    (∃ s', Device.ask request s = (.ok (s.records.answer request).1, s') ∧
      s'.records = (s.records.answer request).2 ∧ s'.unpublished = s.unpublished ∧
      s'.store.notices =
        s.store.notices ++ noticed request (.ok (s.records.answer request).1)) ∨
    ∃ cause s', Device.ask request s = (.error (.store cause), s') ∧ Device.Keeps s s' ∧
      s'.store.notices = s.store.notices := by
  have hresult : (Device.ask request s).1 =
      (Store.call request s.store.inner).1.mapError .store := rfl
  have hnotices : (Device.ask request s).2.store.notices =
      s.store.notices ++ noticed request (Store.call request s.store.inner).1 := rfl
  rcases LawfulStore.call_cases request s.store.inner with
    ⟨hok, hrecords, -⟩ | ⟨-, ⟨cause, herror⟩, hrecords⟩
  · rw [hok] at hresult hnotices
    exact .inl ⟨_, Prod.ext hresult rfl, hrecords, rfl, hnotices⟩
  · rw [herror] at hresult hnotices
    rw [noticed_error, List.append_nil] at hnotices
    exact .inr ⟨cause, _, Prod.ext hresult rfl, ⟨hrecords, rfl⟩, hnotices⟩

/-- What was up to date stays so. -/
def StaysUpToDate (s s' : Device.State (Diary σ)) : Prop := UpToDate s → UpToDate s'

/-- Staying up to date chains, and the environment is nothing to it. -/
theorem staysUpToDate_chains : Device.Chains (StaysUpToDate (σ := σ)) :=
  ⟨fun h h' hs => h' (h hs), fun _ _ hs => hs.of_eq rfl rfl rfl⟩

/-- A call that leaves our bundle alone, and of which nothing is noted. -/
structure Passes {α : Type} (request : Store.Request α) : Prop where
  current : ∀ r : Records, (r.answer request).2.current = r.current
  nothing : ∀ answer, noticed request (.ok answer) = []

/-- A call that passes keeps a device up to date, whether it is answered or refused. -/
theorem Passes.ask {α : Type} {request : Store.Request α} (h : Passes request) :
    Device.Within (StaysUpToDate (σ := σ)) (Device.ask request) := by
  intro s hs
  rcases ask_cases request s with
    ⟨s', hask, hrecords, hflag, hnotices⟩ | ⟨cause, s', hask, ⟨hrecords, hflag⟩, hnotices⟩
  · rw [hask]
    rw [h.nothing, List.append_nil] at hnotices
    exact hs.of_eq ((congrArg Records.current hrecords).trans (h.current _)) hflag hnotices
  · rw [hask]
    exact hs.of_eq (congrArg Records.current hrecords) hflag hnotices

theorem passes_query {α : Type} {request : Store.Request α} (hquery : Device.IsQuery request) :
    Passes request := by
  refine ⟨fun r => congrArg Records.current (hquery r), fun answer => ?_⟩
  cases request with
  | saveCurrent bundle =>
    let blank : Records := ⟨none, fun _ => [], fun _ => none, fun _ => none⟩
    exact nomatch congrArg Records.current (hquery blank)
  | _ => rfl

theorem passes_saveSession (peer : DeviceId) (session : Session) :
    Passes (.saveSession peer session) := ⟨fun _ => rfl, fun _ => rfl⟩

theorem passes_saveDevice (peer : String) (device : DeviceId) :
    Passes (.saveDevice peer device) := ⟨fun _ => rfl, fun _ => rfl⟩

theorem passes_saveBundle (device : DeviceId) (bundle : Bundle) :
    Passes (.saveBundle device bundle) := ⟨fun _ => rfl, fun _ => rfl⟩

/-- A bundle that is replaced is to be handed out; if the store refuses it, nothing has changed. -/
theorem replaceBundle_staysUpToDate (bundle : Bundle) :
    Device.Within (StaysUpToDate (σ := σ)) (Device.replaceBundle bundle) := by
  intro s hs
  unfold Device.replaceBundle
  rcases ask_cases (.saveCurrent bundle) s with
    ⟨s', hask, hrecords, -, hnotices⟩ | ⟨cause, s', hask, ⟨hrecords, hflag⟩, hnotices⟩
  · rw [Device.run_bind_ok hask]
    exact upToDate_saved (congrArg Records.current hrecords) rfl hnotices
  · rw [Device.run_bind_error hask]
    exact hs.of_eq (congrArg Records.current hrecords) hflag hnotices

/-! ## Events -/

/-- Every event keeps a device up to date. -/
theorem UpToDate.step (h : UpToDate s) (S : Suite) (d : Device) (e : Event σ) :
    UpToDate (step S d s e) := by
  cases e with
  | encrypt recipients plaintext =>
    exact Device.encrypt_within_of_saveSession staysUpToDate_chains
      (fun hquery => (passes_query hquery).ask) (fun _ _ => (passes_saveSession _ _).ask) S d
      recipients plaintext s h
  | decrypt e =>
    exact Device.decrypt_within_of_replaceBundle staysUpToDate_chains
      (fun hquery => (passes_query hquery).ask) (fun _ _ => (passes_saveSession _ _).ask)
      replaceBundle_staysUpToDate S d e s h
  | learnBundle p =>
    exact Device.learnBundle_within staysUpToDate_chains
      (fun _ _ => (passes_saveBundle _ _).ask) d p s h
  | learnDevices list =>
    exact Device.learnDevices_within staysUpToDate_chains
      (fun _ _ => (passes_saveDevice _ _).ask) d list s h
  | publish =>
    rw [Diary.step]
    have hnotices := notices_takeUnpublished s
    obtain ⟨own, hown⟩ := h.held
    rcases Device.takeUnpublished_cases hown with
      ⟨-, htake⟩ | ⟨-, ⟨s', htake, hrecords, hflag⟩ | ⟨-, cause, s', htake, hrecords, hflag⟩⟩
    · rw [htake]
      exact h
    · rw [htake] at hnotices ⊢
      have hnoted : (note s' (.handedOut own.publish)).store.notices =
          s'.store.notices ++ [.handedOut own.publish] := rfl
      exact upToDate_handedOut ((congrArg Records.current hrecords).trans hown) hflag hnoted
    · rw [htake] at hnotices ⊢
      exact h.of_eq (congrArg Records.current hrecords) hflag hnotices
  | elsewhere store env =>
    rw [Diary.step]
    split
    next hcurrent => exact h.of_eq hcurrent rfl rfl
    next => exact h

/-- By induction, so does any run. -/
theorem UpToDate.run (h : UpToDate s) (S : Suite) (d : Device) (events : List (Event σ)) :
    UpToDate (run S d s events) := by
  induction events generalizing s with
  | nil => exact h
  | cons e events ih => exact ih (h.step S d e)

/-- A device that has just been started is to hand its bundle out. -/
theorem upToDate_start {config : Config} {store : σ} {env : Environment} {flag : Bool}
    (hstart : Device.start S config ⟨⟨store, []⟩, env, flag⟩ = (.ok d, s)) : UpToDate s := by
  obtain ⟨hflag, own, hown, -⟩ := Device.start_ok hstart
  -- starting saves a bundle, or nothing; it hands nothing out
  let NothingOut (s : Device.State (Diary σ)) : Prop :=
    ∀ document, .handedOut document ∉ s.store.notices
  have hchains : Device.Chains fun s s' => NothingOut s → NothingOut s' :=
    ⟨fun h h' hs => h' (h hs), fun _ _ hs => hs⟩
  have hask {α : Type} (request : Store.Request α) :
      Device.Within (fun s s' => NothingOut s → NothingOut s') (Device.ask request) := by
    intro s hs document hmem
    rcases List.mem_append.mp hmem with hmem | hmem
    · exact hs document hmem
    · exact handedOut_notMem_noticed request _ document hmem
  have hnone : NothingOut s := by
    have hwithin := Device.start_within hchains hask (fun _ _ hs => hs) S config
      ⟨⟨store, []⟩, env, flag⟩
    rw [hstart] at hwithin
    exact hwithin fun _ => List.not_mem_nil
  have hlast (document : Wire.PublishedBundle) :
      s.store.notices.getLast? ≠ some (.handedOut document) :=
    fun h => hnone document (List.mem_of_getLast? h)
  exact ⟨⟨own, hown⟩, iff_of_true hflag hlast, fun document h => absurd h (hlast document)⟩

/-- Nothing was handed out since the bundle was saved last exactly if the last notice is not that it
was handed out. -/
theorem getLast?_ne_handedOut_iff {notices : List Notice} :
    (∀ document, notices.getLast? ≠ some (.handedOut document)) ↔
      ∀ before document behind, notices = before ++ .handedOut document :: behind →
        ∃ bundle, .saved bundle ∈ behind := by
  constructor
  · rintro hlast before document behind rfl
    cases hbehind : behind.getLast? with
    | none =>
      rw [List.getLast?_eq_none_iff.mp hbehind] at hlast
      exact absurd List.getLast?_concat (hlast document)
    | some notice =>
      cases notice with
      | saved bundle => exact ⟨bundle, List.mem_of_getLast? hbehind⟩
      | handedOut again =>
        refine absurd ?_ (hlast again)
        rw [List.getLast?_append, List.getLast?_cons, hbehind]
        rfl
  · intro hsaved document hlast
    obtain ⟨before, rfl⟩ := List.getLast?_eq_some_iff.mp hlast
    obtain ⟨bundle, hbundle⟩ := hsaved before document [] rfl
    exact nomatch hbundle

/-- Whatever happens to a device since it was started on a store that only it writes its bundle to,
and whichever calls the store refuses: if its bundle is asked for, a document is answered exactly if
none was handed out since the bundle was saved last, and it is the bundle's. If none is answered,
the bundle's document was handed out, and that is the last that became of the bundle. A refusal is
the store's, and then everything is as it was. -/
theorem handed_out_run (S : Suite) {config : Config} {store : σ} {env : Environment} {flag : Bool}
    (hstart : Device.start S config ⟨⟨store, []⟩, env, flag⟩ = (.ok d, s))
    (events : List (Event σ)) :
    let notices := (run S d s events).store.notices
    match Device.takeUnpublished (run S d s events) with
    | (.ok answer, s') =>
      (answer.isSome ↔ ∀ before document behind,
        notices = before ++ .handedOut document :: behind → ∃ bundle, .saved bundle ∈ behind) ∧
      ∃ own, s'.records.current = some own ∧
        (answer = some own.publish ∨
          answer = none ∧ ∃ before, notices = before ++ [.handedOut own.publish])
    | (.error cause, s') =>
      (∃ refusal, cause = .store refusal) ∧ ¬ (run S d s events).Healthy ∧
        Device.Keeps (run S d s events) s' ∧ s'.store.notices = notices := by
  have h := (upToDate_start hstart).run S d events
  generalize run S d s events = s at h
  intro notices
  obtain ⟨own, hown⟩ := h.held
  have hsince := h.pending.trans getLast?_ne_handedOut_iff
  have hsame := notices_takeUnpublished s
  rcases Device.takeUnpublished_cases hown with
    ⟨hflag, htake⟩ | ⟨hflag, ⟨s', htake, hrecords, -⟩ | ⟨hno, cause, s', htake, hkeeps⟩⟩
  · -- nothing to hand out: the last notice is that the document was handed out
    rw [htake]
    have hout : ∃ document, s.store.notices.getLast? = some (.handedOut document) := by
      by_contra hno
      rw [h.pending.mpr fun document hlast => hno ⟨document, hlast⟩] at hflag
      exact nomatch hflag
    obtain ⟨document, hlast⟩ := hout
    obtain ⟨own', hown', rfl⟩ := h.published document hlast
    obtain rfl := Option.some.inj (hown.symm.trans hown')
    refine ⟨iff_of_false Bool.false_ne_true ?_, own, hown, .inr ⟨rfl, ?_⟩⟩
    · rw [← hsince, hflag]
      exact Bool.false_ne_true
    · exact List.getLast?_eq_some_iff.mp hlast
  · rw [htake]
    refine ⟨iff_of_true rfl (hsince.mp hflag), own, ?_, .inl rfl⟩
    exact (congrArg Records.current hrecords).trans hown
  · rw [htake] at hsame ⊢
    exact ⟨⟨cause, rfl⟩, hno, hkeeps, hsame⟩

open Lifetime (letters)

/-- Bob starts on a store that refuses to read his bundle when it is asked for first, and to replace
it when it is changed first. -/
def moody : Except DeviceError Device × Device.State (Diary (Faulty Memory)) :=
  Device.start .plain Correspondent.twoKeys
    ⟨⟨⟨{}, fun call => call == 2 || call == 7, 0⟩, []⟩, Correspondent.stepping 3, false⟩

/-- He asks for his bundle twice, and reads an envelope, whose one-time key stays: nothing is to be
published. Another envelope of the same handshake uses the key up. -/
theorem handed_out_run_bob : ∃ envelopes, letters = .ok envelopes ∧
    ∃ first ∈ envelopes[0]?, ∃ second ∈ envelopes[1]?, ∃ d, moody = (.ok d, moody.2) ∧
      let early := run .plain d moody.2 [.publish, .publish, .decrypt first]
      let late := run .plain d moody.2 [.publish, .publish, .decrypt first, .decrypt second]
      ((Device.takeUnpublished early).1 = .ok none ∧
        ∃ own before, (Device.takeUnpublished early).2.records.current = some own ∧
          early.store.notices = before ++ [.handedOut own.publish]) ∧
      ∃ own, (Device.takeUnpublished late).2.records.current = some own ∧
        (Device.takeUnpublished late).1 = .ok (some own.publish) := by
  have hrun : ∃ envelopes, letters = .ok envelopes ∧
      ∃ first ∈ envelopes[0]?, ∃ second ∈ envelopes[1]?, ∃ d, moody.1 = .ok d ∧
        (∃ answer, (Device.takeUnpublished
          (run .plain d moody.2 [.publish, .publish, .decrypt first])).1 = .ok answer ∧
            answer = none) ∧
        ∃ answer, (Device.takeUnpublished
          (run .plain d moody.2 [.publish, .publish, .decrypt first, .decrypt second])).1 =
            .ok answer ∧ answer ≠ none := by
    decide +kernel
  obtain ⟨envelopes, hletters, first, hfirst, second, hsecond, d, hd, hrun⟩ := hrun
  have hstart : moody = (.ok d, moody.2) := Prod.ext hd rfl
  have hearly := handed_out_run .plain hstart [.publish, .publish, .decrypt first]
  have hlate := handed_out_run .plain hstart [.publish, .publish, .decrypt first, .decrypt second]
  refine ⟨envelopes, hletters, first, hfirst, second, hsecond, d, hstart, ?_⟩
  intro early late
  obtain ⟨⟨_, htake, rfl⟩, answer, htake', hanswer⟩ := hrun
  have hnone : Device.takeUnpublished early = (.ok none, _) := Prod.ext htake rfl
  have hsome : Device.takeUnpublished late = (.ok answer, _) := Prod.ext htake' rfl
  rw [hnone] at hearly
  rw [hsome] at hlate
  obtain ⟨-, own, hown, hsaid | ⟨-, before, hnotices⟩⟩ := hearly
  · exact nomatch hsaid
  obtain ⟨-, own', hown', rfl | ⟨hno, -⟩⟩ := hlate
  · exact ⟨⟨htake, own, before, hown, hnotices⟩, own', hown', htake'⟩
  · exact absurd hno hanswer

end Diary

end EndToEnd
