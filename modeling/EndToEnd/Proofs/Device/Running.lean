import EndToEnd.Device.Action
import EndToEnd.Proofs.Store.Lawful
import Mathlib.Data.List.Forall2

/-!
# Running actions

An action of a device is taken apart call by call: a chain goes on where its first link was answered
and stops where it was refused. What a call of a lawful store does is said by the records, so a
state is looked at through its records, its environment and its flag.

What every call of an action does to the state, the action does: `Within` is that principle, for any
relation that chains. Most links only read, and `Reads` says what such a link answers unless a call
is refused on the way.
-/

namespace EndToEnd.Device

variable {σ α β ε : Type}

/-! ## Chains -/

/-- A sequence goes on in the state that its first action leaves. -/
theorem run_bind_ok {x : Action σ α} {f : α → Action σ β} {s s' : State σ} {a : α}
    (h : x s = (.ok a, s')) : (x >>= f) s = f a s' := by
  show (match x s with | (a, s) => ExceptT.bindCont f a s) = f a s'
  rw [h]
  rfl

/-- A sequence ends with the refusal of its first action, and in its state. -/
theorem run_bind_error {x : Action σ α} {f : α → Action σ β} {s s' : State σ} {e : DeviceError}
    (h : x s = (.error e, s')) : (x >>= f) s = (.error e, s') := by
  show (match x s with | (a, s) => ExceptT.bindCont f a s) = (.error e, s')
  rw [h]
  rfl

/-- A chain that is answered has links that are. -/
theorem bind_run_ok {x : Action σ α} {f : α → Action σ β} {s s'' : State σ} {b : β}
    (h : (x >>= f) s = (.ok b, s'')) : ∃ a s', x s = (.ok a, s') ∧ f a s' = (.ok b, s'') := by
  cases hx : x s with
  | mk result s' =>
    cases result with
    | error e =>
      rw [run_bind_error hx] at h
      exact nomatch h
    | ok a =>
      rw [run_bind_ok hx] at h
      exact ⟨a, s', rfl, h⟩

/-- A chain that is refused is refused by its first link, or by the rest. -/
theorem bind_run_error {x : Action σ α} {f : α → Action σ β} {s s'' : State σ} {e : DeviceError}
    (h : (x >>= f) s = (.error e, s'')) :
    x s = (.error e, s'') ∨ ∃ a s', x s = (.ok a, s') ∧ f a s' = (.error e, s'') := by
  cases hx : x s with
  | mk result s' =>
    cases result with
    | error e' =>
      rw [run_bind_error hx] at h
      obtain ⟨he, rfl⟩ := Prod.mk.inj h
      exact .inl (congrArg (fun e => (Except.error e, s')) (Except.error.inj he))
    | ok a =>
      rw [run_bind_ok hx] at h
      exact .inr ⟨a, s', rfl, h⟩

theorem run_pure (a : α) (s : State σ) : (pure a : Action σ α) s = (.ok a, s) := rfl

theorem run_throw (e : DeviceError) (s : State σ) :
    (throw e : Action σ α) s = (.error e, s) := rfl

/-- Drawing moves the environment on and touches nothing else. -/
theorem run_draw (f : Environment → α × Environment) (s : State σ) :
    (draw f : Action σ α) s = (.ok (f s.env).1, { s with env := (f s.env).2 }) := rfl

theorem run_now (s : State σ) : (now : Action σ UInt64) s = (.ok s.env.clock, s) := rfl

/-- An attempt leaves the state alone, whatever its result. -/
theorem run_attempt (refuse : ε → DeviceError) (result : Except ε α) (s : State σ) :
    (attempt refuse result : Action σ α) s = (result.mapError refuse, s) := rfl

/-- Drawing what may be refused moves the environment on either way. -/
theorem run_tryDraw (refuse : ε → DeviceError) (f : Environment → Except ε α × Environment)
    (s : State σ) : (tryDraw refuse f : Action σ α) s =
      ((f s.env).1.mapError refuse, { s with env := (f s.env).2 }) := rfl

theorem run_setUnpublished (unpublished : Bool) (s : State σ) :
    (setUnpublished unpublished : Action σ Unit) s = (.ok (), { s with unpublished }) := rfl

/-- A chain goes on with a result only if there is one. -/
theorem attempt_bind_ok {refuse : ε → DeviceError} {result : Except ε α} {f : α → Action σ β}
    {s s' : State σ} {b : β} (h : (attempt refuse result >>= f) s = (.ok b, s')) :
    ∃ a, result = .ok a ∧ f a s = (.ok b, s') := by
  cases result with
  | error cause => exact nomatch (Prod.mk.inj h).1
  | ok a => exact ⟨a, rfl, h⟩

/-- What each link of a list keeps holds behind the list, and what each answers is told of each. -/
theorem mapM_run_ok {f : α → Action σ β} {Inv : State σ → Prop} {P : α → β → Prop}
    (hstep : ∀ a s b s', Inv s → f a s = (.ok b, s') → Inv s' ∧ P a b) {as : List α} {bs : List β}
    {s s' : State σ} (hs : Inv s) (h : as.mapM f s = (.ok bs, s')) :
    Inv s' ∧ List.Forall₂ P as bs := by
  induction as generalizing s bs with
  | nil =>
    rw [List.mapM_nil] at h
    obtain ⟨hbs, rfl⟩ := Prod.mk.inj h
    obtain rfl := Except.ok.inj hbs
    exact ⟨hs, .nil⟩
  | cons a as ih =>
    rw [List.mapM_cons] at h
    obtain ⟨b, s₁, hb, h⟩ := bind_run_ok h
    obtain ⟨bs', s₂, hbs', h⟩ := bind_run_ok h
    obtain ⟨hbs, rfl⟩ := Prod.mk.inj h
    obtain rfl := Except.ok.inj hbs
    obtain ⟨hs₁, hP⟩ := hstep a s b s₁ hs hb
    obtain ⟨hs₂, hPs⟩ := ih hs₁ hbs'
    exact ⟨hs₂, .cons hP hPs⟩

/-! ## What every link does -/

/-- The action leads from a state to a related one, whether it is answered or refused. -/
def Within (R : State σ → State σ → Prop) (x : Action σ α) : Prop := ∀ s, R s (x s).2

/-- A relation that chains, and to which the environment is nothing. -/
structure Chains (R : State σ → State σ → Prop) : Prop where
  trans {s s' s'' : State σ} : R s s' → R s' s'' → R s s''
  env (s : State σ) (env : Environment) : R s { s with env }

namespace Within

variable {R : State σ → State σ → Prop}

/-- A sequence leads to a related state if its parts do. -/
theorem bind (hR : Chains R) {x : Action σ α} {f : α → Action σ β} (hx : Within R x)
    (hf : ∀ a, Within R (f a)) : Within R (x >>= f) := by
  intro s
  have hs := hx s
  cases hxs : x s with
  | mk result s' =>
    rw [hxs] at hs
    cases result with
    | error e =>
      rw [run_bind_error hxs]
      exact hs
    | ok a =>
      rw [run_bind_ok hxs]
      exact hR.trans hs (hf a s')

theorem pure (hR : Chains R) (a : α) : Within R (pure a : Action σ α) := fun s => hR.env s s.env

/-- A refusal stays where it is. -/
theorem throw (hR : Chains R) (e : DeviceError) : Within R (throw e : Action σ α) :=
  fun s => hR.env s s.env

theorem draw (hR : Chains R) (f : Environment → α × Environment) :
    Within R (draw f : Action σ α) := fun s => hR.env s _

theorem tryDraw (hR : Chains R) (refuse : ε → DeviceError)
    (f : Environment → Except ε α × Environment) : Within R (tryDraw refuse f : Action σ α) :=
  fun s => hR.env s _

theorem attempt (hR : Chains R) (refuse : ε → DeviceError) (result : Except ε α) :
    Within R (attempt refuse result : Action σ α) := fun s => hR.env s s.env

theorem now (hR : Chains R) : Within R (now : Action σ UInt64) := fun s => hR.env s s.env

/-- An action on each of a list leads to a related state if it does on one. -/
theorem mapM (hR : Chains R) {f : α → Action σ β} (hf : ∀ a, Within R (f a)) (as : List α) :
    Within R (as.mapM f) := by
  induction as with
  | nil =>
    rw [List.mapM_nil]
    exact pure hR []
  | cons a as ih =>
    rw [List.mapM_cons]
    exact bind hR (hf a) fun b => bind hR ih fun bs => pure hR (b :: bs)

theorem forM (hR : Chains R) {f : α → Action σ PUnit} (hf : ∀ a, Within R (f a)) (as : List α) :
    Within R (as.forM f) := by
  induction as with
  | nil => exact pure hR _
  | cons a as ih => exact bind hR (hf a) fun _ => ih

end Within

/-- The action takes no time. -/
def KeepsClock (x : Action σ α) : Prop := ∀ s, (x s).2.env.clock = s.env.clock

namespace KeepsClock

/-- A sequence takes no time if its parts take none. -/
theorem bind {x : Action σ α} {f : α → Action σ β} (hx : KeepsClock x)
    (hf : ∀ a, KeepsClock (f a)) : KeepsClock (x >>= f) := by
  intro s
  have hs := hx s
  cases hxs : x s with
  | mk result s' =>
    rw [hxs] at hs
    cases result with
    | error e =>
      rw [run_bind_error hxs]
      exact hs
    | ok a =>
      rw [run_bind_ok hxs]
      exact (hf a s').trans hs

theorem pure (a : α) : KeepsClock (pure a : Action σ α) := fun _ => rfl

theorem throw (e : DeviceError) : KeepsClock (throw e : Action σ α) := fun _ => rfl

theorem attempt (refuse : ε → DeviceError) (result : Except ε α) :
    KeepsClock (attempt refuse result : Action σ α) := fun _ => rfl

/-- Drawing takes no time if the generator takes none. -/
theorem draw {f : Environment → α × Environment} (h : ∀ env, (f env).2.clock = env.clock) :
    KeepsClock (draw f : Action σ α) := fun s => h s.env

/-- A call of the store takes no time. -/
theorem ask [Store σ] (request : Store.Request α) : KeepsClock (ask request : Action σ α) :=
  fun _ => rfl

/-- Asking for our bundle takes no time. -/
theorem currentBundle [Store σ] : KeepsClock (currentBundle : Action σ Bundle) := by
  refine .bind (.ask _) fun answer => ?_
  cases answer with
  | none => exact .throw _
  | some bundle => exact .pure bundle

end KeepsClock

variable [Store σ]

/-- Asking for our bundle leads where its query does. -/
theorem Within.currentBundle {R : State σ → State σ → Prop} (hR : Chains R)
    (hquery : Within R (ask (.current : Store.Request (Option Bundle)))) :
    Within R (currentBundle : Action σ Bundle) := by
  refine Within.bind hR hquery fun answer => ?_
  cases answer with
  | none => exact .throw hR _
  | some bundle => exact .pure hR bundle

/-! ## Calls of a lawful store -/

variable [LawfulStore σ]

/-- What is stored in a state. -/
def State.records (s : State σ) : Records := LawfulStore.records s.store

/-- No call of the store will be refused. -/
def State.Healthy (s : State σ) : Prop := LawfulStore.Healthy s.store

/-- A call is answered from the records and updates them, or it is refused and changes nothing. -/
theorem ask_cases (request : Store.Request α) (s : State σ) :
    (∃ s', ask request s = (.ok (s.records.answer request).1, s') ∧
      s'.records = (s.records.answer request).2 ∧ s'.env = s.env ∧
      s'.unpublished = s.unpublished ∧ (s.Healthy → s'.Healthy)) ∨
    (¬ s.Healthy ∧ ∃ cause s', ask request s = (.error (.store cause), s') ∧
      s'.records = s.records ∧ s'.env = s.env ∧ s'.unpublished = s.unpublished) := by
  rcases LawfulStore.call_cases request s.store with
    ⟨hok, hrecords, hhealthy⟩ | ⟨hno, ⟨cause, herror⟩, hrecords⟩
  · refine .inl ⟨{ s with store := (Store.call request s.store).2 }, ?_, hrecords, rfl, rfl,
      hhealthy⟩
    show ((Store.call request s.store).1.mapError _, _) = _
    rw [hok]
    rfl
  · refine .inr ⟨hno, cause, { s with store := (Store.call request s.store).2 }, ?_, hrecords, rfl,
      rfl⟩
    show ((Store.call request s.store).1.mapError _, _) = _
    rw [herror]
    rfl

/-- The answer to a call, and what the call has changed. -/
theorem ask_ok {request : Store.Request α} {s s' : State σ} {a : α}
    (h : ask request s = (.ok a, s')) :
    a = (s.records.answer request).1 ∧ s'.records = (s.records.answer request).2 ∧
      s'.env = s.env ∧ s'.unpublished = s.unpublished := by
  rcases ask_cases request s with ⟨s₁, hok, hrecords, henv, hflag, -⟩ | ⟨-, cause, s₁, herror, -⟩
  · rw [hok] at h
    obtain ⟨ha, rfl⟩ := Prod.mk.inj h
    exact ⟨(Except.ok.inj ha).symm, hrecords, henv, hflag⟩
  · rw [herror] at h
    exact nomatch (Prod.mk.inj h).1

/-- A call relates what is stored before and after it as its answer does, if a refusal may. -/
theorem ask_within {P : Records → Records → Prop} (hrefl : ∀ r, P r r) {request : Store.Request α}
    (hanswer : ∀ r : Records, P r (r.answer request).2) :
    Within (fun s s' => P s.records s'.records) (ask request : Action σ α) := by
  intro s
  rcases ask_cases request s with ⟨s', hok, hrecords, -⟩ | ⟨-, cause, s', herror, hrecords, -⟩
  · rw [hok]
    show P s.records s'.records
    rw [hrecords]
    exact hanswer s.records
  · rw [herror]
    show P s.records s'.records
    rw [hrecords]
    exact hrefl s.records

/-- What is stored, and whether the bundle is still to be published, are as they were. -/
def Keeps (s s' : State σ) : Prop := s'.records = s.records ∧ s'.unpublished = s.unpublished

theorem Keeps.refl (s : State σ) : Keeps s s := ⟨rfl, rfl⟩

theorem Keeps.trans {s s' s'' : State σ} (h : Keeps s s') (h' : Keeps s' s'') : Keeps s s'' :=
  ⟨h'.1.trans h.1, h'.2.trans h.2⟩

/-- A refused call keeps what is stored. -/
theorem ask_error {request : Store.Request α} {s s' : State σ} {e : DeviceError}
    (h : ask request s = (.error e, s')) : Keeps s s' := by
  rcases ask_cases request s with ⟨s₁, hok, -⟩ | ⟨-, cause, s₁, herror, hrecords, -, hflag⟩
  · rw [hok] at h
    exact nomatch (Prod.mk.inj h).1
  · rw [herror] at h
    obtain ⟨-, rfl⟩ := Prod.mk.inj h
    exact ⟨hrecords, hflag⟩

/-! ## Actions that only read -/

/-- A request whose answer changes nothing. -/
def IsQuery (request : Store.Request α) : Prop := ∀ r : Records, (r.answer request).2 = r

theorem isQuery_current : IsQuery .current := fun _ => rfl
theorem isQuery_devices (peer : String) : IsQuery (.devices peer) := fun _ => rfl
theorem isQuery_bundle (device : DeviceId) : IsQuery (.bundle device) := fun _ => rfl
theorem isQuery_session (device : DeviceId) : IsQuery (.session device) := fun _ => rfl

/-- Reading keeps what is stored. -/
theorem keeps_chains : Chains (Keeps (σ := σ)) := ⟨.trans, fun _ _ => ⟨rfl, rfl⟩⟩

/-- A query changes nothing, whether it is answered or refused. -/
theorem query_keeps {request : Store.Request α} (hquery : IsQuery request) :
    Within Keeps (ask request : Action σ α) := by
  intro s
  rcases ask_cases request s with ⟨s', hok, hrecords, -, hflag, -⟩ |
    ⟨-, cause, s', herror, hrecords, -, hflag⟩
  · rw [hok]
    exact ⟨hrecords.trans (hquery _), hflag⟩
  · rw [herror]
    exact ⟨hrecords, hflag⟩

/-- A healthy store stays healthy. -/
def StaysHealthy (s s' : State σ) : Prop := s.Healthy → s'.Healthy

/-- Staying healthy chains, and the environment is nothing to it. -/
theorem staysHealthy_chains : Chains (StaysHealthy (σ := σ)) :=
  ⟨fun h h' hs => h' (h hs), fun _ _ hs => hs⟩

/-- No call makes a healthy store unhealthy. -/
theorem ask_staysHealthy (request : Store.Request α) :
    Within StaysHealthy (ask request : Action σ α) := by
  intro s
  rcases ask_cases request s with ⟨s', hok, -, -, -, hhealthy⟩ | ⟨hno, -⟩
  · rw [hok]
    exact hhealthy
  · exact fun h => absurd h hno

/-- A query is answered from the records. -/
theorem query_ok {request : Store.Request α} (hquery : IsQuery request) {s s' : State σ} {a : α}
    (h : ask request s = (.ok a, s')) : a = (s.records.answer request).1 ∧ Keeps s s' := by
  obtain ⟨ha, hrecords, -, hflag⟩ := ask_ok h
  exact ⟨ha, hrecords.trans (hquery _), hflag⟩

/-- The bundle that is given is the one that is stored. -/
theorem currentBundle_ok {s s' : State σ} {bundle : Bundle}
    (h : currentBundle s = (.ok bundle, s')) : s.records.current = some bundle ∧ Keeps s s' := by
  obtain ⟨answer, s₁, hask, h⟩ := bind_run_ok h
  obtain ⟨rfl, hkeeps⟩ := query_ok isQuery_current hask
  have hanswer : (s.records.answer .current).1 = s.records.current := rfl
  rw [hanswer] at h
  cases hcurrent : s.records.current with
  | none =>
    rw [hcurrent] at h
    exact nomatch (Prod.mk.inj h).1
  | some b =>
    rw [hcurrent] at h
    obtain ⟨hb, rfl⟩ := Prod.mk.inj h
    exact ⟨congrArg some (Except.ok.inj hb), hkeeps⟩

/-- A call was refused on the way, and what is stored is as it was. -/
def Refused (x : Action σ α) (s : State σ) : Prop :=
  ¬ s.Healthy ∧ ∃ cause s', x s = (.error (.store cause), s') ∧ Keeps s s'

/-- The action answers as said and changes nothing that is stored, or a call is refused on the way.
-/
def Reads (x : Action σ α) (s : State σ) (P : α → Prop) : Prop :=
  (∃ a s', x s = (.ok a, s') ∧ P a ∧ Keeps s s' ∧ (s.Healthy → s'.Healthy)) ∨ Refused x s

namespace Reads

variable {s : State σ} {P : α → Prop} {Q : β → Prop}

/-- What reads and then reads on has read, if the second says so of every first answer. -/
theorem bind {x : Action σ α} {f : α → Action σ β} (hx : Reads x s P)
    (hf : ∀ a s', P a → Keeps s s' → Reads (f a) s' Q) : Reads (x >>= f) s Q := by
  rcases hx with ⟨a, s', hok, ha, hkeeps, hhealthy⟩ | ⟨hno, cause, s', herror, hkeeps⟩
  · rcases hf a s' ha hkeeps with ⟨b, s'', hok', hb, hkeeps', hhealthy'⟩ |
      ⟨hno, cause, s'', h, hkeeps'⟩
    · exact .inl ⟨b, s'', (run_bind_ok hok).trans hok', hb, hkeeps.trans hkeeps',
        fun h => hhealthy' (hhealthy h)⟩
    · exact .inr ⟨fun h => hno (hhealthy h), cause, s'', (run_bind_ok hok).trans h,
        hkeeps.trans hkeeps'⟩
  · exact .inr ⟨hno, cause, s', run_bind_error herror, hkeeps⟩

theorem pure {a : α} (h : P a) : Reads (pure a : Action σ α) s P :=
  .inl ⟨a, s, rfl, h, .refl s, fun h => h⟩

/-- A query reads what the records answer. -/
theorem ask {request : Store.Request α} (hquery : IsQuery request)
    (h : P (s.records.answer request).1) : Reads (ask request) s P := by
  rcases ask_cases request s with ⟨s', hok, hrecords, -, hflag, hhealthy⟩ |
    ⟨hno, cause, s', herror, hrecords, -, hflag⟩
  · exact .inl ⟨_, s', hok, h, ⟨hrecords.trans (hquery _), hflag⟩, hhealthy⟩
  · exact .inr ⟨hno, cause, s', herror, hrecords, hflag⟩

/-- An attempt reads what its result is. -/
theorem attempt {refuse : ε → DeviceError} {result : Except ε α} {a : α} (hresult : result = .ok a)
    (h : P a) : Reads (attempt refuse result : Action σ α) s P := by
  subst hresult
  exact .inl ⟨a, s, rfl, h, .refl s, fun h => h⟩

/-- Drawing changes nothing that is stored. -/
theorem draw {f : Environment → α × Environment} (h : P (f s.env).1) :
    Reads (draw f : Action σ α) s P :=
  .inl ⟨_, _, rfl, h, ⟨rfl, rfl⟩, fun h => h⟩

/-- Asking for our bundle reads it. -/
theorem currentBundle {bundle : Bundle} {P : Bundle → Prop}
    (hcurrent : s.records.current = some bundle) (h : P bundle) :
    Reads (currentBundle : Action σ Bundle) s P := by
  refine (ask (P := (· = some bundle)) isQuery_current hcurrent).bind ?_
  rintro answer s' rfl -
  exact .pure h

end Reads

end EndToEnd.Device
