import EndToEnd.Store.Faulty
import EndToEnd.Store.Memory
import Mathlib.Logic.Function.Basic

/-!
# Lawful stores

What a store is worth to a device is in its records: one function for each kind of request. A store
is lawful if every call is answered from the records and updates them, or is refused and changes
none of them, and if it refuses no call while it is healthy.

The store in memory is lawful and always healthy. A lawful store that is made to fail by a plan is
lawful, and healthy as long as the plan has no failure left.
-/

namespace EndToEnd

/-- What a device has stored. -/
structure Records where
  current : Option Bundle
  devices : String → List DeviceId
  bundle : DeviceId → Option Bundle
  session : DeviceId → Option Session

namespace Records

/-- The records with the session with a device replaced. -/
def withSession (r : Records) (device : DeviceId) (session : Session) : Records :=
  { r with session := Function.update r.session device (some session) }

@[simp] theorem session_withSession_self (r : Records) (device : DeviceId) (session : Session) :
    (r.withSession device session).session device = some session :=
  Function.update_self _ _ _

/-- The sessions with other devices stay. -/
theorem session_withSession_of_ne (r : Records) {device other : DeviceId} (session : Session)
    (h : other ≠ device) : (r.withSession device session).session other = r.session other :=
  Function.update_of_ne h _ _

/-- The records with our own bundle replaced. -/
def withCurrent (r : Records) (bundle : Bundle) : Records := { r with current := some bundle }

open Store in
/-- What the records answer to a request, and what they are after it. -/
def answer {α : Type} : Request α → Records → α × Records
  | .current, r => (r.current, r)
  | .saveCurrent bundle, r => ((), r.withCurrent bundle)
  | .devices peer, r => (r.devices peer, r)
  | .saveDevice peer device, r =>
    ((), { r with
      devices := Function.update r.devices peer (Memory.addDevice (r.devices peer) device) })
  | .bundle device, r => (r.bundle device, r)
  | .saveBundle device bundle, r =>
    ((), { r with bundle := Function.update r.bundle device (some bundle) })
  | .session device, r => (r.session device, r)
  | .saveSession device session, r => ((), r.withSession device session)

end Records

/-- A store that answers from its records, or refuses and keeps them. -/
class LawfulStore (σ : Type) [Store σ] where
  records : σ → Records
  /-- No call will be refused. -/
  Healthy : σ → Prop
  call_cases {α : Type} (request : Store.Request α) (s : σ) :
    ((Store.call request s).1 = .ok ((records s).answer request).1 ∧
      records (Store.call request s).2 = ((records s).answer request).2 ∧
      (Healthy s → Healthy (Store.call request s).2)) ∨
    (¬ Healthy s ∧ (∃ cause, (Store.call request s).1 = .error cause) ∧
      records (Store.call request s).2 = records s)

/-! ## The store in memory -/

namespace Memory

/-- The records of the store in memory. -/
def records (m : Memory) : Records := ⟨m.current, m.devicesOf, m.bundles.get?, m.sessions.get?⟩

/-- Putting a value into a table updates it at its key. -/
theorem get?_put_eq_update {κ ν : Type} [DecidableEq κ] (t : Table κ ν) (key : κ) (value : ν) :
    (t.put key value).get? = Function.update t.get? key (some value) := by
  funext key'
  rw [Table.get?_put, Function.update_apply]

/-- The store in memory answers as its records do. -/
theorem answer_records {α : Type} (request : Store.Request α) (m : Memory) :
    (m.answer request).1 = (m.records.answer request).1 ∧
      (m.answer request).2.records = (m.records.answer request).2 := by
  cases request with
  | saveDevice peer device =>
    refine ⟨rfl, ?_⟩
    simp only [answer, records, Records.answer, Records.mk.injEq, true_and, and_true]
    funext other
    simp only [devicesOf, Table.get?_put, Function.update_apply]
    split <;> rfl
  | saveBundle device bundle =>
    exact ⟨rfl, by simp only [answer, records, Records.answer, get?_put_eq_update]; rfl⟩
  | saveSession device session =>
    exact ⟨rfl, by simp only [answer, records, Records.answer, get?_put_eq_update]; rfl⟩
  | _ => exact ⟨rfl, rfl⟩

end Memory

instance : LawfulStore Memory where
  records := Memory.records
  Healthy _ := True
  call_cases request m :=
    .inl ⟨congrArg Except.ok (m.answer_records request).1, (m.answer_records request).2,
      fun _ => trivial⟩

/-! ## Failing stores -/

namespace Faulty

variable {σ : Type} [Store σ] [LawfulStore σ]

/-- The plan has no failure left, and the store inside is healthy. -/
def Healthy (f : Faulty σ) : Prop :=
  (∀ call, f.calls ≤ call → f.plan call = false) ∧ LawfulStore.Healthy f.inner

/-- A planned failure is a refusal that keeps the records; any other call is the inner store's. -/
theorem answer_cases {α : Type} (request : Store.Request α) (f : Faulty σ) :
    ((f.answer request).1 = .ok ((LawfulStore.records f.inner).answer request).1 ∧
      LawfulStore.records (f.answer request).2.inner =
        ((LawfulStore.records f.inner).answer request).2 ∧
      (f.Healthy → (f.answer request).2.Healthy)) ∨
    (¬ f.Healthy ∧ (∃ cause, (f.answer request).1 = .error cause) ∧
      LawfulStore.records (f.answer request).2.inner = LawfulStore.records f.inner) := by
  cases hplan : f.plan f.calls with
  | true =>
    refine .inr ⟨fun h => ?_, ?_⟩
    · rw [h.1 f.calls (Nat.le_refl _)] at hplan
      exact nomatch hplan
    · rw [answer_of_fails hplan]
      exact ⟨⟨_, rfl⟩, rfl⟩
  | false =>
    have hanswer : f.answer request = ((Store.call request f.inner).1,
        { f with calls := f.calls + 1, inner := (Store.call request f.inner).2 }) := by
      rw [answer, if_neg (by rw [hplan]; exact Bool.false_ne_true)]
    rw [hanswer]
    rcases LawfulStore.call_cases request f.inner with ⟨hok, hrecords, hhealthy⟩ | ⟨hno, hrest⟩
    · exact .inl ⟨hok, hrecords, fun h => ⟨fun call hcall => h.1 call (Nat.le_of_succ_le hcall),
        hhealthy h.2⟩⟩
    · exact .inr ⟨fun h => hno h.2, hrest⟩

end Faulty

instance {σ : Type} [Store σ] [LawfulStore σ] : LawfulStore (Faulty σ) where
  records f := LawfulStore.records f.inner
  Healthy := Faulty.Healthy
  call_cases request f := Faulty.answer_cases request f

end EndToEnd
