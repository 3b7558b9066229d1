import EndToEnd.Decimal.Shortest
import EndToEnd.Store.Request

/-!
# Failing stores

A store whose calls fail as planned: a failing call does nothing but count. Laws about failures hold
for every plan; `FailurePlan.random` is one that fails at a rate, and the same way for the same
seed.
-/

namespace EndToEnd

/-- A plan of failures: whether the call with a number fails. -/
abbrev FailurePlan := Nat → Bool

/-- A store, the plan by which its calls fail, and the number of calls so far. -/
structure Faulty (σ : Type) where
  inner : σ
  plan : FailurePlan
  calls : Nat := 0

namespace Faulty

/-- A request is refused if the plan says so, and handed on otherwise. -/
def answer {σ α : Type} [Store σ] (request : Store.Request α) (f : Faulty σ) :
    Except Store.Error α × Faulty σ :=
  let counted := { f with calls := f.calls + 1 }
  if f.plan f.calls then (.error .injected, counted)
  else
    let (value, inner) := Store.call request f.inner
    (value, { counted with inner })

/-- A failing call changes nothing in the store. -/
theorem answer_of_fails {σ α : Type} [Store σ] {request : Store.Request α} {f : Faulty σ}
    (h : f.plan f.calls = true) :
    f.answer request = (.error .injected, { f with calls := f.calls + 1 }) := by
  rw [answer, if_pos h]

end Faulty

instance {σ : Type} [Store σ] : Store (Faulty σ) where
  call request f := f.answer request

/-! ## Failing at a rate -/

/-- A rate of failures: how many of `2³²` numbers mean a failure. -/
structure FailureRate where
  threshold : Nat
deriving DecidableEq

namespace FailureRate

/-- Why a number is no rate. -/
structure OutOfRange where
  rate : Float

/-- The text of the refusal. -/
def OutOfRange.message (e : OutOfRange) : String :=
  "failure_rate must be between 0.0 and 1.0, got " ++ Decimal.text e.rate

/-- A number from zero to one as a rate. -/
def ofFloat (rate : Float) : Except OutOfRange FailureRate :=
  if 0.0 ≤ rate ∧ rate ≤ 1.0 then .ok ⟨(rate * 4294967296.0).ceil.toUInt64.toNat⟩
  else .error ⟨rate⟩

end FailureRate

namespace FailurePlan

/-- A sequence of pseudorandom numbers: the multiplier and the increment make every residue come up.
-/
def noise (seed : UInt32) : Nat → UInt32
  | 0 => 1664525 * seed + 1013904223
  | n + 1 => 1664525 * noise seed n + 1013904223

/-- The seed if none is given. -/
def defaultSeed : UInt64 := 0x123456789abcdef0

/-- Failures at a rate, the same for the same seed: only the low half of the seed counts. -/
def random (rate : FailureRate) (seed : UInt64) : FailurePlan :=
  fun call => (noise seed.toUInt32 call).toNat < rate.threshold

end FailurePlan

end EndToEnd
