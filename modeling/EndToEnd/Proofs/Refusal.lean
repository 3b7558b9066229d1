import Mathlib.Logic.Basic

/-!
# Operations that may be refused

What a successful chain of operations says of its links. Every operation of this library that can be
refused is such a chain, so these are the steps by which its laws take it apart.
-/

namespace EndToEnd

variable {ε ε' α β γ δ : Type}

/-- A chain that succeeds has a first link that does, and then the rest. -/
theorem bind_eq_ok {x : Except ε α} {f : α → Except ε β} {b : β} :
    (x >>= f) = .ok b ↔ ∃ a, x = .ok a ∧ f a = .ok b := by
  cases x with
  | error e => exact ⟨fun h => (nomatch h), fun ⟨_, h, _⟩ => (nomatch h)⟩
  | ok a => exact ⟨fun h => ⟨a, rfl, h⟩, fun ⟨_, ha, h⟩ => Except.ok.inj ha ▸ h⟩

/-- A sequence goes on with the answer. -/
theorem ok_bind (a : α) (f : α → Except ε β) : ((Except.ok a : Except ε α) >>= f) = f a := rfl

/-- A sequence ends with the refusal. -/
theorem error_bind (e : ε) (f : α → Except ε β) :
    ((Except.error e : Except ε α) >>= f) = .error e := rfl

/-- What is made of an answer is an answer made of one. -/
theorem map_eq_ok {x : Except ε α} {f : α → β} {b : β} :
    x.map f = .ok b ↔ ∃ a, x = .ok a ∧ f a = b := by
  cases x with
  | error e => exact ⟨fun h => (nomatch h), fun ⟨_, h, _⟩ => (nomatch h)⟩
  | ok a => exact ⟨fun h => ⟨a, rfl, Except.ok.inj h⟩,
      fun ⟨_, ha, h⟩ => Except.ok.inj ha ▸ congrArg Except.ok h⟩

/-- A chain that is refused has a link that is. -/
theorem bind_eq_error {x : Except ε α} {f : α → Except ε β} {e : ε} :
    (x >>= f) = .error e ↔ x = .error e ∨ ∃ a, x = .ok a ∧ f a = .error e := by
  cases x with
  | error e' => exact ⟨fun h => .inl (congrArg Except.error (Except.error.inj h)),
      fun h => h.elim (fun h => congrArg Except.error (Except.error.inj h))
        fun ⟨_, ha, _⟩ => (nomatch ha)⟩
  | ok a => exact ⟨fun h => .inr ⟨a, rfl, h⟩,
      fun h => h.elim (fun h => (nomatch h)) fun ⟨_, ha, h⟩ => Except.ok.inj ha ▸ h⟩

/-- Another name for the refusal does not change what succeeds. -/
theorem mapError_eq_ok {x : Except ε α} {f : ε → ε'} {a : α} :
    x.mapError f = .ok a ↔ x = .ok a := by
  cases x with
  | error e => exact ⟨fun h => (nomatch h), fun h => (nomatch h)⟩
  | ok b => exact ⟨fun h => Except.ok.inj h ▸ rfl, fun h => Except.ok.inj h ▸ rfl⟩

/-- A refusal that is renamed is the name of a refusal. -/
theorem mapError_eq_error {x : Except ε α} {f : ε → ε'} {e : ε'} :
    x.mapError f = .error e ↔ ∃ cause, x = .error cause ∧ f cause = e := by
  cases x with
  | error cause => exact ⟨fun h => ⟨cause, rfl, Except.error.inj h⟩,
      fun ⟨_, ha, h⟩ => Except.error.inj ha ▸ congrArg Except.error h⟩
  | ok a => exact ⟨fun h => (nomatch h), fun ⟨_, ha, _⟩ => (nomatch ha)⟩

@[simp] theorem mapError_ok (a : α) (f : ε → ε') : (Except.ok a : Except ε α).mapError f = .ok a :=
  rfl

@[simp] theorem mapError_error (e : ε) (f : ε → ε') :
    (Except.error e : Except ε α).mapError f = .error (f e) := rfl

/-- Every refusal is as said. -/
def RefusesOnly (P : ε → Prop) (x : Except ε α) : Prop := ∀ cause, x = .error cause → P cause

namespace RefusesOnly

variable {P : ε → Prop} {x y : Except ε α}

/-- An answer is no refusal. -/
theorem ok (a : α) : RefusesOnly P (.ok a : Except ε α) := nofun

theorem error {cause : ε} (h : P cause) : RefusesOnly P (.error cause : Except ε α) := by
  intro cause' hcause
  cases hcause
  exact h

/-- A chain is refused by its first link, or by the rest. -/
theorem bind {f : α → Except ε β} (hx : RefusesOnly P x)
    (hf : ∀ a, x = .ok a → RefusesOnly P (f a)) : RefusesOnly P (x >>= f) := by
  intro cause hcause
  rcases bind_eq_error.mp hcause with hfirst | ⟨a, ha, hrest⟩
  · exact hx cause hfirst
  · exact hf a ha cause hrest

/-- What is said of the renamed refusals is said of the causes first. -/
theorem mapError {refuse : ε' → ε} {x : Except ε' α}
    (hx : RefusesOnly (fun cause => P (refuse cause)) x) : RefusesOnly P (x.mapError refuse) := by
  intro cause hcause
  obtain ⟨cause', hcause', rfl⟩ := mapError_eq_error.mp hcause
  exact hx cause' hcause'

/-- A choice refuses as the branch does that is taken. -/
theorem ite {c : Prop} [Decidable c] (hx : c → RefusesOnly P x) (hy : ¬c → RefusesOnly P y) :
    RefusesOnly P (if c then x else y) := by
  by_cases h : c
  · rw [if_pos h]
    exact hx h
  · rw [if_neg h]
    exact hy h

end RefusesOnly

/-! ## Results that match -/

/-- Two operations are refused for the same cause, or both answer, and their answers are related. -/
inductive Matches (P : α → β → Prop) : Except ε α → Except ε β → Prop
  | error (cause : ε) : Matches P (.error cause) (.error cause)
  | ok {a : α} {b : β} (h : P a b) : Matches P (.ok a) (.ok b)

namespace Matches

variable {P : α → β → Prop} {Q : γ → δ → Prop}

theorem refl (x : Except ε α) : Matches Eq x x := by
  cases x with
  | error cause => exact .error cause
  | ok a => exact .ok rfl

/-- Operations that match, followed by operations that match, do so together. -/
theorem bind {x : Except ε α} {y : Except ε β} {f : α → Except ε γ} {g : β → Except ε δ}
    (hx : Matches P x y) (hf : ∀ a b, P a b → Matches Q (f a) (g b)) :
    Matches Q (x >>= f) (y >>= g) := by
  cases hx with
  | error cause => exact .error cause
  | ok h => exact hf _ _ h

theorem mapError {x : Except ε α} {y : Except ε β} (h : Matches P x y) (f : ε → ε') :
    Matches P (x.mapError f) (y.mapError f) := by
  cases h with
  | error cause => exact .error (f cause)
  | ok h => exact .ok h

end Matches

section Checking

variable {x : Except ε α} {P : α → Prop} [DecidablePred P]

/-- What holds of the result, if there is one, can be checked. -/
instance decidableForallOk : Decidable (∀ a, x = .ok a → P a) :=
  match x with
  | .error _ => isTrue nofun
  | .ok a => decidable_of_iff (P a) ⟨fun h _ ha => Except.ok.inj ha ▸ h, fun h => h a rfl⟩

/-- That there is a result, and what holds of it, can be checked. -/
instance decidableExistsOk : Decidable (∃ a, x = .ok a ∧ P a) :=
  match x with
  | .error _ => isFalse fun ⟨_, h, _⟩ => nomatch h
  | .ok a => decidable_of_iff (P a) ⟨fun h => ⟨a, rfl, h⟩, fun ⟨_, ha, h⟩ => Except.ok.inj ha ▸ h⟩

end Checking

end EndToEnd
