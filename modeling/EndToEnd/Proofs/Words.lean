/-!
# Counting in words

Positions of a chain and numbers of one-time keys are words of 32 bits. A word that is not the last
one has a next one; behind the last one comes zero, so as many steps as there are words lead back to
the same word.
-/

namespace EndToEnd.Word

variable {a b : UInt32}

/-- A word that is not the last one is in front of it. -/
theorem toNat_lt_of_ne (h : a ≠ 0xffffffff) : a.toNat < 4294967295 := by
  have hne : a.toNat ≠ 4294967295 := fun hlast => h (UInt32.toNat_inj.mp hlast)
  have hlt := a.toNat_lt
  omega

/-- Behind a word that is not the last one comes a larger one. -/
theorem toNat_succ (h : a ≠ 0xffffffff) : (a + 1).toNat = a.toNat + 1 := by
  have hlt := toNat_lt_of_ne h
  rw [UInt32.toNat_add, UInt32.toNat_one]
  exact Nat.mod_eq_of_lt (by omega)

/-- No word is larger than the last one. -/
theorem toNat_le_of_last (hlast : a = 0xffffffff) : b.toNat ≤ a.toNat := by
  rw [hlast]
  exact Nat.le_of_lt_succ b.toNat_lt

theorem add_ofNat_succ (a : UInt32) (n : Nat) : a + 1 + .ofNat n = a + .ofNat (n + 1) := by
  rw [UInt32.ofNat_add, UInt32.add_assoc, UInt32.add_comm 1]
  rfl

/-- Steps from a word are counted around. -/
theorem toNat_add_ofNat (a : UInt32) (n : Nat) :
    (a + .ofNat n).toNat = (a.toNat + n) % UInt32.size := by
  show (a.toNat + n % 4294967296) % 4294967296 = (a.toNat + n) % 4294967296
  omega

end EndToEnd.Word
