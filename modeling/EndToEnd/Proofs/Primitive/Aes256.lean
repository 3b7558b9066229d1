import EndToEnd.Proofs.Primitive.Chaining
import Mathlib

/-!
# AES-256 undone

Every part of a round has its inverse: the substitution by its table, the shift of the rows by the
shift back, the mixing of a column by mixing it three times more, and adding a round key by adding it
again. So decryption undoes the rounds one after the other, under every key.

Doubling works on four bytes at once by a product that never carries, so it is linear; that mixing
four times changes nothing follows from this alone.

Main statements:

- `unmixColumn_mixColumn`: a column mixed and unmixed;
- `cipher_undoes`: decryption undoes encryption;
- `Suite.standard_cipherUndoes`: so the suite of the protocol has what its laws ask of a cipher.
-/

namespace EndToEnd

namespace Aes256

variable {v w : UInt32} {i : Nat}

/-! ## Rows -/

theorem row₀_column (a b c d : UInt8) : (column a b c d >>> 24).toUInt8 = a := by
  apply UInt8.toBitVec_inj.mp
  ext i hi
  simp [column]
  grind

theorem row₁_column (a b c d : UInt8) : (column a b c d >>> 16).toUInt8 = b := by
  apply UInt8.toBitVec_inj.mp
  ext i hi
  simp [column]
  grind

theorem row₂_column (a b c d : UInt8) : (column a b c d >>> 8).toUInt8 = c := by
  apply UInt8.toBitVec_inj.mp
  ext i hi
  simp [column]
  grind

theorem row₃_column (a b c d : UInt8) : (column a b c d).toUInt8 = d := by
  apply UInt8.toBitVec_inj.mp
  ext i hi
  simp [column]

/-- A column is made of its rows. -/
theorem column_rows (w : UInt32) :
    column (w >>> 24).toUInt8 (w >>> 16).toUInt8 (w >>> 8).toUInt8 w.toUInt8 = w := by
  apply UInt32.toBitVec_inj.mp
  ext i hi
  simp [column, -UInt32.toUInt32_toUInt8]
  grind

/-- The bytes of a column are its rows, from the highest on. -/
theorem columnBytes_column (a b c d : UInt8) : columnBytes (column a b c d) = [a, b, c, d] := by
  rw [columnBytes, row₀_column, row₁_column, row₂_column, row₃_column]

/-! ## Substitution -/

/-- The second table undoes the first. -/
theorem unsubstitute_substitute (b : UInt8) : unsubstitute (substitute b) = b := by
  have htables : ∀ i : Fin 256,
      (inverseSubstitution.get (substitution.get i).toFin).toFin = i := by
    decide +kernel
  exact UInt8.toFin_inj.mp (htables b.toFin)

/-- The shift back takes every row to the column that it came from. -/
theorem unsubstituteShift_substituteShift (s : Columns) :
    s.substituteShift.unsubstituteShift = s := by
  simp only [Columns.substituteShift, Columns.unsubstituteShift, gather, row₀_column, row₁_column,
    row₂_column, row₃_column, unsubstitute_substitute, column_rows]

/-! ## Doubling -/

/-- The first mask has the lowest bit of every byte. -/
theorem getLsbD_lowest (i : Nat) : (0x01010101#32).getLsbD i = decide (i < 32 ∧ i % 8 = 0) := by
  have hbits : ∀ j : Fin 32, (0x01010101#32).getLsbD j = decide (j.val % 8 = 0) := by decide
  by_cases hi : i < 32
  · simpa [hi] using hbits ⟨i, hi⟩
  · rw [BitVec.getLsbD_of_ge _ _ (Nat.le_of_not_lt hi), decide_eq_false fun h => hi h.1]

/-- The second mask has all other bits. -/
theorem getLsbD_notLowest (i : Nat) : (0xfefefefe#32).getLsbD i = decide (i < 32 ∧ i % 8 ≠ 0) := by
  have hbits : ∀ j : Fin 32, (0xfefefefe#32).getLsbD j = decide (j.val % 8 ≠ 0) := by decide
  by_cases hi : i < 32
  · simpa [hi] using hbits ⟨i, hi⟩
  · rw [BitVec.getLsbD_of_ge _ _ (Nat.le_of_not_lt hi), decide_eq_false fun h => hi h.1]

/-- The product with the field's polynomial never carries: every byte of the factor is zero or one.
-/
theorem mul_polynomial {h : BitVec 32} (hlowest : ∀ {i} (hi : i < 32), i % 8 ≠ 0 → h[i] = false) :
    h * 0x1b#32 = h ^^^ (h <<< 1) ^^^ (h <<< 3) ^^^ (h <<< 4) := by
  have hsum : h * 0x1b#32 = h + (h <<< 1) + (h <<< 3) + (h <<< 4) := by
    apply BitVec.eq_of_toNat_eq
    simp [Nat.shiftLeft_eq]
    omega
  have hfirst : h &&& (h <<< 1) = 0#32 := by
    ext i hi
    simp
    grind
  have hsecond : (h ||| (h <<< 1)) &&& (h <<< 3) = 0#32 := by
    ext i hi
    simp
    grind
  have hthird : (h ||| (h <<< 1) ||| (h <<< 3)) &&& (h <<< 4) = 0#32 := by
    ext i hi
    simp
    grind
  rw [hsum, BitVec.add_eq_or_of_and_eq_zero _ _ hfirst, BitVec.add_eq_or_of_and_eq_zero _ _ hsecond,
    BitVec.add_eq_or_of_and_eq_zero _ _ hthird]
  ext i hi
  simp
  grind

/-- The double of four bytes, as a sum of shifts and masks. -/
theorem double_eq (w : UInt32) : (double w).toBitVec =
    ((w.toBitVec <<< 1) &&& 0xfefefefe#32) ^^^ (((w.toBitVec >>> 7) &&& 0x01010101#32) ^^^
      (((w.toBitVec >>> 7) &&& 0x01010101#32) <<< 1) ^^^
      (((w.toBitVec >>> 7) &&& 0x01010101#32) <<< 3) ^^^
      (((w.toBitVec >>> 7) &&& 0x01010101#32) <<< 4)) := by
  have hdouble : (double w).toBitVec = ((w.toBitVec <<< 1) &&& 0xfefefefe#32) ^^^
    (((w.toBitVec >>> 7) &&& 0x01010101#32) * 0x1b#32) := rfl
  rw [hdouble, mul_polynomial]
  intro j hj hmod
  rw [BitVec.getElem_and, ← BitVec.getLsbD_eq_getElem (x := 0x01010101#32), getLsbD_lowest,
    decide_eq_false fun h => hmod h.2, Bool.and_false]

/-- Doubling is linear. -/
theorem double_xor (v w : UInt32) : double (v ^^^ w) = double v ^^^ double w := by
  apply UInt32.toBitVec_inj.mp
  rw [UInt32.toBitVec_xor, double_eq, double_eq, double_eq, UInt32.toBitVec_xor]
  have hand (a b mask : BitVec 32) : (a ^^^ b) &&& mask = (a &&& mask) ^^^ (b &&& mask) := by
    ext i hi
    simp [Bool.and_xor_distrib_right]
  simp only [BitVec.shiftLeft_xor_distrib, BitVec.ushiftRight_xor_distrib, hand]
  ac_rfl

/-! ## Mixing -/

/-- Every row moved up by one, the first to the end. -/
def turn (w : UInt32) : UInt32 := rotateLeft w 8

/-- A turn moves every byte up by one place, and the highest to the bottom. -/
theorem getLsbD_turn (w : UInt32) (hi : i < 32) :
    (turn w).toBitVec.getLsbD i = w.toBitVec.getLsbD (if i < 8 then i + 24 else i - 8) := by
  simp [turn, rotateLeft]
  grind

theorem turn_xor (v w : UInt32) : turn (v ^^^ w) = turn v ^^^ turn w := by
  apply UInt32.toBitVec_inj.mp
  ext i hi
  simp [turn, rotateLeft]
  grind

/-- Doubling works on each byte, so it does not matter when the column is turned. -/
theorem double_turn (w : UInt32) : double (turn w) = turn (double w) := by
  apply UInt32.toBitVec_inj.mp
  ext i hi
  rw [← BitVec.getLsbD_eq_getElem, ← BitVec.getLsbD_eq_getElem, getLsbD_turn _ hi, double_eq,
    double_eq]
  simp only [BitVec.getLsbD_xor, BitVec.getLsbD_and, BitVec.getLsbD_shiftLeft,
    BitVec.getLsbD_ushiftRight, getLsbD_lowest, getLsbD_notLowest]
  interval_cases i <;> simp [getLsbD_turn, -BitVec.getLsbD_eq_getElem]

theorem rotateLeft_16 (w : UInt32) : rotateLeft w 16 = turn (turn w) := by
  apply UInt32.toBitVec_inj.mp
  ext i hi
  simp [turn, rotateLeft]
  grind

theorem rotateLeft_24 (w : UInt32) : rotateLeft w 24 = turn (turn (turn w)) := by
  apply UInt32.toBitVec_inj.mp
  ext i hi
  simp [turn, rotateLeft]
  grind

/-- Four turns are none. -/
theorem turn_turn_turn_turn (w : UInt32) : turn (turn (turn (turn w))) = w := by
  apply UInt32.toBitVec_inj.mp
  ext i hi
  simp [turn, rotateLeft]
  grind

/-- What is added twice is gone. -/
theorem xor_xor_cancel (v w : UInt32) : v ^^^ (v ^^^ w) = w := by
  rw [← UInt32.xor_assoc, UInt32.xor_self, UInt32.zero_xor]

theorem xor_left_comm (u v w : UInt32) : u ^^^ (v ^^^ w) = v ^^^ (u ^^^ w) := by
  rw [← UInt32.xor_assoc, UInt32.xor_comm u v, UInt32.xor_assoc]

/-- A mixed column, in terms that are each doubled and turned only. -/
theorem mixColumn_eq (w : UInt32) :
    mixColumn w = double (w ^^^ turn w) ^^^ (turn w ^^^ turn (turn w) ^^^ turn (turn (turn w))) := by
  have hmix : mixColumn w =
      double w ^^^ turn (double w ^^^ w) ^^^ rotateLeft w 16 ^^^ rotateLeft w 24 := rfl
  rw [hmix, rotateLeft_16, rotateLeft_24, turn_xor, double_xor, double_turn]
  simp only [UInt32.xor_assoc]

/-- Mixing twice is the product with the matrix of first row 5, 0, 4, 0. -/
theorem mixColumn_mixColumn (w : UInt32) :
    mixColumn (mixColumn w) = w ^^^ double (double (w ^^^ rotateLeft w 16)) := by
  simp only [mixColumn_eq, rotateLeft_16, double_xor, double_turn, turn_xor, turn_turn_turn_turn]
  -- what is left is a sum in which all terms but three come twice
  simp only [UInt32.xor_assoc, UInt32.xor_comm, xor_left_comm, xor_xor_cancel, UInt32.xor_self]

/-- Unmixing is mixing three times, and mixing four times changes nothing. -/
theorem unmixColumn_mixColumn (w : UInt32) : unmixColumn (mixColumn w) = w := by
  have hunmix : unmixColumn (mixColumn w) =
      mixColumn (mixColumn w ^^^ double (double (mixColumn w ^^^ rotateLeft (mixColumn w) 16))) := rfl
  rw [hunmix, ← mixColumn_mixColumn (mixColumn w), mixColumn_mixColumn, mixColumn_mixColumn]
  simp only [rotateLeft_16, double_xor, double_turn, turn_xor, turn_turn_turn_turn,
    UInt32.xor_comm, xor_left_comm, UInt32.xor_self, UInt32.xor_zero, UInt32.zero_xor]

/-! ## Blocks -/

/-- Mixing a state and then unmixing it gives it back. -/
theorem unmix_mix (s : Columns) : s.mix.unmix = s := by
  simp only [Columns.mix, Columns.unmix, unmixColumn_mixColumn]

theorem xor_key_xor_key (s key : Columns) : (s.xor key).xor key = s := by
  simp only [Columns.xor, UInt32.xor_assoc, UInt32.xor_self, UInt32.xor_zero]

/-- A state is read back from the block that it is written to. -/
theorem ofBytes_block (s : Columns) : Columns.ofBytes s.block.bytes = s := by
  simp only [Columns.block, columnBytes, List.cons_append, List.nil_append, Columns.ofBytes,
    column_rows]

/-- A block is what the state that is read of it is written to. -/
theorem block_ofBytes (block : Block) : (Columns.ofBytes block.bytes).block = block := by
  obtain ⟨bytes, hlength⟩ := block
  match bytes, hlength with
  | [_, _, _, _, _, _, _, _, _, _, _, _, _, _, _, _], _ =>
    simp only [Columns.ofBytes, Columns.block, columnBytes_column, List.cons_append,
      List.nil_append]

/-! ## Rounds -/

/-- The rounds undone in reverse order. -/
theorem foldr_foldl (keys : List Columns) (s : Columns) :
    keys.foldr (fun key s => (s.xor key).unmix.unsubstituteShift)
      (keys.foldl (fun s key => s.substituteShift.mix.xor key) s) = s := by
  induction keys generalizing s with
  | nil => rfl
  | cons key keys ih =>
    rw [List.foldl_cons, List.foldr_cons, ih, xor_key_xor_key, unmix_mix,
      unsubstituteShift_substituteShift]

/-- Decryption undoes encryption, under every key. -/
theorem cipher_undoes (key : Key) : (cipher key).Undoes := by
  intro block
  show (Schedule.ofKey key).decrypt ((Schedule.ofKey key).encrypt block) = block
  simp only [Schedule.decrypt, Schedule.encrypt, ofBytes_block, xor_key_xor_key,
    unsubstituteShift_substituteShift, foldr_foldl, block_ofBytes]

end Aes256

/-- The cipher of the protocol undoes its encryption. -/
theorem Suite.standard_cipherUndoes : Suite.standard.CipherUndoes := Aes256.cipher_undoes

end EndToEnd
