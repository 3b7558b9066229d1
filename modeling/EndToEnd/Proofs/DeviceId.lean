import EndToEnd.DeviceId

/-!
# The text of a device

The text of a device is read back as that device, and so is every other text that spells its
number: digits of either case, with as many zeros in front as there may be, behind a plus sign or
not. No other text is read as that device. What digits spell is said here by their place values,
while the reader goes through them from the left with the number so far; the two meet in one law of
the reader, from any number it may have reached.

Main statements:

- `readDigits_of_spells`: digits are read to their number, or refused as too large;
- `text_form`: which texts are read as a device, its own among them.
-/

namespace EndToEnd

namespace Hex

variable {c : Char} {cs : List Char} {value n : Nat}

/-! ## Digits -/

/-- The sixteen digits that are written. -/
def lowercase : List Char :=
  ['0', '1', '2', '3', '4', '5', '6', '7', '8', '9', 'a', 'b', 'c', 'd', 'e', 'f']

/-- The same digits, the letters as capitals. -/
def uppercase : List Char :=
  ['0', '1', '2', '3', '4', '5', '6', '7', '8', '9', 'A', 'B', 'C', 'D', 'E', 'F']

/-- The character is the digit of the number, in either case. -/
def IsDigit (c : Char) (value : Nat) : Prop :=
  lowercase[value]? = some c ∨ uppercase[value]? = some c

instance (c : Char) (value : Nat) : Decidable (IsDigit c value) :=
  inferInstanceAs (Decidable (_ ∨ _))

/-- The characters are digits, and the number is what they write: a digit counts sixteen times as
much as it would one place further right. -/
inductive Spells : List Char → Nat → Prop
  | nil : Spells [] 0
  | cons {c : Char} {cs : List Char} {value n : Nat} (hc : IsDigit c value) (hcs : Spells cs n) :
    Spells (c :: cs) (value * Nat.pow 16 cs.length + n)

/-- A row of sixteen characters that are read as the numbers in order has each at its number. -/
theorem value?_of_getElem? {row : List Char} (hrow : row.map value? = (List.range 16).map some)
    (h : row[value]? = some c) : value? c = some value := by
  have hat : (row.map value?)[value]? = some (value? c) := by
    rw [List.getElem?_map, h, Option.map_some]
  rw [hrow, List.getElem?_map] at hat
  obtain ⟨number, hnumber, hread⟩ := Option.map_eq_some_iff.mp hat
  obtain ⟨hlt, hget⟩ := List.getElem?_eq_some_iff.mp hnumber
  rw [← hread, ← hget, List.getElem_range]

/-- A digit has the value that it is read as. -/
theorem value?_of_isDigit (h : IsDigit c value) : value? c = some value :=
  h.elim (value?_of_getElem? (by decide)) (value?_of_getElem? (by decide))

/-- Digits are among the first characters. -/
theorem toNat_lt_of_value? (h : value? c = some value) : c.toNat < 128 := by
  have hbound {high : Char} (hhigh : high.toNat < 128) (hle : c ≤ high) : c.toNat < 128 :=
    Nat.lt_of_le_of_lt (UInt32.le_iff_toNat_le.mp hle) hhigh
  unfold value? at h
  split at h
  next hrange => exact hbound (by decide) hrange.2
  next =>
    split at h
    next hrange => exact hbound (by decide) hrange.2
    next =>
      split at h
      next hrange => exact hbound (by decide) hrange.2
      next => exact nomatch h

/-- What is read as a digit is one, with that value. -/
theorem value?_eq_some_iff : value? c = some value ↔ IsDigit c value := by
  refine ⟨fun h => ?_, value?_of_isDigit⟩
  -- what is read is ASCII, so there are few characters to go through
  have hdigits : ∀ code : Fin 128, ∀ value ∈ value? (Char.ofNat code.val),
      IsDigit (Char.ofNat code.val) value := by
    decide +kernel
  have hdigit := hdigits ⟨c.toNat, toNat_lt_of_value? h⟩
  rw [Char.ofNat_toNat] at hdigit
  exact hdigit value h

theorem not_isDigit_plus : ¬ IsDigit '+' value := by
  intro h
  exact nomatch value?_of_isDigit h

/-- The digits are in the order of their values. -/
theorem lowercase_digit (h : n < 16) : lowercase[n]? = some (digit n) := by
  have hdigits : lowercase = (List.range 16).map digit := by decide
  rw [hdigits, List.getElem?_map, List.getElem?_range h, Option.map_some]

/-! ## Numbers -/

/-- One more digit at the end makes a number sixteen times as large. -/
theorem Spells.concat (h : Spells cs n) (hc : IsDigit c value) :
    Spells (cs ++ [c]) (16 * n + value) := by
  induction h with
  | nil =>
    have hone := Spells.cons hc .nil
    rw [List.length_nil, Nat.add_zero, show Nat.pow 16 0 = 1 from rfl, Nat.mul_one] at hone
    rwa [Nat.mul_zero, Nat.zero_add]
  | @cons c' cs value' n hc' hcs ih =>
    have hmore := Spells.cons hc' ih
    have hpow : Nat.pow 16 (cs ++ [c]).length = Nat.pow 16 cs.length * 16 := by
      rw [List.length_append]
      rfl
    rw [hpow] at hmore
    have hnumber : 16 * (value' * Nat.pow 16 cs.length + n) + value =
        value' * (Nat.pow 16 cs.length * 16) + (16 * n + value) := by
      rw [← Nat.mul_assoc]
      omega
    rw [hnumber]
    exact hmore

/-- A number in one more digit is the number without its last digit, and that digit. -/
theorem digits_succ (width n : Nat) :
    digits (width + 1) n = digits width (n / 16) ++ [digit (n % 16)] := by
  rw [digits, reversedDigits, List.reverse_cons, digits]

/-- A number is written in exactly the digits it is given. -/
@[simp] theorem length_digits (width n : Nat) : (digits width n).length = width := by
  induction width generalizing n with
  | zero => rfl
  | succ width ih => rw [digits_succ, List.length_append, ih, List.length_singleton]

/-- Only lowercase digits are written. -/
theorem mem_lowercase_of_mem_digits {width : Nat} (h : c ∈ digits width n) : c ∈ lowercase := by
  induction width generalizing n with
  | zero => exact nomatch h
  | succ width ih =>
    rw [digits_succ, List.mem_append, List.mem_singleton] at h
    rcases h with h | rfl
    · exact ih h
    · exact List.mem_of_getElem? (lowercase_digit (Nat.mod_lt n (by decide)))

/-- The digits of a number spell it, if there are enough of them. -/
theorem spells_digits {width : Nat} (h : n < Nat.pow 16 width) : Spells (digits width n) n := by
  induction width generalizing n with
  | zero =>
    obtain rfl := Nat.lt_one_iff.mp h
    exact .nil
  | succ width ih =>
    have hhigh : n / 16 < Nat.pow 16 width := Nat.div_lt_of_lt_mul (Nat.mul_comm _ 16 ▸ h)
    have hspells := (ih hhigh).concat (.inl (lowercase_digit (Nat.mod_lt n (by decide))))
    rw [digits_succ]
    rwa [Nat.div_add_mod] at hspells

end Hex

namespace DeviceId

variable {c : Char} {cs : List Char} {value n : Nat} {read d : DeviceId} {s : String}

/-! ## The reader -/

/-- A number of 128 bits is an identifier. -/
theorem ofNat?_of_lt (h : n < Nat.pow 2 128) : ofNat? n = some ⟨n, h⟩ := by
  rw [ofNat?, dif_pos h]

/-- A larger number is not. -/
theorem ofNat?_of_le (h : Nat.pow 2 128 ≤ n) : ofNat? n = none := by
  rw [ofNat?, dif_neg (Nat.not_lt.mpr h)]

/-- A digit that is read moves the number read so far up by one place, and may make it too large. -/
theorem readDigits_cons (hc : Hex.IsDigit c value) (cs : List Char) (read : DeviceId) :
    readDigits (c :: cs) read =
      (ofNat? (16 * read.number + value)).elim (.error .tooLarge) (readDigits cs) := by
  simp only [readDigits, Hex.value?_of_isDigit hc]
  cases ofNat? (16 * read.number + value) with
  | none => rfl
  | some read => rfl

/-- Digits after a number already read move it up by as many places. The first place at which the
number is too large is as good as the last, as it does not get smaller. -/
theorem readDigits_of_spells (h : Hex.Spells cs n) (read : DeviceId) :
    readDigits cs read =
      (ofNat? (read.number * Nat.pow 16 cs.length + n)).elim (.error .tooLarge) .ok := by
  induction h generalizing read with
  | nil =>
    rw [readDigits, List.length_nil, show Nat.pow 16 0 = 1 from rfl, Nat.mul_one, Nat.add_zero,
      ofNat?_of_lt read.number_lt, Option.elim_some]
  | @cons c cs value n hc hcs ih =>
    have hnumber : read.number * Nat.pow 16 (c :: cs).length + (value * Nat.pow 16 cs.length + n) =
        (16 * read.number + value) * Nat.pow 16 cs.length + n := by
      rw [show Nat.pow 16 (c :: cs).length = Nat.pow 16 cs.length * 16 from rfl, Nat.add_mul,
        Nat.mul_comm 16, Nat.mul_right_comm, Nat.mul_assoc, Nat.add_assoc]
    rw [hnumber, readDigits_cons hc]
    by_cases hfits : 16 * read.number + value < Nat.pow 2 128
    · rw [ofNat?_of_lt hfits, Option.elim_some, ih]
    · have hlarge := Nat.not_lt.mp hfits
      have hmore : Nat.pow 2 128 ≤ (16 * read.number + value) * Nat.pow 16 cs.length + n :=
        Nat.le_add_right_of_le
          (Nat.le_trans hlarge (Nat.le_mul_of_pos_right _ (Nat.pow_pos (by decide))))
      rw [ofNat?_of_le hlarge, ofNat?_of_le hmore, Option.elim_none, Option.elim_none]

/-- Only digits are read. -/
theorem spells_of_readDigits (h : readDigits cs read = .ok d) : ∃ n, Hex.Spells cs n := by
  induction cs generalizing read with
  | nil => exact ⟨0, .nil⟩
  | cons c cs ih =>
    rw [readDigits] at h
    split at h
    next => exact nomatch h
    next value hvalue =>
      split at h
      next => exact nomatch h
      next read' _ =>
        obtain ⟨n, hn⟩ := ih h
        exact ⟨_, .cons (Hex.value?_eq_some_iff.mp hvalue) hn⟩

/-! ## Texts -/

/-- The text is digits of either case that write the number, one at least, behind at most one plus
sign. -/
def Denotes (s : String) (n : Nat) : Prop :=
  ∃ digits, digits ≠ [] ∧ Hex.Spells digits n ∧ (s.toList = digits ∨ s.toList = '+' :: digits)

/-- A sign in front of digits is passed over, and digits have none. -/
theorem parse_of_digits (hspells : Hex.Spells (c :: cs) n)
    (hs : s.toList = c :: cs ∨ s.toList = '+' :: c :: cs) :
    parse s = readDigits (c :: cs) ⟨0, by decide⟩ := by
  rcases hs with hs | hs
  · have hplus : c ≠ '+' := by
      rintro rfl
      cases hspells with
      | cons hc _ => exact Hex.not_isDigit_plus hc
    simp only [parse, hs]
    split
    next hnil => exact nomatch hnil
    next hsigned => exact absurd (List.cons.inj hsigned).1 hplus
    next => rfl
  · simp only [parse, hs]

/-- A text that denotes a number is read as it, unless it is too large. -/
theorem parse_of_denotes (h : Denotes s n) :
    parse s = (ofNat? n).elim (.error .tooLarge) .ok := by
  obtain ⟨digits, hne, hspells, hs⟩ := h
  obtain ⟨c, cs, rfl⟩ := List.exists_cons_of_ne_nil hne
  rw [parse_of_digits hspells hs, readDigits_of_spells hspells, Nat.zero_mul, Nat.zero_add]

/-- A text that is read as a device denotes a number. -/
theorem denotes_of_parse (h : parse s = .ok d) : ∃ n, Denotes s n := by
  simp only [parse] at h
  split at h
  next => exact nomatch h
  next c cs hs =>
    obtain ⟨n, hspells⟩ := spells_of_readDigits h
    exact ⟨n, c :: cs, List.cons_ne_nil c cs, hspells, .inr hs⟩
  next cs hne _ =>
    obtain ⟨n, hspells⟩ := spells_of_readDigits h
    exact ⟨n, s.toList, hne, hspells, .inl rfl⟩

/-- A text is read as an identifier if and only if it denotes its number. -/
theorem parse_eq_ok_iff : parse s = .ok d ↔ Denotes s d.number := by
  constructor
  · intro h
    obtain ⟨n, hdenotes⟩ := denotes_of_parse h
    rw [parse_of_denotes hdenotes] at h
    by_cases hfits : n < Nat.pow 2 128
    · rw [ofNat?_of_lt hfits, Option.elim_some] at h
      exact Except.ok.inj h ▸ hdenotes
    · rw [ofNat?_of_le (Nat.not_lt.mp hfits), Option.elim_none] at h
      exact nomatch h
  · intro h
    rw [parse_of_denotes h, ofNat?_of_lt d.number_lt, Option.elim_some]

/-- The text of an identifier is its 32 digits. -/
@[simp] theorem toList_text (d : DeviceId) : d.text.toList = Hex.digits 32 d.number :=
  String.toList_ofList

/-- The text of an identifier denotes its number. -/
theorem denotes_text (d : DeviceId) : Denotes d.text d.number := by
  have hwidth : d.number < Nat.pow 16 32 := d.number_lt
  refine ⟨_, fun hempty => ?_, Hex.spells_digits hwidth, .inl d.toList_text⟩
  have hlength := Hex.length_digits 32 d.number
  rw [hempty] at hlength
  exact nomatch hlength

/-- The text of a device is 32 lowercase digits and is read back as the device, which is read of
exactly the texts that denote its number: digits of either case, however many zeros they begin with,
behind at most one plus sign. -/
theorem text_form (d : DeviceId) :
    d.text.length = 32 ∧ d.text.toList ⊆ Hex.lowercase ∧ parse d.text = .ok d ∧
      ∀ s, parse s = .ok d ↔ Denotes s d.number := by
  refine ⟨?_, ?_, parse_eq_ok_iff.mpr d.denotes_text, fun s => parse_eq_ok_iff⟩
  · rw [← String.length_toList, toList_text, Hex.length_digits]
  · intro c hc
    rw [toList_text] at hc
    exact Hex.mem_lowercase_of_mem_digits hc

example : parse "+00000000000000000000000000000000fF" = .ok (.ofNat 255) := rfl

end DeviceId

end EndToEnd
