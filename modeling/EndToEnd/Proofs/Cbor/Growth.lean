import EndToEnd.Proofs.Cbor.Extending

/-!
# How many bytes a value takes

Heads may be wider than they have to be, numbers may be written as bytes, and strings may come in
pieces. None of this makes a form much shorter than the one that is written: a head has at least the
bytes of the least one that says the same, and a number in bytes has as many of them as it needs.
So what was read of a number pays for more than half of what is written of it, and a byte string
pays for each of its bytes twice.

Main statements:

- `Head.leastLength_le`: a head has at least the bytes of the least one that says the same;
- `readNat_growth`, `readString_growth`: numbers, and strings as arrays of numbers;
- `skipItem_length`: nothing is read of an item that is passed over.
-/

namespace EndToEnd.Cbor

variable {α : Type} {budget : Budget} {steps n : Nat} {bs rest : Bytes}

/-! ## Heads -/

/-- The most bytes that a number is written with: those of the least head that holds it, or a tag, a
head and sixteen bytes if none does. -/
def numberLength (n : Nat) : Nat :=
  if n < 24 then 1
  else if n < 256 then 2
  else if n < 65536 then 3
  else if n < 4294967296 then 5
  else if n < 18446744073709551616 then 9
  else 18

theorem numberLength_pos (n : Nat) : 1 ≤ numberLength n := by
  unfold numberLength
  split_ifs <;> omega

theorem numberLength_mono {m : Nat} (h : m ≤ n) : numberLength m ≤ numberLength n := by
  unfold numberLength
  split_ifs <;> omega

/-- A length takes hardly more bytes than it counts. -/
theorem numberLength_le_succ (n : Nat) : numberLength n ≤ n + 1 := by
  unfold numberLength
  split_ifs <;> omega

/-- A number of 32 bits takes a head of at most five bytes. -/
theorem numberLength_of_lt (h : n < UInt32.size) : numberLength n ≤ 5 := by
  unfold numberLength
  rw [show UInt32.size = 4294967296 from rfl] at h
  split_ifs <;> omega

/-- The head that is written is no longer than the number's length. -/
theorem length_writeHead_le (major n : Nat) : (writeHead major n).length ≤ numberLength n := by
  have h8 : Nat.pow 2 8 = 256 := rfl
  have h16 : Nat.pow 2 16 = 65536 := rfl
  have h32 : Nat.pow 2 32 = 4294967296 := rfl
  unfold writeHead numberLength
  simp only [h8, h16, h32]
  split_ifs <;> simp

/-- The bytes of the least head that says the same. -/
def Head.leastLength : Head → Nat
  | .unsigned n | .negative n | .tag n | .simple n => numberLength n
  | .bytes length | .text length | .array length | .map length => length.elim 1 numberLength
  | .float | .stop => 1

theorem Head.leastLength_pos (head : Head) : 1 ≤ head.leastLength := by
  have hopen (length : Option Nat) : 1 ≤ length.elim 1 numberLength := by
    cases length with
    | none => exact Nat.le_refl 1
    | some n => exact numberLength_pos n
  cases head with
  | unsigned n | negative n | tag n | simple n => exact numberLength_pos n
  | bytes length | text length | array length | map length => exact hopen length
  | float | stop => exact Nat.le_refl 1

/-- What is read of some bytes fits in that many bytes. -/
theorem natBE_lt (bs : Bytes) : Bytes.natBE bs < Nat.pow 256 bs.length := by
  rw [Bytes.natBE_eq_natLE_reverse, ← List.length_reverse]
  exact Bytes.natLE_lt bs.reverse

/-- A number that is read takes its width. -/
theorem readNumber_length {width value : Nat} (h : readNumber width bs = some (value, rest)) :
    value < Nat.pow 256 width ∧ width + rest.length = bs.length := by
  obtain ⟨⟨front, rest'⟩, hsplit, heq⟩ := Option.map_eq_some_iff.mp h
  obtain ⟨rfl, rfl⟩ := Prod.mk.inj heq
  obtain ⟨rfl, rfl⟩ := eq_append_of_splitBytes hsplit
  exact ⟨natBE_lt front, List.length_append.symm⟩

/-- An argument takes as many bytes as its value needs, or more. -/
theorem readArgument_length {info : Nat} (hinfo : info < 32) {argument : Option Nat}
    (h : readArgument info bs = some (argument, rest)) :
    argument.elim 1 numberLength + rest.length ≤ bs.length + 1 := by
  have hsized {width : Nat} (hwidth : numberLength (Nat.pow 256 width - 1) ≤ width + 1)
      (h : (readNumber width bs).map (fun number => (some number.1, number.2)) =
        some (argument, rest)) : argument.elim 1 numberLength + rest.length ≤ bs.length + 1 := by
    obtain ⟨⟨value, rest'⟩, hread, heq⟩ := Option.map_eq_some_iff.mp h
    obtain ⟨rfl, rfl⟩ := Prod.mk.inj heq
    obtain ⟨hlt, hlength⟩ := readNumber_length hread
    have hvalue := Nat.le_trans (numberLength_mono (Nat.le_sub_one_of_lt hlt)) hwidth
    show numberLength value + rest'.length ≤ bs.length + 1
    omega
  by_cases hsmall : info < 24
  · rw [readArgument_of_lt hsmall] at h
    obtain ⟨rfl, rfl⟩ := Prod.mk.inj (Option.some.inj h)
    rw [Option.elim_some, numberLength, if_pos hsmall, Nat.add_comm]
  · have hcases : info = 24 ∨ info = 25 ∨ info = 26 ∨ info = 27 ∨ info = 28 ∨ info = 29 ∨
        info = 30 ∨ info = 31 := by omega
    rcases hcases with rfl | rfl | rfl | rfl | rfl | rfl | rfl | rfl
    · exact hsized (by decide) h
    · exact hsized (by decide) h
    · exact hsized (by decide) h
    · exact hsized (by decide) h
    · exact nomatch h
    · exact nomatch h
    · exact nomatch h
    · obtain ⟨rfl, rfl⟩ := Prod.mk.inj (Option.some.inj h)
      exact Nat.le_of_eq (Nat.add_comm 1 bs.length)

/-- A head needs no more than its argument does. -/
theorem Head.leastLength_ofParts {major info : Nat} {argument : Option Nat} {head : Head}
    (h : Head.ofParts major info argument = some head) :
    head.leastLength ≤ argument.elim 1 numberLength := by
  unfold Head.ofParts at h
  split at h
  case h_8 n =>
    obtain rfl := Option.some.inj h
    split
    next => exact Nat.le_refl _
    next => exact numberLength_pos n
  all_goals cases h <;> exact Nat.le_refl _

/-- A head has at least the bytes of the least one that says the same. -/
theorem Head.leastLength_le {head : Head} (h : Head.read bs = some (head, rest)) :
    head.leastLength + rest.length ≤ bs.length := by
  cases bs with
  | nil => exact nomatch h
  | cons first bs =>
    obtain ⟨⟨argument, rest'⟩, hargument, h⟩ := Option.bind_eq_some_iff.mp h
    obtain ⟨head', hhead, h⟩ := Option.bind_eq_some_iff.mp h
    obtain ⟨rfl, rfl⟩ := Prod.mk.inj (Option.some.inj h)
    have hlength := readArgument_length (Nat.mod_lt _ (by decide)) hargument
    have hleast := Head.leastLength_ofParts hhead
    rw [List.length_cons]
    exact Nat.le_trans (Nat.add_le_add_right hleast _) hlength

/-- Reading a head takes a byte at least. -/
theorem Head.read_consumes {head : Head} (h : Head.read bs = some (head, rest)) :
    1 + rest.length ≤ bs.length :=
  Nat.le_trans (Nat.add_le_add_right head.leastLength_pos _) (Head.leastLength_le h)

/-- The head behind the tags takes its length, whatever the tags took. -/
theorem readPastTags_length {head : Head} (h : readPastTags steps bs = some (head, rest)) :
    head.leastLength + rest.length ≤ bs.length := by
  induction steps using Nat.strongRecOn generalizing bs with
  | _ steps ih =>
    rcases readPastTags_cases h with ⟨hread, -⟩ | ⟨t, rest', fewer, rfl, hread, hrest⟩
    · exact Head.leastLength_le hread
    · have htag := Head.leastLength_le hread
      have hbehind := ih fewer (Nat.lt_succ_self fewer) hrest
      omega

/-- Passing tags and reading a head takes a byte at least. -/
theorem readPastTags_consumes {head : Head} (h : readPastTags steps bs = some (head, rest)) :
    1 + rest.length ≤ bs.length :=
  Nat.le_trans (Nat.add_le_add_right head.leastLength_pos _) (readPastTags_length h)

/-! ## Strings -/

variable {kind : StringKind} {length : Option Nat} {content : Bytes}

/-- A piece is as long as asked for, and no byte is lost. -/
theorem readPiece_length {size : Nat} (h : readPiece kind size bs = some (content, rest)) :
    content.length = size ∧ content.length + rest.length = bs.length := by
  obtain ⟨⟨piece, rest'⟩, hsplit, h⟩ := Option.bind_eq_some_iff.mp h
  dsimp only at h
  split at h
  next =>
    obtain ⟨rfl, rfl⟩ := Prod.mk.inj (Option.some.inj h)
    obtain ⟨hlength, rfl⟩ := eq_append_of_splitBytes hsplit
    exact ⟨hlength, List.length_append.symm⟩
  next => exact nomatch h

/-- Pieces are behind a head each, and a break is behind them all. -/
theorem readPieces_length {level : Nat} {done : List Bytes}
    (h : readPieces kind steps level done bs = some (content, rest)) :
    content.length + rest.length + 1 ≤ done.flatten.length + bs.length ∧
      (content.length ≤ done.flatten.length ∨
        content.length + rest.length + 2 ≤ done.flatten.length + bs.length) := by
  induction steps generalizing level done bs with
  | zero => exact nomatch h
  | succ steps ih =>
    obtain ⟨⟨head, behind⟩, hread, h⟩ := Option.bind_eq_some_iff.mp h
    have hhead := Head.read_consumes hread
    dsimp only at h
    split at h
    next =>
      cases level with
      | zero =>
        obtain ⟨rfl, rfl⟩ := Prod.mk.inj (Option.some.inj h)
        have hdone : done.reverse.flatten.length = done.flatten.length := by
          rw [List.length_flatten, List.length_flatten, List.map_reverse, List.sum_reverse]
        omega
      | succ level =>
        have hrest := ih h
        omega
    next =>
      obtain ⟨size, -, h⟩ := Option.bind_eq_some_iff.mp h
      cases size with
      | none =>
        have hrest := ih h
        omega
      | some size =>
        obtain ⟨⟨piece, behind'⟩, hpiece, h⟩ := Option.bind_eq_some_iff.mp h
        have hrest := ih h
        have hlength : piece.length + behind'.length = behind.length := (readPiece_length hpiece).2
        rw [List.flatten_cons, List.length_append] at hrest
        dsimp only at hrest
        omega

/-- A string is no longer than what it was read of. -/
theorem readString_length (h : readString kind budget length bs = some (content, rest)) :
    content.length + rest.length ≤ bs.length := by
  cases length with
  | some size => exact Nat.le_of_eq (readPiece_length h).2
  | none =>
    have hpieces := (readPieces_length h).1
    rw [List.flatten_nil, List.length_nil] at hpieces
    omega

/-- A string pays for its bytes written twice, and for the head before them. -/
theorem readString_growth (hsize : bs.length < UInt32.size)
    (h : readString kind budget length bs = some (content, rest)) :
    numberLength content.length + 2 * content.length + 1 + 2 * rest.length ≤
      2 * (length.elim 1 numberLength + bs.length) := by
  cases length with
  | some size =>
    obtain ⟨rfl, hlength⟩ := readPiece_length h
    have hpos := numberLength_pos content.length
    rw [Option.elim_some]
    omega
  | none =>
    obtain ⟨hbreak, hpieces⟩ := readPieces_length h
    rw [List.flatten_nil, List.length_nil] at hbreak hpieces
    rw [Option.elim_none]
    rcases hpieces with hempty | hpieces
    · obtain hnone : content.length = 0 := by omega
      rw [hnone, show numberLength 0 = 1 from rfl]
      omega
    · have hhead : numberLength content.length ≤ 5 := numberLength_of_lt (by omega)
      omega

/-! ## Numbers -/

/-- A number takes few bytes for those that spell it. -/
theorem numberLength_of_bigNumber (h : bigNumber content = some n) :
    numberLength n ≤ 3 + 2 * content.length := by
  unfold bigNumber at h
  dsimp only at h
  split at h
  next =>
    obtain rfl := Option.some.inj h
    have hlength : (content.dropWhile (· = 0)).length ≤ content.length :=
      (List.dropWhile_sublist _).length_le
    have hlt := natBE_lt (content.dropWhile (· = 0))
    generalize Bytes.natBE (content.dropWhile (· = 0)) = n at *
    generalize (content.dropWhile (· = 0)).length = width at *
    have hwide {k : Nat} (hk : 256 ^ k ≤ n) : k < width :=
      (Nat.pow_lt_pow_iff_right (by decide)).mp (Nat.lt_of_le_of_lt hk hlt)
    unfold numberLength
    split_ifs with h1 h2 h3 h4 h5
    · omega
    · omega
    · omega
    · have := hwide (k := 2) (by omega)
      omega
    · have := hwide (k := 4) (by omega)
      omega
    · have := hwide (k := 8) (by omega)
      omega
  next => exact nomatch h

/-- A number was read of at least half the bytes that it is written with, and one more. -/
theorem readNat_growth (h : readNat budget steps bs = some (n, rest)) :
    numberLength n + 1 + 2 * rest.length ≤ 2 * bs.length := by
  induction steps using Nat.strongRecOn generalizing bs with
  | _ steps ih =>
    rcases readNat_cases h with hread |
      ⟨length, content, rest', rest'', hread, hhead, hcontent, hn⟩ |
      ⟨t, rest', fewer, -, -, rfl, hread, hrest⟩
    · have hleast : numberLength n + rest.length ≤ bs.length := Head.leastLength_le hread
      have hpos := numberLength_pos n
      omega
    · have htag := Head.read_consumes hread
      have hbytes := Head.read_consumes hhead
      have hstring := readString_length hcontent
      have hnumber := numberLength_of_bigNumber hn
      omega
    · have htag := Head.leastLength_le hread
      have hbehind := ih fewer (Nat.lt_succ_self fewer) hrest
      omega

/-! ## Items that are passed over -/

/-- Passing over a big number gives no bytes back. -/
theorem skipBigNumber_length {t : Nat} (h : skipBigNumber t bs = some (some rest)) :
    rest.length ≤ bs.length := by
  unfold skipBigNumber at h
  split at h
  next =>
    split at h
    next size rest' hhead =>
      have hlength := Head.leastLength_le hhead
      split at h
      next =>
        split at h
        next content rest'' hcontent =>
          obtain ⟨-, rfl⟩ := eq_append_of_splitBytes hcontent
          rw [List.length_append] at hlength
          split at h
          next =>
            obtain rfl := Option.some.inj (Option.some.inj h)
            omega
          next => exact nomatch Option.some.inj h
        next => exact nomatch Option.some.inj h
      next => exact nomatch h
    next => exact nomatch h
    next => exact nomatch Option.some.inj h
  next => exact nomatch h

theorem Pending.enter_length {frames : List Frame} {depth : Nat} {head : Head} {q : Pending}
    (h : Pending.enter frames depth head rest = some q) : q.rest = rest := by
  unfold Pending.enter at h
  split at h
  next => exact nomatch h
  next =>
    obtain rfl := Option.some.inj h
    rfl
  next =>
    obtain rfl := Option.some.inj h
    rfl

/-- A step over an item gives no bytes back. -/
theorem Pending.step_length {p q : Pending} (h : p.step steps = some q) :
    q.rest.length ≤ p.rest.length := by
  obtain ⟨⟨head, behind⟩, hhead, h⟩ := Option.bind_eq_some_iff.mp h
  have hbehind : behind.length ≤ p.rest.length :=
    Nat.le_trans (Nat.le_add_left _ _) (Head.leastLength_le hhead)
  have hfinish {frames : List Frame} {depth : Nat} {rest : Bytes}
      (hrest : rest.length ≤ behind.length) (h : some (Pending.finish frames depth rest) = some q) :
      q.rest.length ≤ p.rest.length := by
    obtain rfl := Option.some.inj h
    exact Nat.le_trans hrest hbehind
  have henter (h : Pending.enter p.frames p.depth head behind = some q) :
      q.rest.length ≤ p.rest.length := Pending.enter_length h ▸ hbehind
  cases head with
  | unsigned n | negative n | float => exact hfinish (Nat.le_refl _) h
  | simple n =>
    dsimp only at h
    split at h
    next => exact hfinish (Nat.le_refl _) h
    next => exact nomatch h
  | bytes length | text length =>
    obtain ⟨⟨content, rest'⟩, hcontent, h⟩ := Option.bind_eq_some_iff.mp h
    exact hfinish (Nat.le_trans (Nat.le_add_left _ _) (readString_length hcontent)) h
  | stop =>
    obtain ⟨frames, -, h⟩ := Option.bind_eq_some_iff.mp h
    exact hfinish (Nat.le_refl _) h
  | array length | map length => exact henter h
  | tag t =>
    dsimp only at h
    split at h
    next result hbig =>
      obtain ⟨rest', rfl, h⟩ := Option.bind_eq_some_iff.mp h
      exact hfinish (skipBigNumber_length hbig) h
    next => exact henter h

theorem Pending.skip_length {p : Pending} (h : p.skip steps = some rest) :
    rest.length ≤ p.rest.length := by
  induction steps generalizing p with
  | zero => exact nomatch h
  | succ steps ih =>
    unfold Pending.skip at h
    split at h
    next => exact nomatch h
    next q hstep =>
      have hq := Pending.step_length hstep
      split at h
      next =>
        obtain rfl := Option.some.inj h
        exact hq
      next => exact Nat.le_trans (ih h) hq

theorem skipItem_length (h : skipItem budget bs = some rest) : rest.length ≤ bs.length :=
  Pending.skip_length h

end EndToEnd.Cbor
