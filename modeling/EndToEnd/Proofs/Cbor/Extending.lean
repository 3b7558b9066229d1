import EndToEnd.Proofs.Cbor.RoundTrip

/-!
# What comes behind an item

A reader looks no further than the item it reads. What it reads of some bytes, it reads of the same
bytes with more behind them, and leaves the more over. So the end of an item is the same in every
document that starts with it.

The larger document also has the larger budget: it bounds the loops by more steps, and the levels
are the same. A reader may therefore spend more behind the item than before, and reads the same.

Main statements:

- `readNat_extends`, `readBool_extends`, `readText_extends`, `readKey_extends`: single values;
- `readItems_extends`, `readFirst_extends`: sequences of what such a reader reads;
- `skipItem_append`: an item that is passed over ends at the same byte.
-/

namespace EndToEnd.Cbor

variable {α : Type} {budget larger : Budget} {steps more : Nat} {bs rest : Bytes}

/-- A budget for the same levels, and for as many steps or more. -/
structure Budget.Covers (larger budget : Budget) : Prop where
  depth : larger.depth = budget.depth
  steps : budget.steps ≤ larger.steps

/-- Going down one level keeps the one budget above the other. -/
theorem descend_covers {inner : Budget} (hcovers : larger.Covers budget)
    (h : budget.descend = some inner) :
    ∃ inner', larger.descend = some inner' ∧ inner'.Covers inner := by
  obtain ⟨depth, steps⟩ := budget
  obtain ⟨depth', steps'⟩ := larger
  obtain ⟨rfl, hle⟩ : depth' = depth ∧ steps ≤ steps' := ⟨hcovers.depth, hcovers.steps⟩
  cases depth' with
  | zero => exact nomatch h
  | succ depth =>
    obtain rfl := Option.some.inj h
    exact ⟨⟨depth, steps'⟩, rfl, rfl, hle⟩

/-- What the one reader reads, the other reads with more behind it, and leaves that over. -/
def Extends (read read' : Bytes → Option (α × Bytes)) : Prop :=
  ∀ ⦃bs v rest⦄, read bs = some (v, rest) → ∀ more, read' (bs ++ more) = some (v, rest ++ more)

/-- What is made of a value that was read does not touch what is left over. -/
theorem Extends.convert {β : Type} {read read' : Bytes → Option (α × Bytes)} (h : Extends read read')
    (f : α → Option β) :
    Extends (fun bs => do let (a, rest) ← read bs; let b ← f a; return (b, rest))
      (fun bs => do let (a, rest) ← read' bs; let b ← f a; return (b, rest)) := by
  intro bs b rest hread more
  obtain ⟨⟨a, behind⟩, ha, hread⟩ := Option.bind_eq_some_iff.mp hread
  obtain ⟨b', hb, hread⟩ := Option.bind_eq_some_iff.mp hread
  obtain ⟨rfl, rfl⟩ := Prod.mk.inj (Option.some.inj hread)
  simp only [h ha more, Option.bind_eq_bind, Option.bind_some, hb]
  rfl

/-! ## Heads -/

/-- What is split off is as long as asked for, and the bytes are it and the rest. -/
theorem eq_append_of_splitBytes {n : Nat} {front : Bytes}
    (h : splitBytes n bs = some (front, rest)) : front.length = n ∧ bs = front ++ rest := by
  dsimp only [splitBytes] at h
  split at h
  next hlength =>
    obtain ⟨rfl, rfl⟩ := Prod.mk.inj (Option.some.inj h)
    exact ⟨hlength, (List.take_append_drop n bs).symm⟩
  next => exact nomatch h

/-- Whether there are enough bytes is settled by the bytes in front. -/
theorem splitBytes_extends (n : Nat) : Extends (splitBytes n) (splitBytes n) := by
  intro bs front rest h more
  obtain ⟨rfl, rfl⟩ := eq_append_of_splitBytes h
  rw [List.append_assoc]
  exact splitBytes_append front (rest ++ more)

theorem readNumber_extends (n : Nat) : Extends (readNumber n) (readNumber n) := by
  intro bs value rest h more
  obtain ⟨⟨front, rest'⟩, hsplit, heq⟩ := Option.map_eq_some_iff.mp h
  obtain ⟨rfl, rfl⟩ := Prod.mk.inj heq
  rw [readNumber, splitBytes_extends n hsplit more]
  rfl

theorem readArgument_extends (info : Nat) : Extends (readArgument info) (readArgument info) := by
  have hsized (width : Nat) : Extends
      (fun bs => (readNumber width bs).map fun number => (some number.1, number.2))
      (fun bs => (readNumber width bs).map fun number => (some number.1, number.2)) := by
    intro bs argument rest h more
    obtain ⟨⟨value, rest'⟩, hread, heq⟩ := Option.map_eq_some_iff.mp h
    obtain ⟨rfl, rfl⟩ := Prod.mk.inj heq
    simp only [readNumber_extends width hread more, Option.map_some]
  intro bs argument rest h more
  unfold readArgument at h ⊢
  split at h
  next => exact hsized 1 h more
  next => exact hsized 2 h more
  next => exact hsized 4 h more
  next => exact hsized 8 h more
  next => exact nomatch h
  next => exact nomatch h
  next => exact nomatch h
  next =>
    obtain ⟨rfl, rfl⟩ := Prod.mk.inj (Option.some.inj h)
    rfl
  next =>
    obtain ⟨rfl, rfl⟩ := Prod.mk.inj (Option.some.inj h)
    simp only

theorem Head.read_extends : Extends Head.read Head.read := by
  intro bs head rest h more
  cases bs with
  | nil => exact nomatch h
  | cons first bs =>
    obtain ⟨⟨argument, rest'⟩, hargument, h⟩ := Option.bind_eq_some_iff.mp h
    obtain ⟨head', hhead, h⟩ := Option.bind_eq_some_iff.mp h
    obtain ⟨rfl, rfl⟩ := Prod.mk.inj (Option.some.inj h)
    simp only [List.cons_append, Head.read, readArgument_extends _ hargument more,
      Option.bind_eq_bind, Option.bind_some, hhead]
    rfl

/-- The first head that is not a tag is the first one, or it is behind a tag. -/
theorem readPastTags_cases {head : Head} (h : readPastTags steps bs = some (head, rest)) :
    (Head.read bs = some (head, rest) ∧ ∀ t, head ≠ .tag t) ∨
    ∃ t rest' fewer, steps = fewer + 1 ∧ Head.read bs = some (.tag t, rest') ∧
      readPastTags fewer rest' = some (head, rest) := by
  unfold readPastTags at h
  split at h
  next t rest' hread =>
    cases steps with
    | zero => exact nomatch h
    | succ fewer => exact .inr ⟨t, rest', fewer, rfl, hread, h⟩
  next hno => exact .inl ⟨h, fun t htag => hno t rest (htag ▸ h)⟩

theorem readPastTags_nil (steps : Nat) : readPastTags steps [] = none := by
  unfold readPastTags
  rfl

/-- Passing a tag costs a step. The larger budget has as many. -/
theorem readPastTags_extends {steps steps' : Nat} (hle : steps ≤ steps') :
    Extends (readPastTags steps) (readPastTags steps') := by
  intro bs head rest h more
  induction steps using Nat.strongRecOn generalizing steps' bs with
  | _ steps ih =>
    rcases readPastTags_cases h with ⟨hread, htag⟩ | ⟨t, rest', fewer, rfl, hread, hrest⟩
    · exact readPastTags_eq (Head.read_extends hread more) htag steps'
    · obtain ⟨steps', rfl⟩ := Nat.exists_eq_succ_of_ne_zero (Nat.ne_zero_of_lt hle)
      unfold readPastTags
      simp only [Head.read_extends hread more]
      exact ih fewer (Nat.lt_succ_self fewer) (Nat.le_of_succ_le_succ hle) hrest

/-! ## Strings -/

theorem readPiece_extends (kind : StringKind) (length : Nat) :
    Extends (readPiece kind length) (readPiece kind length) := by
  intro bs piece rest h more
  obtain ⟨⟨piece', rest'⟩, hsplit, h⟩ := Option.bind_eq_some_iff.mp h
  dsimp only at h
  split at h
  next hadmits =>
    obtain ⟨rfl, rfl⟩ := Prod.mk.inj (Option.some.inj h)
    simp only [readPiece, splitBytes_extends _ hsplit more, Option.bind_eq_bind, Option.bind_some,
      hadmits, if_true]
  next => cases h

/-- The pieces of an open string are read one by one, and the larger budget has a step for each. -/
theorem readPieces_extends (kind : StringKind) {steps steps' : Nat} (hle : steps ≤ steps')
    (level : Nat) (done : List Bytes) :
    Extends (readPieces kind steps level done) (readPieces kind steps' level done) := by
  intro bs content rest h more
  induction steps generalizing steps' level done bs with
  | zero => exact nomatch h
  | succ steps ih =>
    obtain ⟨steps', rfl⟩ := Nat.exists_eq_succ_of_ne_zero (Nat.ne_zero_of_lt hle)
    replace hle := Nat.le_of_succ_le_succ hle
    obtain ⟨⟨head, rest'⟩, hread, h⟩ := Option.bind_eq_some_iff.mp h
    simp only [readPieces, Head.read_extends hread more, Option.bind_eq_bind, Option.bind_some]
    dsimp only at h
    split at h
    next hstop =>
      rw [if_pos hstop]
      cases level with
      | zero =>
        obtain ⟨rfl, rfl⟩ := Prod.mk.inj (Option.some.inj h)
        rfl
      | succ level => exact ih hle level done h
    next hstop =>
      rw [if_neg hstop]
      obtain ⟨length, hlength, h⟩ := Option.bind_eq_some_iff.mp h
      rw [hlength, Option.bind_some]
      cases length with
      | none => exact ih hle (level + 1) done h
      | some length =>
        obtain ⟨⟨piece, rest''⟩, hpiece, h⟩ := Option.bind_eq_some_iff.mp h
        simp only [readPiece_extends kind length hpiece more, Option.bind_some]
        exact ih hle level (piece :: done) h

/-- A string of announced length is one piece; of an open one the pieces end at its own stop. -/
theorem readString_extends (kind : StringKind) (h : larger.Covers budget) (length : Option Nat) :
    Extends (readString kind budget length) (readString kind larger length) := by
  cases length with
  | none => exact readPieces_extends kind h.steps 0 []
  | some length => exact readPiece_extends kind length

/-! ## Numbers, truth values and texts -/

/-- A number is written plainly, behind the tag of a big number, or behind a tag that is passed
over. -/
theorem readNat_cases {n : Nat} (h : readNat budget steps bs = some (n, rest)) :
    Head.read bs = some (.unsigned n, rest) ∨
    (∃ length content rest' rest'', Head.read bs = some (.tag tagBig, rest') ∧
      Head.read rest' = some (.bytes length, rest'') ∧
      readString .bytes budget length rest'' = some (content, rest) ∧ bigNumber content = some n) ∨
    ∃ t rest' fewer, t ≠ tagBig ∧ t ≠ tagBigNegative ∧ steps = fewer + 1 ∧
      Head.read bs = some (.tag t, rest') ∧ readNat budget fewer rest' = some (n, rest) := by
  unfold readNat at h
  split at h
  next m rest' hread =>
    obtain ⟨rfl, rfl⟩ := Prod.mk.inj (Option.some.inj h)
    exact .inl hread
  next t rest' hread =>
    split at h
    next htag =>
      subst htag
      obtain ⟨⟨head, rest''⟩, hhead, h⟩ := Option.bind_eq_some_iff.mp h
      split at h
      next length rest''' heq =>
        obtain ⟨rfl, rfl⟩ := Prod.mk.inj heq
        obtain ⟨⟨content, behind⟩, hcontent, h⟩ := Option.bind_eq_some_iff.mp h
        obtain ⟨n', hn, h⟩ := Option.bind_eq_some_iff.mp h
        obtain ⟨rfl, rfl⟩ := Prod.mk.inj (Option.some.inj h)
        exact .inr (.inl ⟨length, content, _, _, hread, hhead, hcontent, hn⟩)
      next => cases h
    next htag =>
      split at h
      next => cases h
      next hnegative =>
        cases steps with
        | zero => cases h
        | succ fewer => exact .inr (.inr ⟨t, rest', fewer, htag, hnegative, rfl, hread, h⟩)
  next => cases h

/-- The same cases of a number are met with more bytes behind it. -/
theorem readNat_extends (hcovers : larger.Covers budget) {steps steps' : Nat} (hle : steps ≤ steps') :
    Extends (readNat budget steps) (readNat larger steps') := by
  intro bs n rest h more
  -- a tag leaves fewer steps; the other two cases are the same for any number of them
  induction steps using Nat.strongRecOn generalizing steps' bs with
  | _ steps ih =>
    unfold readNat
    rcases readNat_cases h with hread |
      ⟨length, content, rest', rest'', hread, hhead, hcontent, hn⟩ |
      ⟨t, rest', fewer, htag, hnegative, rfl, hread, hrest⟩
    · simp only [Head.read_extends hread more]
    · simp only [Head.read_extends hread more, if_true, Head.read_extends hhead more,
        readString_extends .bytes hcovers length hcontent more, Option.bind_eq_bind,
        Option.bind_some, hn]
      rfl
    · obtain ⟨steps', rfl⟩ := Nat.exists_eq_succ_of_ne_zero (Nat.ne_zero_of_lt hle)
      simp only [Head.read_extends hread more, if_neg htag, if_neg hnegative]
      exact ih fewer (Nat.lt_succ_self fewer) (Nat.le_of_succ_le_succ hle) hrest

theorem readBool_extends (h : larger.Covers budget) :
    Extends (readBool budget) (readBool larger) := by
  intro bs b rest hread more
  unfold readBool at hread ⊢
  split at hread
  next n rest' hhead =>
    simp only [readPastTags_extends h.steps hhead more]
    split at hread
    next hfalse =>
      obtain ⟨rfl, rfl⟩ := Prod.mk.inj (Option.some.inj hread)
      rw [if_pos hfalse]
    next hfalse =>
      rw [if_neg hfalse]
      split at hread
      next htrue =>
        obtain ⟨rfl, rfl⟩ := Prod.mk.inj (Option.some.inj hread)
        rw [if_pos htrue]
      next => exact nomatch hread
  next => exact nomatch hread

theorem readText_extends (h : larger.Covers budget) :
    Extends (readText budget) (readText larger) := by
  intro bs text rest hread more
  obtain ⟨⟨head, rest'⟩, hhead, hread⟩ := Option.bind_eq_some_iff.mp hread
  split at hread
  next length rest'' heq =>
    obtain ⟨rfl, rfl⟩ := Prod.mk.inj heq
    simp only [readText, readPastTags_extends h.steps hhead more, Option.bind_eq_bind,
      Option.bind_some]
    exact (readString_extends .text h length).convert Bytes.toText? hread more
  next => cases hread

/-- A key has its length announced, so it ends where it did. -/
theorem readKey_extends (h : larger.Covers budget) : Extends (readKey budget) (readKey larger) := by
  intro bs key rest hread more
  obtain ⟨⟨head, rest'⟩, hhead, hread⟩ := Option.bind_eq_some_iff.mp hread
  simp only [readKey, readPastTags_extends h.steps hhead more, Option.bind_eq_bind,
    Option.bind_some]
  dsimp only at hread
  split at hread
  next length =>
    split at hread
    next hshort => exact (if_pos hshort).trans (readPiece_extends .text length hread more)
    next => cases hread
  next length =>
    split at hread
    next hshort => exact (if_pos hshort).trans (readPiece_extends .bytes length hread more)
    next => cases hread
  next => cases hread

/-! ## Sequences -/

/-- The rest behind the break that ends a sequence, if its length is open and a break is next. -/
def closing (unbounded : Bool) (bs : Bytes) : Option Bytes :=
  if unbounded then readStop? bs else none

theorem closing_nil (unbounded : Bool) : closing unbounded [] = none := by
  cases unbounded <;> rfl

/-- Whether a sequence closes is settled by its next byte. -/
theorem closing_append (unbounded : Bool) (hbs : bs ≠ []) (more : Bytes) :
    closing unbounded (bs ++ more) = (closing unbounded bs).map (· ++ more) := by
  obtain ⟨first, behind, rfl⟩ := List.exists_cons_of_ne_nil hbs
  cases unbounded with
  | false => rfl
  | true =>
    by_cases hstop : first = 0xff
    · subst hstop
      rfl
    · have hno (tail : Bytes) : closing true (first :: tail) = none := by
        show readStop? (first :: tail) = none
        unfold readStop?
        split
        next heq => exact absurd (List.cons.inj heq).1 hstop
        next => rfl
      rw [List.cons_append, hno, hno]
      rfl

section Items

variable {read read' : Bytes → Option (α × Bytes)} {unbounded : Bool} {count count' : Nat}

/-- One round of reading a sequence: it closes, or another item is read. -/
theorem readItems_succ (done : List α) (bs : Bytes) :
    readItems read unbounded (count + 1) done bs =
      match closing unbounded bs with
      | some rest => some (done.reverse, rest)
      | none => (read bs).bind fun (item, rest) =>
        readItems read unbounded count (item :: done) rest := by
  cases unbounded with
  | false => rfl
  | true =>
    conv_lhs => unfold readItems
    rw [show closing true bs = readStop? bs from rfl]
    cases readStop? bs <;> rfl

/-- One round of reading a front: it must not close before it is full. -/
theorem readFirst_succ (done : List α) (bs : Bytes) :
    readFirst read unbounded (count + 1) done bs =
      match closing unbounded bs with
      | some _ => none
      | none => (read bs).bind fun (item, rest) =>
        readFirst read unbounded count (item :: done) rest := by
  cases unbounded with
  | false => rfl
  | true =>
    conv_lhs => unfold readFirst
    rw [show closing true bs = readStop? bs from rfl]
    cases readStop? bs <;> rfl

variable (hread : Extends read read') (hempty : read [] = none)
include hread hempty

/-- Items that are read one by one are read with more behind them. In an open sequence the larger
count is never used up. -/
theorem readItems_extends (hle : count ≤ count') (hbounded : unbounded = true ∨ count' = count)
    (done : List α) :
    Extends (readItems read unbounded count done) (readItems read' unbounded count' done) := by
  intro bs items rest h more
  induction count generalizing count' done bs with
  | zero =>
    cases unbounded with
    | true => exact nomatch h
    | false =>
      obtain rfl := hbounded.resolve_left nofun
      obtain ⟨rfl, rfl⟩ := Prod.mk.inj (Option.some.inj h)
      rfl
  | succ count ih =>
    obtain ⟨count', rfl⟩ := Nat.exists_eq_succ_of_ne_zero (Nat.ne_zero_of_lt hle)
    rw [readItems_succ] at h
    -- with no bytes left there is no item: so whether a break is next is seen before `more`
    have hbs : bs ≠ [] := by
      rintro rfl
      rw [closing_nil, hempty] at h
      exact nomatch h
    rw [readItems_succ, closing_append unbounded hbs]
    cases hclosing : closing unbounded bs with
    | some behind =>
      rw [hclosing] at h
      obtain ⟨rfl, rfl⟩ := Prod.mk.inj (Option.some.inj h)
      rfl
    | none =>
      rw [hclosing] at h
      obtain ⟨⟨item, behind⟩, hitem, h⟩ := Option.bind_eq_some_iff.mp h
      simp only [Option.map_none, hread hitem more, Option.bind_some]
      exact ih (Nat.le_of_succ_le_succ hle) (hbounded.imp_right Nat.succ.inj) (item :: done) h

/-- The same for a front, whose length is known. -/
theorem readFirst_extends (count : Nat) (done : List α) :
    Extends (readFirst read unbounded count done) (readFirst read' unbounded count done) := by
  intro bs items rest h more
  induction count generalizing done bs with
  | zero =>
    obtain ⟨rfl, rfl⟩ := Prod.mk.inj (Option.some.inj h)
    rfl
  | succ count ih =>
    rw [readFirst_succ] at h
    cases hclosing : closing unbounded bs with
    | some behind =>
      rw [hclosing] at h
      exact nomatch h
    | none =>
      rw [hclosing] at h
      obtain ⟨⟨item, behind⟩, hitem, h⟩ := Option.bind_eq_some_iff.mp h
      have hbs : bs ≠ [] := by
        rintro rfl
        exact nomatch hempty.symm.trans hitem
      rw [readFirst_succ, closing_append unbounded hbs, hclosing]
      simp only [Option.map_none, hread hitem more, Option.bind_some]
      exact ih (item :: done) h

end Items

/-! ## Items that are passed over -/

/-- A big number that is passed over ends at the same byte. -/
theorem skipBigNumber_some_append {t : Nat} (h : skipBigNumber t bs = some (some rest))
    (more : Bytes) : skipBigNumber t (bs ++ more) = some (some (rest ++ more)) := by
  unfold skipBigNumber at h ⊢
  split at h
  next hbig =>
    rw [if_pos hbig]
    split at h
    next length rest' hhead =>
      simp only [Head.read_extends hhead more]
      split at h
      next hshort =>
        rw [if_pos hshort]
        split at h
        next content rest'' hcontent =>
          simp only [splitBytes_extends length hcontent more]
          split at h
          next hsmall =>
            obtain rfl := Option.some.inj (Option.some.inj h)
            rw [if_pos hsmall]
          next => exact nomatch Option.some.inj h
        next => exact nomatch Option.some.inj h
      next => exact nomatch h
    next => exact nomatch h
    next => exact nomatch Option.some.inj h
  next => exact nomatch h

/-- What is not a big number does not become one by what is behind it. -/
theorem skipBigNumber_none_append {t : Nat} (h : skipBigNumber t bs = none) (more : Bytes) :
    skipBigNumber t (bs ++ more) = none := by
  unfold skipBigNumber at h ⊢
  split at h
  next hbig =>
    rw [if_pos hbig]
    split at h
    next length rest' hhead =>
      simp only [Head.read_extends hhead more]
      split at h
      next =>
        split at h
        next => split at h <;> exact nomatch h
        next => exact nomatch h
      next hlong => rw [if_neg hlong]
    next result hno hhead =>
      obtain ⟨head, behind⟩ := result
      rw [Head.read_extends hhead more]
      split
      next length rest' heq =>
        obtain ⟨rfl, -⟩ := Prod.mk.inj (Option.some.inj heq)
        exact absurd rfl (hno length behind)
      next => rfl
      next heq => exact nomatch heq
    next => exact nomatch h
  next hbig => rw [if_neg hbig]

/-- What is left to pass over, with more behind it. -/
def Pending.append (p : Pending) (more : Bytes) : Pending := { p with rest := p.rest ++ more }

/-- Opening an item looks at its head alone. -/
theorem Pending.enter_append {frames : List Frame} {depth : Nat} {head : Head} {q : Pending}
    (h : Pending.enter frames depth head rest = some q) (more : Bytes) :
    Pending.enter frames depth head (rest ++ more) = some (q.append more) := by
  unfold Pending.enter at h ⊢
  cases depth with
  | zero => exact nomatch h
  | succ depth =>
    cases hframe : head.frame? with
    | none =>
      rw [hframe] at h
      obtain rfl := Option.some.inj h
      rfl
    | some frame =>
      rw [hframe] at h
      obtain rfl := Option.some.inj h
      rfl

/-- One step over an item that is passed over goes the same way with more behind it. -/
theorem Pending.step_append {steps' : Nat} (hle : steps ≤ steps') {p q : Pending}
    (h : p.step steps = some q) (more : Bytes) :
    (p.append more).step steps' = some (q.append more) := by
  obtain ⟨⟨head, rest⟩, hhead, h⟩ := Option.bind_eq_some_iff.mp h
  have hhead' : Head.read (p.append more).rest = some (head, rest ++ more) :=
    Head.read_extends hhead more
  unfold Pending.step
  simp only [hhead', Option.bind_eq_bind, Option.bind_some]
  have hcovers : Budget.Covers ⟨p.depth, steps'⟩ ⟨p.depth, steps⟩ := ⟨rfl, hle⟩
  have hstring (kind : StringKind) (length : Option Nat) :
      Extends (readString kind ⟨p.depth, steps⟩ length) (readString kind ⟨p.depth, steps'⟩ length) :=
    readString_extends kind hcovers length
  have hfinish {frames : List Frame} {depth : Nat} {rest : Bytes}
      (h : some (Pending.finish frames depth rest) = some q) :
      some (Pending.finish frames depth (rest ++ more)) = some (q.append more) := by
    obtain rfl := Option.some.inj h
    rfl
  cases head with
  | unsigned n => exact hfinish h
  | negative n => exact hfinish h
  | float => exact hfinish h
  | simple n =>
    dsimp only at h ⊢
    split at h
    next hknown => rw [if_pos hknown]; exact hfinish h
    next => exact nomatch h
  | bytes length =>
    obtain ⟨⟨content, behind⟩, hcontent, h⟩ := Option.bind_eq_some_iff.mp h
    simp only [Pending.append, hstring .bytes length hcontent more, Option.bind_some]
    exact hfinish h
  | text length =>
    obtain ⟨⟨content, behind⟩, hcontent, h⟩ := Option.bind_eq_some_iff.mp h
    simp only [Pending.append, hstring .text length hcontent more, Option.bind_some]
    exact hfinish h
  | stop =>
    obtain ⟨frames, hframes, h⟩ := Option.bind_eq_some_iff.mp h
    simp only [Pending.append, hframes, Option.bind_some]
    exact hfinish h
  | array length => exact Pending.enter_append h more
  | map length => exact Pending.enter_append h more
  | tag t =>
    -- a short big number is one item; every other tag is entered, and its content comes next
    dsimp only at h ⊢
    cases hbig : skipBigNumber t rest with
    | none =>
      rw [hbig] at h
      rw [skipBigNumber_none_append hbig]
      exact Pending.enter_append h more
    | some result =>
      rw [hbig] at h
      obtain ⟨behind, rfl, h⟩ := Option.bind_eq_some_iff.mp h
      rw [skipBigNumber_some_append hbig]
      exact hfinish h

/-- All steps together leave over what was there, and what is behind it. -/
theorem Pending.skip_append {steps' : Nat} {p : Pending} (hle : steps ≤ steps')
    (h : p.skip steps = some rest) (more : Bytes) :
    (p.append more).skip steps' = some (rest ++ more) := by
  induction steps generalizing steps' p with
  | zero => exact nomatch h
  | succ steps ih =>
    obtain ⟨steps', rfl⟩ := Nat.exists_eq_succ_of_ne_zero (Nat.ne_zero_of_lt hle)
    replace hle := Nat.le_of_succ_le_succ hle
    unfold Pending.skip at h ⊢
    cases hstep : p.step steps with
    | none =>
      rw [hstep] at h
      exact nomatch h
    | some q =>
      rw [hstep] at h
      simp only [Pending.step_append hle hstep more]
      dsimp only at h
      split at h
      next hdone =>
        obtain rfl := Option.some.inj h
        exact if_pos hdone
      next hdone => exact (if_neg hdone).trans (ih hle h)

/-- An item that is passed over ends at the same byte with more behind it. -/
theorem skipItem_append (hcovers : larger.Covers budget) (h : skipItem budget bs = some rest)
    (more : Bytes) : skipItem larger (bs ++ more) = some (rest ++ more) := by
  have hskip := Pending.skip_append hcovers.steps h more
  rw [skipItem, hcovers.depth]
  exact hskip

end EndToEnd.Cbor
