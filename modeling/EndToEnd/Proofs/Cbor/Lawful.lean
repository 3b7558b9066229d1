import EndToEnd.Proofs.Cbor.Extending
import Mathlib.Data.List.Basic

/-!
# Lawful codecs

A codec is lawful if what is written of a value is read back, and values are read up to their end.
Written forms of `2⁶⁴` bytes and more are left out: no head announces such a length. A form that is
shorter has shorter parts, so nothing has to be assumed of the parts of a value.

Main statements:

- `Codec.Lawful.list`, `Codec.octets_lawful`: sequences;
- `Codec.Lawful.record`: a record, if its fields have different names.
-/

namespace EndToEnd.Cbor

variable {α : Type} {budget larger : Budget} {depth : Nat} {bs rest : Bytes}

/-! ## Values read up to their end -/

namespace Codec

/-- Values are read up to their end: what is read of some bytes is read of them with more behind, by
every budget that covers the first, and the more is left over. Nothing is read of no bytes. -/
structure ReadsToEnd (c : Codec α) : Prop where
  extends_read : ∀ {budget larger : Budget}, larger.Covers budget →
    Extends (c.read budget) (c.read larger)
  read_nil : ∀ budget, c.read budget [] = none

/-- A number looks no further than itself, whatever is asked of its value. -/
theorem readWord_readsToEnd (ofNat? : Nat → Option α) (write : α → Bytes) (absent : Option α)
    (ofByte : UInt8 → Option α) :
    ReadsToEnd ⟨write, readWord ofNat?, absent, ofByte⟩ := by
  refine ⟨fun hcovers bs v rest h more => ?_, fun budget => ?_⟩
  · exact (readNat_extends hcovers hcovers.steps).convert ofNat? h more
  · simp only [readWord]
    unfold readNat
    rfl

theorem octet_readsToEnd : octet.ReadsToEnd := readWord_readsToEnd _ _ _ _
theorem word32_readsToEnd : word32.ReadsToEnd := readWord_readsToEnd _ _ _ _
theorem deviceId_readsToEnd : deviceId.ReadsToEnd := readWord_readsToEnd _ _ _ _

theorem bool_readsToEnd : bool.ReadsToEnd := by
  refine ⟨readBool_extends, fun budget => ?_⟩
  show readBool budget [] = none
  rw [readBool, readPastTags_nil]

theorem text_readsToEnd : text.ReadsToEnd := by
  refine ⟨readText_extends, fun budget => ?_⟩
  show readText budget [] = none
  rw [readText, readPastTags_nil]
  rfl

variable {c : Codec α}

/-- Items that read to their end make an array that does. -/
theorem readArray_extends (hc : c.ReadsToEnd) (hcovers : larger.Covers budget)
    (length : Option Nat) : Extends (readArray c budget length) (readArray c larger length) := by
  intro bs items rest h more
  obtain ⟨inner, hinner, h⟩ := Option.bind_eq_some_iff.mp h
  obtain ⟨inner', hinner', hcovers'⟩ := descend_covers hcovers hinner
  simp only [readArray, hinner', Option.bind_eq_bind, Option.bind_some]
  cases length with
  | some count =>
    exact readItems_extends (hc.extends_read hcovers') (hc.read_nil inner) (Nat.le_refl count)
      (.inr rfl) [] h more
  | none =>
    dsimp only at h
    exact readItems_extends (hc.extends_read hcovers') (hc.read_nil inner) hcovers.steps
      (.inl rfl) [] h more

/-- A list of what reads to its end reads to its end. -/
theorem ReadsToEnd.list (hc : c.ReadsToEnd) : c.list.ReadsToEnd := by
  refine ⟨fun {budget larger} hcovers bs items rest h more => ?_, fun budget => ?_⟩
  · obtain ⟨⟨head, behind⟩, hhead, h⟩ := Option.bind_eq_some_iff.mp h
    simp only [Codec.list, readPastTags_extends hcovers.steps hhead more, Option.bind_eq_bind,
      Option.bind_some]
    dsimp only at h
    split at h
    next length => exact readArray_extends hc hcovers length h more
    next length =>
      exact (readString_extends .bytes hcovers length).convert (·.mapM c.ofByte) h more
    next => cases h
  · simp only [Codec.list, readPastTags_nil]
    rfl

/-- The same for the front of an array. -/
theorem readArrayFront_extends (hc : c.ReadsToEnd) (n : Nat) (hcovers : larger.Covers budget)
    (length : Option Nat) :
    Extends (readArrayFront c n budget length) (readArrayFront c n larger length) := by
  intro bs items rest h more
  obtain ⟨inner, hinner, h⟩ := Option.bind_eq_some_iff.mp h
  obtain ⟨inner', hinner', hcovers'⟩ := descend_covers hcovers hinner
  have hfront (unbounded : Bool) :
      Extends (readFirst (c.read inner) unbounded n []) (readFirst (c.read inner') unbounded n []) :=
    readFirst_extends (hc.extends_read hcovers') (hc.read_nil inner) n []
  simp only [readArrayFront, hinner', Option.bind_eq_bind, Option.bind_some]
  cases length with
  | some count =>
    dsimp only at h ⊢
    split at h
    next henough => exact (if_pos henough).trans (hfront false h more)
    next => cases h
  | none => exact hfront true h more

/-- Octets of fixed length are an array or a byte string, and both end where they did. -/
theorem octets_readsToEnd (n : Nat) : (octets n).ReadsToEnd := by
  refine ⟨fun {budget larger} hcovers bs o rest h more => ?_, fun budget => ?_⟩
  · obtain ⟨⟨head, behind⟩, hhead, h⟩ := Option.bind_eq_some_iff.mp h
    simp only [octets, readPastTags_extends hcovers.steps hhead more, Option.bind_eq_bind,
      Option.bind_some]
    dsimp only at h
    split at h
    next length =>
      exact (readArrayFront_extends octet_readsToEnd n hcovers length).convert
        (fun content => Octets.ofBytes? n (content.take n)) h more
    next length =>
      exact (readString_extends .bytes hcovers length).convert
        (fun content => Octets.ofBytes? n (content.take n)) h more
    next => cases h
  · simp only [octets, readPastTags_nil]
    rfl

end Codec

/-! ## Records -/

namespace Slots

variable {fs : List Field}

/-- A key that is no field's name is filled in nowhere, whatever follows it. -/
theorem fill_eq_none {key : Bytes} {slots : Slots fs} :
    fill budget key bs fs slots = none ↔ ∀ f ∈ fs, key ≠ Bytes.ofText f.name := by
  induction fs with
  | nil => exact ⟨fun _ f hf => absurd hf List.not_mem_nil, fun _ => rfl⟩
  | cons f fs ih =>
    obtain ⟨slot, slots⟩ := slots
    rw [List.forall_mem_cons, ← ih]
    simp only [fill]
    by_cases hname : key = Bytes.ofText f.name
    · rw [if_pos hname]
      exact ⟨fun h => absurd h (Option.some_ne_none _), fun h => absurd hname h.1⟩
    · rw [if_neg hname, Option.map_eq_none_iff]
      exact ⟨fun h => ⟨hname, h⟩, And.right⟩

/-- A slot that is filled is filled alike with more behind it. -/
theorem fill_extends (hfs : ∀ f ∈ fs, f.codec.ReadsToEnd) (hcovers : larger.Covers budget)
    {key : Bytes} {slots filled : Slots fs}
    (h : fill budget key bs fs slots = some (some (filled, rest))) (more : Bytes) :
    fill larger key (bs ++ more) fs slots = some (some (filled, rest ++ more)) := by
  induction fs with
  | nil => cases h
  | cons f fs ih =>
    obtain ⟨hf, hfs⟩ := List.forall_mem_cons.mp hfs
    obtain ⟨slot, slots⟩ := slots
    simp only [fill] at h ⊢
    split at h
    next hname =>
      replace h := Option.some.inj h
      rw [if_pos hname]
      cases slot with
      | some _ => cases h
      | none =>
        obtain ⟨⟨v, behind⟩, hread, heq⟩ := Option.map_eq_some_iff.mp h
        obtain ⟨rfl, rfl⟩ := Prod.mk.inj heq
        simp only [hf.extends_read hcovers hread more, Option.map_some]
    next hname =>
      rw [if_neg hname]
      obtain ⟨result, hfill, heq⟩ := Option.map_eq_some_iff.mp h
      obtain ⟨⟨slots', behind⟩, hresult, heq⟩ := Option.map_eq_some_iff.mp heq
      obtain ⟨rfl, rfl⟩ := Prod.mk.inj heq
      subst hresult
      simp only [ih hfs hfill, Option.map_some]

/-- An entry is a key and a value or an item that is passed over, and each ends where it did. -/
theorem readEntry_extends (hfs : ∀ f ∈ fs, f.codec.ReadsToEnd) (hcovers : larger.Covers budget)
    (slots : Slots fs) : Extends (readEntry budget fs slots) (readEntry larger fs slots) := by
  intro bs filled rest h more
  obtain ⟨⟨key, behind⟩, hkey, h⟩ := Option.bind_eq_some_iff.mp h
  simp only [readEntry, readKey_extends hcovers hkey more, Option.bind_eq_bind, Option.bind_some]
  dsimp only at h
  cases hfill : fill budget key behind fs slots with
  | none =>
    -- the key alone decides that the item behind it is passed over
    have hfill' : fill larger key (behind ++ more) fs slots = none :=
      fill_eq_none.mpr (fill_eq_none.mp hfill)
    rw [hfill] at h
    obtain ⟨rest', hskip, h⟩ := Option.bind_eq_some_iff.mp h
    obtain ⟨rfl, rfl⟩ := Prod.mk.inj (Option.some.inj h)
    simp only [hfill', skipItem_append hcovers hskip more, Option.bind_some]
    rfl
  | some result =>
    rw [hfill] at h
    obtain rfl : result = some (filled, rest) := h
    simp only [fill_extends hfs hcovers hfill more]

/-- There is no entry where there are no bytes. -/
theorem readEntry_nil (slots : Slots fs) : readEntry budget fs slots [] = none := by
  rw [readEntry, readKey, readPastTags_nil]
  rfl

/-- One round of reading entries: the map closes, or another one is read. -/
theorem readEntries_succ (unbounded : Bool) (count : Nat) (slots : Slots fs) (bs : Bytes) :
    readEntries budget fs unbounded (count + 1) slots bs =
      match closing unbounded bs with
      | some rest => some (slots, rest)
      | none => (readEntry budget fs slots bs).bind fun (slots, rest) =>
        readEntries budget fs unbounded count slots rest := by
  cases unbounded with
  | false => rfl
  | true =>
    conv_lhs => unfold readEntries
    rw [show closing true bs = readStop? bs from rfl]
    cases readStop? bs <;> rfl

/-- Entries that are read one by one are read with more behind them. -/
theorem readEntries_extends (hfs : ∀ f ∈ fs, f.codec.ReadsToEnd) (hcovers : larger.Covers budget)
    {unbounded : Bool} {count count' : Nat} (hle : count ≤ count')
    (hbounded : unbounded = true ∨ count' = count) (slots : Slots fs) :
    Extends (readEntries budget fs unbounded count slots)
      (readEntries larger fs unbounded count' slots) := by
  intro bs filled rest h more
  induction count generalizing count' slots bs with
  | zero =>
    cases unbounded with
    | true => exact nomatch h
    | false =>
      obtain rfl := hbounded.resolve_left nofun
      obtain ⟨rfl, rfl⟩ := Prod.mk.inj (Option.some.inj h)
      rfl
  | succ count ih =>
    obtain ⟨count', rfl⟩ := Nat.exists_eq_succ_of_ne_zero (Nat.ne_zero_of_lt hle)
    rw [readEntries_succ] at h
    -- with no bytes left there is neither a stop nor an entry
    have hbs : bs ≠ [] := by
      rintro rfl
      rw [closing_nil, readEntry_nil] at h
      exact nomatch h
    rw [readEntries_succ, closing_append unbounded hbs]
    cases hclosing : closing unbounded bs with
    | some behind =>
      rw [hclosing] at h
      obtain ⟨rfl, rfl⟩ := Prod.mk.inj (Option.some.inj h)
      rfl
    | none =>
      rw [hclosing] at h
      obtain ⟨⟨slots', behind⟩, hentry, h⟩ := Option.bind_eq_some_iff.mp h
      simp only [Option.map_none, readEntry_extends hfs hcovers slots hentry more,
        Option.bind_some]
      exact ih (Nat.le_of_succ_le_succ hle) (hbounded.imp_right Nat.succ.inj) slots' h

end Slots

/-- A record whose fields read to their ends reads to its end. -/
theorem readRecord_extends {fs : List Field} (hfs : ∀ f ∈ fs, f.codec.ReadsToEnd)
    (hcovers : larger.Covers budget) : Extends (readRecord fs budget) (readRecord fs larger) := by
  intro bs values rest h more
  obtain ⟨⟨head, behind⟩, hhead, h⟩ := Option.bind_eq_some_iff.mp h
  split at h
  next length rest' heq =>
    obtain ⟨rfl, rfl⟩ := Prod.mk.inj heq
    obtain ⟨inner, hinner, h⟩ := Option.bind_eq_some_iff.mp h
    obtain ⟨inner', hinner', hcovers'⟩ := descend_covers hcovers hinner
    simp only [readRecord, readPastTags_extends hcovers.steps hhead more, hinner',
      Option.bind_eq_bind, Option.bind_some]
    cases length with
    | some count =>
      exact (Slots.readEntries_extends hfs hcovers' (Nat.le_refl count) (.inr rfl) _).convert _ h more
    | none =>
      exact (Slots.readEntries_extends hfs hcovers' hcovers.steps (.inl rfl) _).convert _ h more
  next => cases h

/-- A record is read up to its end if its fields are. -/
theorem Codec.ReadsToEnd.record {fs : List Field} {toValues : α → Values fs}
    {ofValues : Values fs → α} (hfs : ∀ f ∈ fs, f.codec.ReadsToEnd) :
    (Codec.record fs toValues ofValues).ReadsToEnd := by
  refine ⟨fun {budget larger} hcovers bs v rest h more => ?_, fun budget => ?_⟩
  · obtain ⟨⟨values, behind⟩, hread, heq⟩ := Option.map_eq_some_iff.mp h
    obtain ⟨rfl, rfl⟩ := Prod.mk.inj heq
    simp only [Codec.record, readRecord_extends hfs hcovers hread more, Option.map_some]
  · simp only [Codec.record, readRecord, readPastTags_nil]
    rfl

/-! ## Lawful codecs -/

namespace Codec

/-- Values are read up to their end, and by every budget of so many levels they are read back, if
their written form is shorter than the lengths that a head announces. -/
structure Lawful (c : Codec α) (depth : Nat) : Prop extends c.ReadsToEnd where
  readsBack : ∀ v, (c.write v).length < UInt64.size → c.ReadsBack depth v

variable {c : Codec α}

theorem Lawful.mono {deeper : Nat} (hc : c.Lawful depth) (hle : depth ≤ deeper) :
    c.Lawful deeper :=
  ⟨hc.toReadsToEnd, fun v hshort => (hc.readsBack v hshort).mono hle⟩

/-- Something is written of every value, or it could not be read back. -/
theorem Lawful.write_ne_nil (hc : c.Lawful depth) (v : α) : c.write v ≠ [] := by
  intro hnil
  have hshort : (c.write v).length < UInt64.size := by
    rw [hnil]
    decide
  have hback := hc.readsBack v hshort ⟨depth, 0⟩ [] (Nat.le_refl depth)
  rw [hnil, List.append_nil, hc.read_nil] at hback
  exact nomatch hback

theorem octet_lawful : octet.Lawful 0 := ⟨octet_readsToEnd, fun b _ => octet_readsBack b⟩

theorem word32_lawful : word32.Lawful 0 := ⟨word32_readsToEnd, fun n _ => word32_readsBack n⟩

theorem deviceId_lawful : deviceId.Lawful 0 :=
  ⟨deviceId_readsToEnd, fun d _ => deviceId_readsBack d⟩

theorem bool_lawful : bool.Lawful 0 := ⟨bool_readsToEnd, fun b _ => bool_readsBack b⟩

theorem text_lawful : text.Lawful 0 := by
  refine ⟨text_readsToEnd, fun s hshort => text_readsBack ?_⟩
  refine Nat.lt_of_le_of_lt ?_ hshort
  show _ ≤ (writeHead 3 (Bytes.ofText s).length ++ Bytes.ofText s).length
  rw [List.length_append]
  exact Nat.le_add_left _ _

/-- A sequence has no more values than its written form has bytes. -/
theorem Lawful.length_le_length_flatMap (hc : c.Lawful depth) (items : List α) :
    items.length ≤ (items.flatMap c.write).length := by
  induction items with
  | nil => exact Nat.le_refl 0
  | cons v items ih =>
    have hv : 0 < (c.write v).length := List.length_pos_iff.mpr (hc.write_ne_nil v)
    rw [List.flatMap_cons, List.length_append, List.length_cons]
    omega

/-- A list goes one level deeper than its items. -/
theorem Lawful.list (hc : c.Lawful depth) : c.list.Lawful (depth + 1) := by
  refine ⟨hc.toReadsToEnd.list, fun items hshort => ?_⟩
  have hflat : (items.flatMap c.write).length < UInt64.size := by
    refine Nat.lt_of_le_of_lt ?_ hshort
    show _ ≤ (writeHead 4 items.length ++ items.flatMap c.write).length
    rw [List.length_append]
    exact Nat.le_add_left _ _
  refine ReadsBack.list (Nat.lt_of_le_of_lt (hc.length_le_length_flatMap items) hflat) ?_
  intro v hv
  have hinfix := List.infix_of_mem_flatten (List.mem_map_of_mem (f := c.write) hv)
  exact hc.readsBack v (Nat.lt_of_le_of_lt hinfix.length_le hflat)

theorem bytes_lawful : bytes.Lawful 1 := octet_lawful.list

theorem octets_lawful {n : Nat} (hn : n < UInt64.size) : (octets n).Lawful 1 :=
  ⟨octets_readsToEnd n, fun o _ => octets_readsBack hn o⟩

end Codec

/-- Values whose written forms together are short are each read back. -/
theorem Values.readBack {fs : List Field} (hfs : ∀ f ∈ fs, f.codec.Lawful depth) (vs : Values fs)
    (hshort : (Values.write fs vs).length < UInt64.size) : vs.ReadBack depth := by
  induction fs with
  | nil => exact trivial
  | cons f fs ih =>
    obtain ⟨hf, hfs⟩ := List.forall_mem_cons.mp hfs
    obtain ⟨v, vs⟩ := vs
    simp only [Values.write, List.length_append] at hshort
    exact ⟨hf.readsBack v (by omega), ih hfs vs (by omega)⟩

/-- A record is lawful if its fields are. -/
theorem Codec.Lawful.record {fs : List Field} {toValues : α → Values fs}
    {ofValues : Values fs → α} (hfs : ∀ f ∈ fs, f.codec.Lawful depth) (hnames : WellNamed fs)
    (hlength : fs.length < UInt64.size) (hinverse : ∀ v, ofValues (toValues v) = v) :
    (Codec.record fs toValues ofValues).Lawful (depth + 1) := by
  refine ⟨.record fun f hf => (hfs f hf).toReadsToEnd, fun v hshort => ?_⟩
  refine .record hnames hlength (hinverse v) (Values.readBack hfs _ (Nat.lt_of_le_of_lt ?_ hshort))
  show _ ≤ (writeHead 5 fs.length ++ Values.write fs (toValues v)).length
  rw [List.length_append]
  exact Nat.le_add_left _ _

end EndToEnd.Cbor
