import EndToEnd.Proofs.Cbor.Growth
import EndToEnd.Proofs.Cbor.Lawful

/-!
# What is written of what was read

A value has one written form and many that are read, so a value that was read may be written with
more bytes than it had. A byte string is written as an array, with two bytes for most of its bytes;
a number of five bytes behind a tag is written behind a head of its own, in nine. It stays below
twice as much. Every value pays for one byte more than half of what is written of it, and that byte
is its share in the head of the sequence that it is in.

Main statements:

- `Codec.AtMostDoubles.list`, `Codec.octets_atMostDoubles`: sequences;
- `Codec.AtMostDoubles.record`: a record, if its fields at most double.
-/

namespace EndToEnd.Cbor

variable {α : Type} {budget : Budget} {bs rest : Bytes} {length : Option Nat}

/-! ## Codecs -/

/-- Less than twice as much is written of a value as was read of it. A byte of a byte string is
written with two bytes or fewer, and nothing stands for a value that is missing. Documents of `2³²`
bytes are left out: a byte string in pieces does not pay for the longest of heads. -/
structure Codec.AtMostDoubles (c : Codec α) : Prop where
  of_read : ∀ {budget : Budget} {bs rest : Bytes} {v : α}, bs.length < UInt32.size →
    c.read budget bs = some (v, rest) → (c.write v).length + 1 + 2 * rest.length ≤ 2 * bs.length
  of_byte : ∀ {b : UInt8} {v : α}, c.ofByte b = some v → (c.write v).length ≤ 2
  of_absent : c.absent = none

namespace Codec

/-- A word at most doubles if it is written no longer than the number that was read for it. -/
theorem readWord_atMostDoubles {ofNat? : Nat → Option α} {write : α → Bytes}
    {ofByte : UInt8 → Option α}
    (hwrite : ∀ n v, ofNat? n = some v → (write v).length ≤ numberLength n)
    (hbyte : ∀ {b v}, ofByte b = some v → (write v).length ≤ 2) :
    AtMostDoubles ⟨write, readWord ofNat?, none, ofByte⟩ := by
  refine ⟨fun {budget bs rest v} _ h => ?_, hbyte, rfl⟩
  obtain ⟨⟨n, rest'⟩, hread, h⟩ := Option.bind_eq_some_iff.mp h
  obtain ⟨v', hv, h⟩ := Option.bind_eq_some_iff.mp h
  obtain ⟨rfl, rfl⟩ := Prod.mk.inj (Option.some.inj h)
  have hgrowth := readNat_growth hread
  have hlength := hwrite n v' hv
  dsimp only
  omega

/-- An octet is written with two bytes or fewer. -/
theorem octet_length (b : UInt8) : (octet.write b).length ≤ 2 := by
  have hbyte : b.toNat < 256 := b.toNat_lt
  refine Nat.le_trans (length_writeHead_le 0 b.toNat) ?_
  unfold numberLength
  split_ifs <;> omega

/-- A number that fits its type is written with no more bytes than it could be read of. -/
theorem length_writeNat_le {size : Nat} {ofNat : Nat → α} {toNat : α → Nat}
    (hback : ∀ n < size, toNat (ofNat n) = n) (n : Nat) (v : α)
    (h : (if n < size then some (ofNat n) else none) = some v) :
    (writeNat (toNat v)).length ≤ numberLength n := by
  split at h
  next hsmall =>
    obtain rfl := Option.some.inj h
    rw [hback n hsmall]
    exact length_writeHead_le 0 n
  next => exact nomatch h

theorem octet_atMostDoubles : octet.AtMostDoubles :=
  readWord_atMostDoubles (length_writeNat_le fun _ h => Nat.mod_eq_of_lt h) fun _ => octet_length _

theorem word32_atMostDoubles : word32.AtMostDoubles :=
  readWord_atMostDoubles (length_writeNat_le fun _ h => Nat.mod_eq_of_lt h) nofun

/-- A large identifier is written as a big number, which was not read of fewer bytes either. -/
theorem deviceId_atMostDoubles : deviceId.AtMostDoubles := by
  refine readWord_atMostDoubles (fun n d hd => ?_) nofun
  unfold DeviceId.ofNat? at hd
  split at hd
  next =>
    obtain rfl := Option.some.inj hd
    dsimp only
    split
    next => exact length_writeHead_le 0 n
    next hbig =>
      have hcontent : ((Bytes.bigEndian 16 n).dropWhile (· = 0)).length ≤ 16 :=
        Nat.le_trans (List.dropWhile_sublist _).length_le (Nat.le_of_eq (Bytes.length_bigEndian 16 n))
      have hhead := length_writeHead_le 2 ((Bytes.bigEndian 16 n).dropWhile (· = 0)).length
      have htag := length_writeHead_le 6 tagBig
      have hnumber : numberLength n = 18 := by
        rw [show Nat.pow 2 64 = 18446744073709551616 from rfl] at hbig
        unfold numberLength
        split_ifs <;> omega
      have hsmall := numberLength_mono hcontent
      rw [show numberLength 16 = 1 from rfl] at hsmall
      rw [show numberLength tagBig = 1 from rfl] at htag
      simp only [List.length_append, DeviceId.bytes]
      omega
  next => exact nomatch hd

theorem bool_atMostDoubles : bool.AtMostDoubles := by
  refine ⟨fun {budget bs rest b} _ h => ?_, nofun, rfl⟩
  have hwrite : (bool.write b).length = 1 := by cases b <;> rfl
  have hread : ∃ n, readPastTags budget.steps bs = some (.simple n, rest) := by
    change readBool budget bs = some (b, rest) at h
    unfold readBool at h
    split at h
    next n rest' hhead =>
      split at h
      next =>
        obtain ⟨-, rfl⟩ := Prod.mk.inj (Option.some.inj h)
        exact ⟨n, hhead⟩
      next =>
        split at h
        next =>
          obtain ⟨-, rfl⟩ := Prod.mk.inj (Option.some.inj h)
          exact ⟨n, hhead⟩
        next => exact nomatch h
    next => exact nomatch h
  obtain ⟨n, hread⟩ := hread
  have hhead := readPastTags_consumes hread
  omega

/-- A text is written with a head that is no longer than the text and one byte. -/
theorem length_text_le (s : String) :
    (text.write s).length ≤ 2 * (Bytes.ofText s).length + 1 := by
  have hhead := length_writeHead_le 3 (Bytes.ofText s).length
  have hshort := numberLength_le_succ (Bytes.ofText s).length
  show (writeHead 3 _ ++ Bytes.ofText s).length ≤ _
  rw [List.length_append]
  omega

theorem text_atMostDoubles : text.AtMostDoubles := by
  refine ⟨fun {budget bs rest s} _ h => ?_, nofun, rfl⟩
  obtain ⟨⟨head, behind⟩, hhead, h⟩ := Option.bind_eq_some_iff.mp h
  split at h
  next length rest' heq =>
    obtain ⟨rfl, rfl⟩ := Prod.mk.inj heq
    obtain ⟨⟨content, behind'⟩, hcontent, h⟩ := Option.bind_eq_some_iff.mp h
    obtain ⟨s', htext, h⟩ := Option.bind_eq_some_iff.mp h
    obtain ⟨rfl, rfl⟩ := Prod.mk.inj (Option.some.inj h)
    obtain rfl := Bytes.ofText_of_toText? htext
    have hpast := readPastTags_consumes hhead
    have hstring := readString_length hcontent
    have hwrite := length_text_le s'
    omega
  next => exact nomatch h

/-! ### Sequences -/

variable {c : Codec α}

/-- Looking for a stop gives no bytes back. -/
theorem closing_length {unbounded : Bool} (h : closing unbounded bs = some rest) :
    rest.length ≤ bs.length := by
  unfold closing readStop? at h
  split at h
  next =>
    split at h
    next =>
      obtain rfl := Option.some.inj h
      exact Nat.le_succ _
    next => exact nomatch h
  next => exact nomatch h

/-- Values read one after another pay for all of them, and for a byte more each. -/
theorem readFirst_growth (hc : c.AtMostDoubles) {unbounded : Bool} {count : Nat} {done items : List α}
    (hsize : bs.length < UInt32.size)
    (h : readFirst (c.read budget) unbounded count done bs = some (items, rest)) :
    ∃ read, items = done.reverse ++ read ∧ read.length = count ∧
      (read.flatMap c.write).length + read.length + 2 * rest.length ≤ 2 * bs.length := by
  induction count generalizing done bs with
  | zero =>
    obtain ⟨rfl, rfl⟩ := Prod.mk.inj (Option.some.inj h)
    exact ⟨[], (List.append_nil _).symm, rfl, Nat.le_of_eq (Nat.zero_add _)⟩
  | succ count ih =>
    rw [readFirst_succ] at h
    split at h
    next => exact nomatch h
    next =>
      obtain ⟨⟨v, behind⟩, hread, h⟩ := Option.bind_eq_some_iff.mp h
      have hv := hc.of_read hsize hread
      obtain ⟨read, rfl, hlength, hgrowth⟩ := ih (by omega) h
      refine ⟨v :: read, ?_, congrArg _ hlength, ?_⟩
      · rw [List.reverse_cons, List.append_assoc, List.singleton_append]
      · rw [List.flatMap_cons, List.length_append, List.length_cons]
        omega

/-- So do values that are read up to a break. -/
theorem readItems_growth (hc : c.AtMostDoubles) {unbounded : Bool} {count : Nat}
    {done items : List α} (hsize : bs.length < UInt32.size)
    (h : readItems (c.read budget) unbounded count done bs = some (items, rest)) :
    ∃ read, items = done.reverse ++ read ∧
      (read.flatMap c.write).length + read.length + 2 * rest.length ≤ 2 * bs.length := by
  induction count generalizing done bs with
  | zero =>
    cases unbounded with
    | true => exact nomatch h
    | false =>
      obtain ⟨rfl, rfl⟩ := Prod.mk.inj (Option.some.inj h)
      exact ⟨[], (List.append_nil _).symm, Nat.le_of_eq (Nat.zero_add _)⟩
  | succ count ih =>
    rw [readItems_succ] at h
    split at h
    next behind hclosing =>
      obtain ⟨rfl, rfl⟩ := Prod.mk.inj (Option.some.inj h)
      refine ⟨[], (List.append_nil _).symm, ?_⟩
      have hbreak := closing_length hclosing
      simp only [List.flatMap_nil, List.length_nil]
      omega
    next =>
      obtain ⟨⟨v, behind⟩, hread, h⟩ := Option.bind_eq_some_iff.mp h
      have hv := hc.of_read hsize hread
      obtain ⟨read, rfl, hgrowth⟩ := ih (by omega) h
      refine ⟨v :: read, ?_, ?_⟩
      · rw [List.reverse_cons, List.append_assoc, List.singleton_append]
      · rw [List.flatMap_cons, List.length_append, List.length_cons]
        omega

/-- Values that bytes stand for are written with two bytes each, or fewer. -/
theorem mapM_ofByte_length (hc : c.AtMostDoubles) {content : Bytes} {items : List α}
    (h : content.mapM c.ofByte = some items) :
    items.length = content.length ∧ (items.flatMap c.write).length ≤ 2 * content.length := by
  induction content generalizing items with
  | nil =>
    obtain rfl := Option.some.inj h
    exact ⟨rfl, Nat.le_refl _⟩
  | cons b content ih =>
    rw [List.mapM_cons] at h
    obtain ⟨v, hv, h⟩ := Option.bind_eq_some_iff.mp h
    obtain ⟨items', hitems, h⟩ := Option.bind_eq_some_iff.mp h
    obtain rfl := Option.some.inj h
    obtain ⟨hlength, hgrowth⟩ := ih hitems
    have hbyte := hc.of_byte hv
    refine ⟨congrArg _ hlength, ?_⟩
    rw [List.flatMap_cons, List.length_append, List.length_cons]
    omega

/-- A list is its head and its items. -/
theorem length_list_le (items : List α) :
    (c.list.write items).length ≤ numberLength items.length + (items.flatMap c.write).length := by
  show (writeHead 4 items.length ++ items.flatMap c.write).length ≤ _
  rw [List.length_append]
  exact Nat.add_le_add_right (length_writeHead_le 4 items.length) _

/-- A list at most doubles if its items do: each of them pays a byte, and together they pay the
head. -/
theorem AtMostDoubles.list (hc : c.AtMostDoubles) : c.list.AtMostDoubles := by
  refine ⟨fun {budget bs rest items} hsize h => ?_, nofun, rfl⟩
  have hwrite := length_list_le (c := c) items
  obtain ⟨⟨head, behind⟩, hhead, h⟩ := Option.bind_eq_some_iff.mp h
  have hpast := readPastTags_length hhead
  have hpos := head.leastLength_pos
  dsimp only at h
  split at h
  next length =>
    -- the values pay for the announced length, whatever head there was
    have hitems : (items.flatMap c.write).length + items.length + 2 * rest.length ≤
        2 * behind.length := by
      obtain ⟨inner, -, h⟩ := Option.bind_eq_some_iff.mp h
      cases length with
      | some count =>
        obtain ⟨read, rfl, hgrowth⟩ := readItems_growth hc (by omega) h
        exact hgrowth
      | none =>
        obtain ⟨read, rfl, hgrowth⟩ := readItems_growth hc (by omega) h
        exact hgrowth
    have hcount := numberLength_le_succ items.length
    omega
  next length =>
    obtain ⟨⟨content, behind'⟩, hcontent, h⟩ := Option.bind_eq_some_iff.mp h
    obtain ⟨items', hitems, h⟩ := Option.bind_eq_some_iff.mp h
    obtain ⟨rfl, rfl⟩ := Prod.mk.inj (Option.some.inj h)
    obtain ⟨hlength, hgrowth⟩ := mapM_ofByte_length hc hitems
    have hstring := readString_growth (by omega) hcontent
    rw [hlength] at hwrite
    change length.elim 1 numberLength + behind.length ≤ bs.length at hpast
    dsimp only at *
    omega
  next => exact nomatch h

theorem bytes_atMostDoubles : bytes.AtMostDoubles := octet_atMostDoubles.list

/-- A byte string is written as an array, with at most two bytes for each of its own. -/
theorem length_bytes_le (content : Bytes) :
    (bytes.write content).length ≤ numberLength content.length + 2 * content.length := by
  have hgrowth : (content.flatMap octet.write).length ≤ 2 * content.length := by
    induction content with
    | nil => exact Nat.le_refl _
    | cons b content ih =>
      have hbyte := octet_length b
      rw [List.flatMap_cons, List.length_append, List.length_cons]
      omega
  exact Nat.le_trans (length_list_le (c := octet) content) (Nat.add_le_add_left hgrowth _)

/-- Of a front that is read, each item leaves a byte to pay the head with. -/
theorem readArrayFront_growth (hc : c.AtMostDoubles) {n : Nat} {items : List α}
    (hsize : bs.length < UInt32.size) (h : readArrayFront c n budget length bs = some (items, rest)) :
    items.length = n ∧
      (items.flatMap c.write).length + items.length + 2 * rest.length ≤ 2 * bs.length := by
  have hfront : ∃ unbounded inner,
      readFirst (c.read inner) unbounded n [] bs = some (items, rest) := by
    obtain ⟨inner, -, h⟩ := Option.bind_eq_some_iff.mp h
    cases length with
    | some count =>
      dsimp only at h
      split at h
      next => exact ⟨false, inner, h⟩
      next => exact nomatch h
    | none => exact ⟨true, inner, h⟩
  obtain ⟨unbounded, inner, hfront⟩ := hfront
  obtain ⟨read, rfl, hlength, hgrowth⟩ := readFirst_growth hc hsize hfront
  exact ⟨hlength, hgrowth⟩

/-- Octets of fixed length are read of an array or of a byte string, and at most double either way.
-/
theorem octets_atMostDoubles (n : Nat) : (octets n).AtMostDoubles := by
  refine ⟨fun {budget bs rest o} hsize h => ?_, nofun, rfl⟩
  show (bytes.write o.bytes).length + 1 + 2 * rest.length ≤ _
  obtain ⟨⟨head, behind⟩, hhead, h⟩ := Option.bind_eq_some_iff.mp h
  have hpast := readPastTags_length hhead
  have hpos := head.leastLength_pos
  dsimp only at h
  split at h
  next length =>
    obtain ⟨⟨content, behind'⟩, hfront, h⟩ := Option.bind_eq_some_iff.mp h
    obtain ⟨o', ho, h⟩ := Option.bind_eq_some_iff.mp h
    obtain ⟨rfl, rfl⟩ := Prod.mk.inj (Option.some.inj h)
    obtain ⟨hlength, hgrowth⟩ := readArrayFront_growth octet_atMostDoubles (by omega) hfront
    have hbytes := Octets.ofBytes?_eq_some_iff.mp ho
    rw [List.take_of_length_le (Nat.le_of_eq hlength)] at hbytes
    have hwrite := length_list_le (c := octet) content
    have hcount := numberLength_le_succ content.length
    rw [← hbytes]
    change (bytes.write content).length ≤ _ at hwrite
    dsimp only
    omega
  next length =>
    obtain ⟨⟨content, behind'⟩, hcontent, h⟩ := Option.bind_eq_some_iff.mp h
    obtain ⟨o', ho, h⟩ := Option.bind_eq_some_iff.mp h
    obtain ⟨rfl, rfl⟩ := Prod.mk.inj (Option.some.inj h)
    -- a byte string that is too long is cut, and pays for what is dropped as well
    have hstring := readString_growth (by omega) hcontent
    have hwrite := length_bytes_le o'.bytes
    have hshort : o'.bytes.length ≤ content.length :=
      Octets.ofBytes?_eq_some_iff.mp ho ▸ (List.take_sublist n content).length_le
    have hcount := numberLength_mono hshort
    change length.elim 1 numberLength + behind.length ≤ bs.length at hpast
    dsimp only
    omega
  next => exact nomatch h

end Codec

/-! ## Records -/

namespace Slots

variable {fs : List Field}

/-- What is written of the values that are known, each behind the name of its field. -/
def writtenLength : (fs : List Field) → Slots fs → Nat
  | [], _ => 0
  | f :: fs, (slot, slots) =>
    (slot.elim 0 fun v => (Codec.text.write f.name).length + (f.codec.write v).length) +
      writtenLength fs slots

theorem writtenLength_empty : writtenLength fs (empty fs) = 0 := by
  induction fs with
  | nil => rfl
  | cons f fs ih => exact (Nat.zero_add _).trans ih

/-- A key is read with its head, which takes a byte at least. -/
theorem readKey_length {key : Bytes} (h : readKey budget bs = some (key, rest)) :
    1 + key.length + rest.length ≤ bs.length := by
  obtain ⟨⟨head, behind⟩, hhead, h⟩ := Option.bind_eq_some_iff.mp h
  have hpast := readPastTags_consumes hhead
  dsimp only at h
  split at h
  next size =>
    split at h
    next =>
      have hpiece := (readPiece_length h).2
      omega
    next => exact nomatch h
  next size =>
    split at h
    next =>
      have hpiece := (readPiece_length h).2
      omega
    next => exact nomatch h
  next => exact nomatch h

/-- A value that is filled in pays for itself and, with the bytes of its key, for its name. -/
theorem fill_growth (hfs : ∀ f ∈ fs, f.codec.AtMostDoubles) (hsize : bs.length < UInt32.size)
    {key : Bytes} {slots filled : Slots fs}
    (h : fill budget key bs fs slots = some (some (filled, rest))) :
    rest.length ≤ bs.length ∧ writtenLength fs filled + 2 * rest.length ≤
      writtenLength fs slots + 2 * key.length + 2 * bs.length := by
  induction fs with
  | nil => cases h
  | cons f fs ih =>
    obtain ⟨hf, hfs⟩ := List.forall_mem_cons.mp hfs
    obtain ⟨slot, slots⟩ := slots
    simp only [fill] at h
    split at h
    next hname =>
      replace h := Option.some.inj h
      cases slot with
      | some _ => cases h
      | none =>
        obtain ⟨⟨v, behind⟩, hread, heq⟩ := Option.map_eq_some_iff.mp h
        obtain ⟨rfl, rfl⟩ := Prod.mk.inj heq
        have hvalue := hf.of_read hsize hread
        -- the name of the field is the key that was read, and is paid by it
        have htext := Codec.length_text_le f.name
        rw [← hname] at htext
        simp only [writtenLength, Option.elim_some, Option.elim_none]
        omega
    next =>
      obtain ⟨result, hfill, heq⟩ := Option.map_eq_some_iff.mp h
      obtain ⟨⟨slots', behind⟩, hresult, heq⟩ := Option.map_eq_some_iff.mp heq
      obtain ⟨rfl, rfl⟩ := Prod.mk.inj heq
      subst hresult
      have hrest : behind.length ≤ bs.length ∧ writtenLength fs slots' + 2 * behind.length ≤
          writtenLength fs slots + 2 * key.length + 2 * bs.length := ih hfs hfill
      simp only [writtenLength]
      omega

/-- An entry adds to what is written no more than twice the bytes that it was read of. -/
theorem readEntry_growth (hfs : ∀ f ∈ fs, f.codec.AtMostDoubles) (hsize : bs.length < UInt32.size)
    {slots filled : Slots fs} (h : readEntry budget fs slots bs = some (filled, rest)) :
    rest.length ≤ bs.length ∧
      writtenLength fs filled + 2 * rest.length ≤ writtenLength fs slots + 2 * bs.length := by
  obtain ⟨⟨key, behind⟩, hkey, h⟩ := Option.bind_eq_some_iff.mp h
  have hlength := readKey_length hkey
  dsimp only at h
  cases hfill : fill budget key behind fs slots with
  | none =>
    rw [hfill] at h
    obtain ⟨rest', hskip, h⟩ := Option.bind_eq_some_iff.mp h
    obtain ⟨rfl, rfl⟩ := Prod.mk.inj (Option.some.inj h)
    have hpassed := skipItem_length hskip
    omega
  | some result =>
    rw [hfill] at h
    obtain rfl : result = some (filled, rest) := h
    have hgrowth := fill_growth hfs (by omega) hfill
    omega

/-- By induction on the entries, the same of all of them. -/
theorem readEntries_growth (hfs : ∀ f ∈ fs, f.codec.AtMostDoubles) {unbounded : Bool} {count : Nat}
    (hsize : bs.length < UInt32.size) {slots filled : Slots fs}
    (h : readEntries budget fs unbounded count slots bs = some (filled, rest)) :
    writtenLength fs filled + 2 * rest.length ≤ writtenLength fs slots + 2 * bs.length := by
  induction count generalizing slots bs with
  | zero =>
    cases unbounded with
    | true => exact nomatch h
    | false =>
      obtain ⟨rfl, rfl⟩ := Prod.mk.inj (Option.some.inj h)
      exact Nat.le_refl _
  | succ count ih =>
    rw [readEntries_succ] at h
    split at h
    next behind hclosing =>
      obtain ⟨rfl, rfl⟩ := Prod.mk.inj (Option.some.inj h)
      have hbreak := Codec.closing_length hclosing
      omega
    next =>
      obtain ⟨⟨slots', behind⟩, hentry, h⟩ := Option.bind_eq_some_iff.mp h
      obtain ⟨hlength, hfirst⟩ := readEntry_growth hfs hsize hentry
      have hrest := ih (Nat.lt_of_le_of_lt hlength hsize) h
      omega

/-- Once every value is there, what was counted is what is written. -/
theorem length_write_of_values? (hfs : ∀ f ∈ fs, f.codec.AtMostDoubles) {slots : Slots fs}
    {vs : Values fs} (h : slots.values? = some vs) :
    (Values.write fs vs).length = writtenLength fs slots := by
  induction fs with
  | nil => rfl
  | cons f fs ih =>
    obtain ⟨hf, hfs⟩ := List.forall_mem_cons.mp hfs
    obtain ⟨slot, slots⟩ := slots
    obtain ⟨v, hv, h⟩ := Option.bind_eq_some_iff.mp h
    obtain ⟨vs', hvs, h⟩ := Option.bind_eq_some_iff.mp h
    obtain rfl := Option.some.inj h
    cases slot with
    | none => exact nomatch hf.of_absent.symm.trans hv
    | some v' =>
      obtain rfl := Option.some.inj hv
      simp only [Values.write, writtenLength, Option.elim_some, List.length_append, ih hfs hvs]

end Slots

/-- A record of few fields at most doubles if they do. -/
theorem Codec.AtMostDoubles.record {fs : List Field} {toValues : α → Values fs}
    {ofValues : Values fs → α} (hfs : ∀ f ∈ fs, f.codec.AtMostDoubles) (hfew : fs.length < 24)
    (hinverse : ∀ vs, toValues (ofValues vs) = vs) :
    (Codec.record fs toValues ofValues).AtMostDoubles := by
  refine ⟨fun {budget bs rest v} hsize h => ?_, nofun, rfl⟩
  obtain ⟨⟨vs, behind⟩, hread, heq⟩ := Option.map_eq_some_iff.mp h
  obtain ⟨rfl, rfl⟩ := Prod.mk.inj heq
  have hwrite : ((Codec.record fs toValues ofValues).write (ofValues vs)).length ≤
      1 + (Values.write fs vs).length := by
    show (writeHead 5 fs.length ++ Values.write fs (toValues (ofValues vs))).length ≤ _
    rw [hinverse, List.length_append]
    refine Nat.add_le_add_right (Nat.le_trans (length_writeHead_le 5 fs.length) ?_) _
    rw [numberLength, if_pos hfew]
  obtain ⟨⟨head, rest'⟩, hhead, hread⟩ := Option.bind_eq_some_iff.mp hread
  have hpast := readPastTags_consumes hhead
  split at hread
  next length rest'' heq =>
    obtain ⟨rfl, rfl⟩ := Prod.mk.inj heq
    obtain ⟨inner, -, hread⟩ := Option.bind_eq_some_iff.mp hread
    -- the map may announce its entries or close behind them, and is written closed either way
    have hentries : ∃ unbounded count filled,
        Slots.readEntries inner fs unbounded count (.empty fs) rest' = some (filled, behind) ∧
          filled.values? = some vs := by
      cases length with
      | some count =>
        obtain ⟨⟨filled, behind'⟩, hentries, hread⟩ := Option.bind_eq_some_iff.mp hread
        obtain ⟨vs', hvalues, hread⟩ := Option.bind_eq_some_iff.mp hread
        obtain ⟨rfl, rfl⟩ := Prod.mk.inj (Option.some.inj hread)
        exact ⟨false, count, filled, hentries, hvalues⟩
      | none =>
        obtain ⟨⟨filled, behind'⟩, hentries, hread⟩ := Option.bind_eq_some_iff.mp hread
        obtain ⟨vs', hvalues, hread⟩ := Option.bind_eq_some_iff.mp hread
        obtain ⟨rfl, rfl⟩ := Prod.mk.inj (Option.some.inj hread)
        exact ⟨true, budget.steps, filled, hentries, hvalues⟩
    obtain ⟨unbounded, count, filled, hentries, hvalues⟩ := hentries
    have hgrowth := Slots.readEntries_growth hfs (by omega) hentries
    rw [Slots.writtenLength_empty, ← Slots.length_write_of_values? hfs hvalues] at hgrowth
    omega
  next => cases hread

end EndToEnd.Cbor
