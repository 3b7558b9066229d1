import EndToEnd.Cbor.Codec
import EndToEnd.Proofs.Refusal
import Mathlib.Data.List.DropRight

/-!
# What is written is read back

A codec has one written form for each value, and its reader takes that form among others. Whatever
follows the form is left to be read, so sequences and records are read back part by part. A reader
goes down one level in every array and map; a value is read back by every budget that has the levels
its type needs.

Main statements:

- `Head.read_writeHead`: a head says what was written;
- `ReadsBack.list`, `ReadsBack.octets`, `ReadsBack.option`: sequences, keys, and values that may be
  none;
- `ReadsBack.record`: a record, if its fields have different names.
-/

namespace EndToEnd.Cbor

variable {α : Type} {major info n depth : Nat} {rest : Bytes}

/-! ## Heads -/

/-- The bytes in front are split off as they were. -/
theorem splitBytes_append (content rest : Bytes) :
    splitBytes content.length (content ++ rest) = some (content, rest) := by
  simp only [splitBytes, List.take_left, List.drop_left, if_true]

/-- A number that was written in some width is read back in it. -/
theorem readNumber_bigEndian {width : Nat} (h : n < Nat.pow 256 width) (rest : Bytes) :
    readNumber width (Bytes.bigEndian width n ++ rest) = some (n, rest) := by
  have hsplit := splitBytes_append (Bytes.bigEndian width n) rest
  rw [Bytes.length_bigEndian] at hsplit
  simp only [readNumber, hsplit, Option.map_some, Bytes.natBE_bigEndian h]

/-- The first byte of a head says its major type and where its argument is. -/
theorem Head.read_cons (hmajor : major < 8) (hinfo : info < 32) {bs : Bytes}
    (h : readArgument info bs = some (some n, rest)) :
    Head.read ((32 * major + info).toUInt8 :: bs) =
      (Head.ofParts major info (some n)).map (·, rest) := by
  have hbyte : (32 * major + info).toUInt8.toNat = 32 * major + info :=
    Nat.mod_eq_of_lt (by omega)
  have hlow : (32 * major + info) % 32 = info := by omega
  have hhigh : (32 * major + info) / 32 = major := by omega
  simp only [Head.read, hbyte, hlow, hhigh, h, Option.bind_eq_bind, Option.bind_some]
  cases Head.ofParts major info (some n) <;> rfl

/-- A small argument stands in the head itself. -/
theorem readArgument_of_lt (h : info < 24) (bs : Bytes) :
    readArgument info bs = some (some info, bs) := by
  unfold readArgument
  split <;> first | omega | rfl

/-- A written head is read as it was meant, whatever follows. -/
theorem Head.read_writeHead (major : Nat) (hmajor : major < 8) (hn : n < UInt64.size)
    (rest : Bytes) :
    ∃ info, (n < 24 → info = n) ∧
      Head.read (writeHead major n ++ rest) = (Head.ofParts major info (some n)).map (·, rest) := by
  have hsized {info width : Nat} (hbig : ¬ n < 24) (hinfo : info < 32)
      (hargument : ∀ bs, readArgument info bs =
        (readNumber width bs).map fun number => (some number.1, number.2))
      (hwidth : n < Nat.pow 256 width) :
      ∃ info', (n < 24 → info' = n) ∧
        Head.read ((32 * major + info).toUInt8 :: Bytes.bigEndian width n ++ rest) =
          (Head.ofParts major info' (some n)).map (·, rest) := by
    refine ⟨info, fun h => absurd h hbig, ?_⟩
    rw [List.cons_append]
    refine Head.read_cons hmajor hinfo ?_
    rw [hargument, readNumber_bigEndian hwidth, Option.map_some]
  unfold writeHead
  by_cases hsmall : n < 24
  · rw [if_pos hsmall, List.singleton_append]
    exact ⟨n, fun _ => rfl, Head.read_cons hmajor (by omega) (readArgument_of_lt hsmall rest)⟩
  · rw [if_neg hsmall]
    split
    next h => exact hsized hsmall (by omega) (fun _ => rfl) h
    split
    next h => exact hsized hsmall (by omega) (fun _ => rfl) h
    split
    next h => exact hsized hsmall (by omega) (fun _ => rfl) h
    next => exact hsized hsmall (by omega) (fun _ => rfl) hn

/-- The head of a major type that says the same however it is written. -/
theorem Head.read_writeHead_eq {head : Head} (major : Nat) (hmajor : major < 8)
    (hn : n < UInt64.size) (hhead : ∀ info, Head.ofParts major info (some n) = some head)
    (rest : Bytes) :
    Head.read (writeHead major n ++ rest) = some (head, rest) := by
  obtain ⟨info, -, hread⟩ := Head.read_writeHead major hmajor hn rest
  rw [hread, hhead, Option.map_some]

/-- The head of a simple value. -/
theorem Head.read_writeHead_simple (hn : n < 24) (rest : Bytes) :
    Head.read (writeHead 7 n ++ rest) = some (.simple n, rest) := by
  have hsize : 24 < UInt64.size := by decide
  obtain ⟨info, hinfo, hread⟩ := Head.read_writeHead 7 (by omega) (Nat.lt_trans hn hsize) rest
  obtain rfl := hinfo hn
  rw [hread, Head.ofParts, if_pos (Nat.le_of_lt hn), Option.map_some]

/-- The head of a text. -/
theorem Head.read_textHead (hn : n < UInt64.size) (rest : Bytes) :
    Head.read (writeHead 3 n ++ rest) = some (.text (some n), rest) :=
  Head.read_writeHead_eq 3 (by omega) hn (fun _ => rfl) rest

/-- The head of an array. -/
theorem Head.read_arrayHead (hn : n < UInt64.size) (rest : Bytes) :
    Head.read (writeHead 4 n ++ rest) = some (.array (some n), rest) :=
  Head.read_writeHead_eq 4 (by omega) hn (fun _ => rfl) rest

/-- The head of a map. -/
theorem Head.read_mapHead (hn : n < UInt64.size) (rest : Bytes) :
    Head.read (writeHead 5 n ++ rest) = some (.map (some n), rest) :=
  Head.read_writeHead_eq 5 (by omega) hn (fun _ => rfl) rest

/-- Where the first head is no tag there is nothing to pass over. -/
theorem readPastTags_eq {head : Head} {bs : Bytes} (hread : Head.read bs = some (head, rest))
    (htag : ∀ t, head ≠ .tag t) (steps : Nat) : readPastTags steps bs = some (head, rest) := by
  unfold readPastTags
  split
  next t _ heq => exact absurd (Prod.mk.inj (Option.some.inj (hread.symm.trans heq))).1 (htag t)
  next => exact hread

/-- A string of announced length is read back, if its kind admits it. -/
theorem readString_append (kind : StringKind) (budget : Budget) {content : Bytes}
    (hadmits : kind.admits content = true) (rest : Bytes) :
    readString kind budget (some content.length) (content ++ rest) = some (content, rest) := by
  simp only [readString, readPiece, splitBytes_append, Option.bind_eq_bind, Option.bind_some,
    hadmits, if_true]

/-! ## Codecs -/

namespace Codec

/-- What is written of a value is read back by every budget of so many levels, whatever follows. -/
def ReadsBack (c : Codec α) (depth : Nat) (v : α) : Prop :=
  ∀ budget rest, depth ≤ budget.depth → c.read budget (c.write v ++ rest) = some (v, rest)

/-- What is written of a value does not start with a simple value. -/
def IsPresent (c : Codec α) (v : α) : Prop :=
  ∃ head, (∀ n, head ≠ .simple n) ∧
    ∀ rest, ∃ rest', Head.read (c.write v ++ rest) = some (head, rest')

variable {c : Codec α} {v : α}

theorem ReadsBack.mono {deeper : Nat} (h : c.ReadsBack depth v) (hle : depth ≤ deeper) :
    c.ReadsBack deeper v := fun budget rest hdepth => h budget rest (Nat.le_trans hle hdepth)

/-! ### Numbers, truth values and texts -/

/-- A number of 64 bits is read back. -/
theorem readNat_writeNat (hn : n < UInt64.size) (budget : Budget) (steps : Nat) (rest : Bytes) :
    readNat budget steps (writeNat n ++ rest) = some (n, rest) := by
  unfold readNat
  rw [writeNat, Head.read_writeHead_eq 0 (by omega) hn fun _ => rfl]

/-- A number that fits its type is read back. -/
theorem readWord_writeNat {ofNat? : Nat → Option α} (hn : n < UInt64.size)
    (hfits : ofNat? n = some v) (budget : Budget) (rest : Bytes) :
    readWord ofNat? budget (writeNat n ++ rest) = some (v, rest) := by
  simp only [readWord, readNat_writeNat hn, Option.bind_eq_bind, Option.bind_some, hfits]
  rfl

theorem octet_readsBack (b : UInt8) : octet.ReadsBack 0 b := by
  intro budget rest _
  have hlt : b.toNat < 256 := b.toNat_lt
  simp only [octet]
  refine readWord_writeNat (Nat.lt_trans hlt (by decide)) ?_ budget rest
  exact (if_pos hlt).trans (congrArg some UInt8.ofNat_toNat)

theorem word32_readsBack (n : UInt32) : word32.ReadsBack 0 n := by
  intro budget rest _
  have hlt : n.toNat < UInt32.size := n.toNat_lt
  simp only [word32]
  refine readWord_writeNat (Nat.lt_trans hlt (by decide)) ?_ budget rest
  exact (if_pos hlt).trans (congrArg some UInt32.ofNat_toNat)

theorem word64_readsBack (n : UInt64) : word64.ReadsBack 0 n := by
  intro budget rest _
  have hlt : n.toNat < UInt64.size := n.toNat_lt
  simp only [word64]
  refine readWord_writeNat hlt ?_ budget rest
  exact (if_pos hlt).trans (congrArg some UInt64.ofNat_toNat)

/-- Leading zeros do not count. -/
theorem natBE_dropWhile (bs : Bytes) : Bytes.natBE (bs.dropWhile (· = 0)) = Bytes.natBE bs := by
  induction bs with
  | nil => rfl
  | cons b bs ih =>
    by_cases hzero : b = 0
    · subst hzero
      exact ih
    · rw [List.dropWhile_cons_of_neg (by simpa using hzero)]

/-- A number that is written as bytes is read back. -/
theorem readNat_big (budget : Budget) (steps : Nat) {content : Bytes}
    (hlength : content.length ≤ 16) (hfirst : content.dropWhile (· = 0) = content) (rest : Bytes) :
    readNat budget steps
        (writeHead 6 tagBig ++ writeHead 2 content.length ++ content ++ rest) =
      some (Bytes.natBE content, rest) := by
  have htag : Head.read (writeHead 6 tagBig ++ (writeHead 2 content.length ++ (content ++ rest))) =
      some (.tag tagBig, _) :=
    Head.read_writeHead_eq 6 (by omega) (by decide) (fun _ => rfl) _
  have hhead := Head.read_writeHead_eq 2 (by omega) (Nat.lt_of_le_of_lt hlength (by decide))
    (fun _ => rfl) (content ++ rest)
  unfold readNat
  rw [List.append_assoc, List.append_assoc, htag]
  simp only [hhead, readString_append .bytes budget rfl, bigNumber, hfirst, hlength, if_true,
    Option.bind_eq_bind, Option.bind_some]
  rfl

/-- An identifier of up to 64 bits is written as a number, a larger one as a big number. -/
theorem deviceId_readsBack (d : DeviceId) : deviceId.ReadsBack 0 d := by
  intro budget rest _
  have hfits : DeviceId.ofNat? d.number = some d := dif_pos d.number_lt
  simp only [deviceId]
  split
  next hsmall => exact readWord_writeNat hsmall hfits budget rest
  next =>
    have hlength : (d.bytes.bytes.dropWhile (· = 0)).length ≤ 16 :=
      Nat.le_trans (List.dropWhile_sublist _).length_le (Nat.le_of_eq d.bytes.length_eq)
    have hnumber : Bytes.natBE (d.bytes.bytes.dropWhile (· = 0)) = d.number := by
      rw [natBE_dropWhile]
      exact Bytes.natBE_bigEndian d.number_lt
    simp only [readWord, readNat_big budget _ hlength (List.dropWhile_idempotent _ _), hnumber,
      Option.bind_eq_bind, Option.bind_some, hfits]
    rfl

theorem bool_readsBack (b : Bool) : bool.ReadsBack 0 b := by
  intro budget rest _
  have hread (n : Nat) (hn : n < 24) :
      readPastTags budget.steps (writeHead 7 n ++ rest) = some (.simple n, rest) :=
    readPastTags_eq (Head.read_writeHead_simple hn rest) nofun _
  cases b with
  | false =>
    show readBool budget (writeHead 7 simpleFalse ++ rest) = _
    rw [readBool, hread simpleFalse (by decide)]
    rfl
  | true =>
    show readBool budget (writeHead 7 simpleTrue ++ rest) = _
    rw [readBool, hread simpleTrue (by decide)]
    rfl

theorem admits_ofText (s : String) : StringKind.text.admits (Bytes.ofText s) = true := by
  rw [StringKind.admits, Bytes.toText?_ofText]
  rfl

/-- A text is read back if its length can be announced. -/
theorem text_readsBack {s : String} (hlength : (Bytes.ofText s).length < UInt64.size) :
    text.ReadsBack 0 s := by
  intro budget rest _
  have hhead := readPastTags_eq (Head.read_textHead hlength (Bytes.ofText s ++ rest)) nofun
    budget.steps
  show readText budget (writeHead 3 _ ++ Bytes.ofText s ++ rest) = _
  rw [List.append_assoc]
  simp only [readText, hhead, readString_append .text budget (admits_ofText s), Option.bind_eq_bind,
    Option.bind_some, Bytes.toText?_ofText]
  rfl

/-! ### Sequences -/

/-- A budget that is deep enough has a level to go down to. -/
theorem descend_eq {budget : Budget} (h : depth + 1 ≤ budget.depth) :
    ∃ inner, budget.descend = some inner ∧ depth ≤ inner.depth := by
  obtain ⟨levels, steps⟩ := budget
  cases levels with
  | zero => exact absurd h (Nat.not_succ_le_zero depth)
  | succ levels => exact ⟨⟨levels, steps⟩, rfl, Nat.le_of_succ_le_succ h⟩

/-- An announced array is read as its front of that many values. -/
theorem readItems_eq_readFirst (read : Bytes → Option (α × Bytes)) (count : Nat) (done : List α)
    (bs : Bytes) : readItems read false count done bs = readFirst read false count done bs := by
  induction count generalizing done bs with
  | zero => rfl
  | succ count ih => simp only [readItems, readFirst, ih]

/-- Items in a row are read back one by one, behind those that were read before. -/
theorem readFirst_flatMap {read : Bytes → Option (α × Bytes)} {write : α → Bytes} (items : List α)
    (hread : ∀ v ∈ items, ∀ rest, read (write v ++ rest) = some (v, rest)) (done : List α)
    (rest : Bytes) :
    readFirst read false items.length done (items.flatMap write ++ rest) =
      some (done.reverse ++ items, rest) := by
  induction items generalizing done with
  | nil =>
    rw [List.append_nil]
    rfl
  | cons v items ih =>
    have hfirst := hread v List.mem_cons_self (items.flatMap write ++ rest)
    have hrest := ih (fun w hw => hread w (List.mem_cons_of_mem v hw)) (v :: done)
    rw [List.reverse_cons, List.append_assoc] at hrest
    rw [List.flatMap_cons, List.append_assoc, List.length_cons]
    simp only [readFirst, hfirst, Option.bind_eq_bind, Option.bind_some]
    exact hrest

/-- A sequence is read back if its values are. -/
theorem ReadsBack.list {items : List α} (hlength : items.length < UInt64.size)
    (h : ∀ v ∈ items, c.ReadsBack depth v) : c.list.ReadsBack (depth + 1) items := by
  intro budget rest hdepth
  obtain ⟨inner, hinner, hlevels⟩ := descend_eq hdepth
  have hhead := readPastTags_eq (Head.read_arrayHead hlength (items.flatMap c.write ++ rest))
    nofun budget.steps
  have hitems := readFirst_flatMap items (fun v hv rest => h v hv inner rest hlevels) [] rest
  simp only [Codec.list, List.append_assoc, hhead, readArray, hinner, readItems_eq_readFirst,
    hitems, Option.bind_eq_bind, Option.bind_some]
  rfl

/-- Bytes of a fixed number are read back. -/
theorem octets_readsBack (hn : n < UInt64.size) (o : Octets n) : (octets n).ReadsBack 1 o := by
  intro budget rest hdepth
  obtain ⟨inner, hinner, hlevels⟩ := descend_eq hdepth
  have hhead := readPastTags_eq (Head.read_arrayHead hn (o.bytes.flatMap octet.write ++ rest))
    nofun budget.steps
  have hitems := readFirst_flatMap o.bytes
    (fun b _ rest => octet_readsBack b inner rest hlevels) [] rest
  rw [o.length_eq, List.reverse_nil, List.nil_append] at hitems
  have htake : o.bytes.take n = o.bytes := List.take_of_length_le (Nat.le_of_eq o.length_eq)
  simp only [octets, bytes, Codec.list, o.length_eq, List.append_assoc, hhead, readArrayFront,
    hinner, Nat.le_refl, if_true, hitems, htake, Octets.ofBytes?_bytes, Option.bind_eq_bind,
    Option.bind_some]
  rfl

/-- Octets are not taken for a value that is missing. -/
theorem octets_isPresent (hn : n < UInt64.size) (o : Octets n) : (octets n).IsPresent o := by
  refine ⟨.array (some n), nofun, fun rest => ⟨o.bytes.flatMap octet.write ++ rest, ?_⟩⟩
  simp only [octets, bytes, Codec.list, o.length_eq, List.append_assoc, Head.read_arrayHead hn]

/-- A value that may be none is read back, if no value is taken for none. -/
theorem ReadsBack.option {o : Option α}
    (h : ∀ v, o = some v → c.ReadsBack depth v ∧ c.IsPresent v) : c.option.ReadsBack depth o := by
  intro budget rest hdepth
  cases o with
  | none =>
    have hhead := Head.read_writeHead_simple (n := simpleNull) (by decide) rest
    simp only [Codec.option, hhead]
    rfl
  | some v =>
    obtain ⟨hback, head, hpresent, hread⟩ := h v rfl
    obtain ⟨rest', hhead⟩ := hread rest
    have hvalue := hback budget rest hdepth
    simp only [Codec.option, hhead]
    split
    next n _ heq => exact absurd (Prod.mk.inj (Option.some.inj heq)).1 (hpresent n)
    next => rw [hvalue, Option.map_some]

end Codec

/-! ## Records -/

/-- A text is told by its encoding. -/
theorem ofText_injective {s t : String} (h : Bytes.ofText s = Bytes.ofText t) : s = t := by
  have htext := congrArg Bytes.toText? h
  rw [Bytes.toText?_ofText, Bytes.toText?_ofText] at htext
  exact Option.some.inj htext


/-- What is written of every value is read back, by its field's codec. -/
def Values.ReadBack (depth : Nat) : (fs : List Field) → Values fs → Prop
  | [], _ => True
  | f :: fs, (v, vs) => f.codec.ReadsBack depth v ∧ ReadBack depth fs vs

/-- The values but for the first `k`, written in order. -/
def Values.writeFrom : (k : Nat) → (fs : List Field) → Values fs → Bytes
  | _, [], _ => []
  | 0, f :: fs, vs => Values.write (f :: fs) vs
  | k + 1, _ :: fs, (_, vs) => writeFrom k fs vs

/-- The first `k` values known, and no other. -/
def Slots.upTo : (k : Nat) → (fs : List Field) → Values fs → Slots fs
  | _, [], _ => ()
  | 0, f :: fs, _ => .empty (f :: fs)
  | k + 1, _ :: fs, (v, vs) => (some v, upTo k fs vs)

/-- Fields whose names tell them apart, and can be keys of a map. -/
structure WellNamed (fs : List Field) : Prop where
  distinct : (fs.map (·.name)).Nodup
  short : ∀ f ∈ fs, (Bytes.ofText f.name).length ≤ maxKeyLength

theorem Values.writeFrom_zero {fs : List Field} (vs : Values fs) :
    Values.writeFrom 0 fs vs = Values.write fs vs := by
  cases fs <;> rfl

theorem Values.writeFrom_length {fs : List Field} (vs : Values fs) :
    Values.writeFrom fs.length fs vs = [] := by
  induction fs with
  | nil => rfl
  | cons f fs ih => exact ih vs.2

namespace Slots

variable {fs : List Field} {k : Nat}

theorem upTo_zero (vs : Values fs) : upTo 0 fs vs = .empty fs := by
  cases fs <;> rfl

/-- With all slots filled the values are complete. -/
theorem values?_upTo (vs : Values fs) : values? fs (upTo fs.length fs vs) = some vs := by
  induction fs with
  | nil => rfl
  | cons f fs ih =>
    obtain ⟨v, vs⟩ := vs
    simp only [List.length_cons, upTo, values?, ih]
    rfl

/-- The value of the next field is read into its slot. -/
theorem fill_upTo (hnames : (fs.map (·.name)).Nodup) {budget : Budget}
    (hdepth : depth ≤ budget.depth) {vs : Values fs} (hback : vs.ReadBack depth) (hk : k < fs.length) :
    ∃ value, Values.writeFrom k fs vs =
        Codec.text.write fs[k].name ++ (value ++ Values.writeFrom (k + 1) fs vs) ∧
      ∀ rest, fill budget (Bytes.ofText fs[k].name) (value ++ rest) fs (upTo k fs vs) =
        some (some (upTo (k + 1) fs vs, rest)) := by
  induction fs generalizing k with
  | nil => exact absurd hk (Nat.not_lt_zero k)
  | cons f fs ih =>
    obtain ⟨v, vs⟩ := vs
    obtain ⟨hv, hvs⟩ := hback
    obtain ⟨hnew, hnames⟩ := List.nodup_cons.mp hnames
    cases k with
    | zero =>
      refine ⟨f.codec.write v, ?_, fun rest => ?_⟩
      · show Codec.text.write f.name ++ f.codec.write v ++ Values.write fs vs = _
        rw [List.append_assoc, ← Values.writeFrom_zero]
        rfl
      · show (if Bytes.ofText f.name = Bytes.ofText f.name then _ else _) = _
        rw [if_pos rfl, hv budget rest hdepth, upTo, upTo_zero]
        rfl
    | succ k =>
      have hk := Nat.lt_of_succ_lt_succ hk
      obtain ⟨value, hwrite, hfill⟩ := ih hnames hvs hk
      refine ⟨value, hwrite, fun rest => ?_⟩
      have hmem : fs[k].name ∈ fs.map (·.name) := List.mem_map_of_mem (List.getElem_mem hk)
      have hother : Bytes.ofText fs[k].name ≠ Bytes.ofText f.name := by
        intro h
        rw [ofText_injective h] at hmem
        exact hnew hmem
      rw [List.getElem_cons_succ, upTo, fill, if_neg hother, hfill rest]
      rfl

/-- A written key is read back. -/
theorem readKey_write {name : String} (hshort : (Bytes.ofText name).length ≤ maxKeyLength)
    (budget : Budget) (rest : Bytes) :
    readKey budget (Codec.text.write name ++ rest) = some (Bytes.ofText name, rest) := by
  have hlength : (Bytes.ofText name).length < UInt64.size :=
    Nat.lt_of_le_of_lt hshort (by decide)
  have hhead := readPastTags_eq (Head.read_textHead hlength (Bytes.ofText name ++ rest)) nofun
    budget.steps
  have hpiece := readString_append .text budget (Codec.admits_ofText name) rest
  show readKey budget (writeHead 3 _ ++ Bytes.ofText name ++ rest) = _
  rw [List.append_assoc]
  simp only [readKey, hhead, Option.bind_eq_bind, Option.bind_some, hshort, if_true]
  exact hpiece

/-- The fields that are still to come are read into their slots. -/
theorem readEntries_upTo (h : WellNamed fs) {budget : Budget} (hdepth : depth ≤ budget.depth)
    {vs : Values fs} (hback : vs.ReadBack depth) (rest : Bytes) {count : Nat}
    (hcount : k + count = fs.length) :
    readEntries budget fs false count (upTo k fs vs) (Values.writeFrom k fs vs ++ rest) =
      some (upTo fs.length fs vs, rest) := by
  induction count generalizing k with
  | zero =>
    obtain rfl : k = fs.length := hcount
    rw [Values.writeFrom_length]
    rfl
  | succ count ih =>
    have hk : k < fs.length := by omega
    obtain ⟨value, hwrite, hfill⟩ := fill_upTo h.distinct hdepth hback hk
    have hkey := readKey_write (h.short _ (List.getElem_mem hk)) budget
    rw [hwrite, List.append_assoc, List.append_assoc]
    simp only [readEntries, readEntry, hkey, hfill, Option.bind_eq_bind, Option.bind_some]
    exact ih (by omega)

end Slots

/-- A record is read back if its values are. -/
theorem Codec.ReadsBack.record {fs : List Field} {toValues : α → Values fs}
    {ofValues : Values fs → α} (hnames : WellNamed fs) (hlength : fs.length < UInt64.size) {v : α}
    (hinverse : ofValues (toValues v) = v) (h : (toValues v).ReadBack depth) :
    (Codec.record fs toValues ofValues).ReadsBack (depth + 1) v := by
  intro budget rest hdepth
  obtain ⟨inner, hinner, hlevels⟩ := descend_eq hdepth
  have hhead := readPastTags_eq (Head.read_mapHead hlength (Values.write fs (toValues v) ++ rest))
    nofun budget.steps
  have hentries := Slots.readEntries_upTo hnames hlevels h rest (k := 0) (Nat.zero_add _)
  rw [Slots.upTo_zero, Values.writeFrom_zero] at hentries
  simp only [Codec.record, List.append_assoc, readRecord, hhead, hinner, hentries,
    Slots.values?_upTo, Option.bind_eq_bind, Option.bind_some]
  exact congrArg (fun v => some (v, rest)) hinverse

/-- A record is not taken for a value that is missing. -/
theorem Codec.record_isPresent {fs : List Field} {toValues : α → Values fs}
    {ofValues : Values fs → α} (hlength : fs.length < UInt64.size) (v : α) :
    (Codec.record fs toValues ofValues).IsPresent v := by
  refine ⟨.map (some fs.length), nofun, fun rest => ⟨Values.write fs (toValues v) ++ rest, ?_⟩⟩
  simp only [Codec.record, List.append_assoc]
  exact Head.read_mapHead hlength _

end EndToEnd.Cbor
