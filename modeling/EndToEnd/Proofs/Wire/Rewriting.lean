import EndToEnd.Proofs.Cbor.Doubling
import EndToEnd.Proofs.Wire.Document

/-!
# Documents written anew

A document that was read can be written again, and its written form is never as much as twice as
long. What is written is read back unless it is too large, so every document of at most half the
largest size stays readable, whatever its form. Beyond that it need not: a body in a byte string is
written with two bytes for most of its bytes, and only the reader has a size limit.

Main statements:

- `documents_rewritten`: envelopes, published bundles and device lists;
- `Envelope.decode_compactForm`: an envelope whose body is a byte string is read;
- `refused_after_rewriting`: one that is read and is not read back.
-/

namespace EndToEnd.Wire

open Cbor

variable {α : Type} {c : Codec α} {depth : Nat} {part : Part} {bs : Bytes} {v : α}

/-- What becomes of a value that was read of a document, once it is written. -/
structure Rewritten (part : Part) (encode : α → Bytes) (decode : Bytes → Except Error α)
    (bs : Bytes) (v : α) : Prop where
  lt_twice : (encode v).length < 2 * bs.length
  readsBack_iff : decode (encode v) = .ok v ↔ (encode v).length ≤ maxDocumentSize
  refused : maxDocumentSize < (encode v).length →
    decode (encode v) = .error (.tooLarge part (encode v).length maxDocumentSize)
  readsBack_of_half : bs.length ≤ maxDocumentSize / 2 → decode (encode v) = .ok v

/-- A document that is read is not too large. -/
theorem length_le_of_readDocument (h : readDocument c part bs = .ok v) :
    bs.length ≤ maxDocumentSize := by
  unfold readDocument at h
  split at h
  next => exact nomatch h
  next hsize => exact Nat.le_of_not_lt hsize

/-- A lawful codec that at most doubles writes anew what it has read, within twice its size. -/
theorem readDocument_rewritten (hc : c.Lawful depth) (hdepth : depth ≤ 256)
    (hdoubles : c.AtMostDoubles) (h : readDocument c part bs = .ok v) :
    Rewritten part (writeDocument c) (readDocument c part) bs v := by
  have hsize : bs.length < UInt32.size :=
    Nat.lt_of_le_of_lt (length_le_of_readDocument h) (by decide)
  have hgrowth := hdoubles.of_read hsize (readDocument_eq_ok h)
  have htwice : (writeDocument c v).length < 2 * bs.length := by
    rw [List.length_nil] at hgrowth
    exact Nat.lt_of_succ_le hgrowth
  have hback := readDocument_writeDocument hc hdepth part v
  have hiff : readDocument c part (writeDocument c v) = .ok v ↔
      (writeDocument c v).length ≤ maxDocumentSize := by
    rw [hback]
    split
    next hfits => exact ⟨fun _ => hfits, fun _ => rfl⟩
    next hlarge => exact ⟨nofun, fun hfits => absurd hfits hlarge⟩
  refine ⟨htwice, hiff, fun hlarge => ?_, fun hhalf => hiff.mpr ?_⟩
  · rw [hback, if_neg (Nat.not_le.mpr hlarge)]
  · unfold maxDocumentSize at *
    omega

/-! ## Bodies in byte strings -/

theorem mapM_ofByte_octet (content : Bytes) : content.mapM Codec.octet.ofByte = some content := by
  induction content with
  | nil => rfl
  | cons b content ih =>
    rw [List.mapM_cons, ih]
    rfl

/-- A byte string is read as the array that would have been written. -/
theorem read_byteString {content : Bytes} (hlength : content.length < UInt64.size)
    (budget : Budget) (rest : Bytes) :
    Codec.bytes.read budget (writeHead 2 content.length ++ content ++ rest) =
      some (content, rest) := by
  have hhead := readPastTags_eq (Head.read_writeHead_eq 2 (by omega) hlength (fun _ => rfl)
    (content ++ rest)) nofun budget.steps
  have hstring := readString_append .bytes budget (show StringKind.bytes.admits content from rfl) rest
  simp only [Codec.bytes, Codec.list, List.append_assoc, hhead, hstring, mapM_ofByte_octet,
    Option.bind_eq_bind, Option.bind_some]
  rfl

theorem ofText_inj {s t : String} : Bytes.ofText s = Bytes.ofText t ↔ s = t :=
  ⟨ofText_injective, congrArg _⟩

namespace Envelope

/-- An envelope with its body in a byte string, which no writer writes. -/
def compactForm (e : Envelope) : Bytes :=
  writeHead 5 4 ++
    (Codec.text.write "sender_device_id" ++ Codec.deviceId.write e.sender ++
    (Codec.text.write "iv" ++ (Codec.octets 16).write e.iv ++
    (Codec.text.write "keys" ++ (Codec.list Entry.codec).write e.entries ++
    (Codec.text.write "payload" ++ (writeHead 2 e.body.length ++ e.body)))))

/-- The keys come one by one, and each picks the value of its own field. -/
theorem read_compactForm {e : Envelope} {budget : Budget} {steps : Nat}
    (hbody : e.body.length < UInt64.size)
    (hentries : ((Codec.list Entry.codec).write e.entries).length < UInt64.size)
    (hdescend : budget.descend = some ⟨255, steps⟩) :
    codec.read budget e.compactForm = some (e, []) := by
  obtain ⟨sender, iv, entries, body⟩ := e
  have hsender (rest) := Codec.deviceId_readsBack sender ⟨255, steps⟩ rest (Nat.zero_le _)
  have hiv (rest) := Codec.octets_readsBack (by decide) iv ⟨255, steps⟩ rest (show 1 ≤ 255 by decide)
  have hkeys (rest) := Entry.codec_lawful.list.readsBack entries hentries ⟨255, steps⟩ rest
    (show 3 ≤ 255 by decide)
  have hpayload := read_byteString hbody ⟨255, steps⟩ []
  rw [List.append_nil] at hpayload
  have hkey (name : String) (hname : (Bytes.ofText name).length ≤ maxKeyLength) (rest) :=
    Slots.readKey_write hname ⟨255, steps⟩ rest
  simp only [codec, Codec.record, readRecord, compactForm, List.append_assoc, Option.bind_eq_bind]
  rw [readPastTags_eq (Head.read_mapHead (by decide) _) fun _ => Head.noConfusion]
  simp only [hdescend, Option.bind_some, Slots.readEntries, Slots.readEntry, Slots.empty, Slots.fill,
    hkey "sender_device_id" (by decide +kernel), hkey "iv" (by decide +kernel),
    hkey "keys" (by decide +kernel), hkey "payload" (by decide +kernel),
    ofText_inj, String.reduceEq, if_true, if_false, Option.map_some, hsender, hiv, hkeys, hpayload,
    Option.bind_eq_bind]
  rfl

/-- An envelope is read back from its compact form. -/
theorem decode_compactForm {e : Envelope} (hsize : e.compactForm.length ≤ maxDocumentSize) :
    decode e.compactForm = .ok e := by
  have hlarge : maxDocumentSize < UInt64.size := by decide
  have hparts : e.body.length ≤ e.compactForm.length ∧
      ((Codec.list Entry.codec).write e.entries).length ≤ e.compactForm.length := by
    simp only [compactForm, List.length_append]
    omega
  rw [decode, readDocument, if_neg (Nat.not_lt.mpr hsize),
    read_compactForm (by omega) (by omega) (by rfl)]

/-- An envelope for nobody, with a body of so many bytes. -/
def toNobody (length : Nat) : Envelope :=
  ⟨.ofNat 1, .replicate 16 0, [], List.replicate length 0xff⟩

/-- What stands before the head of the body. -/
theorem length_before_body : (writeHead 5 4).length + ((Codec.text.write "sender_device_id").length +
    (Codec.deviceId.write (.ofNat 1)).length + ((Codec.text.write "iv").length +
    ((Codec.octets 16).write (.replicate 16 0)).length + ((Codec.text.write "keys").length +
    ((Codec.list Entry.codec).write []).length + (Codec.text.write "payload").length))) = 53 := by
  decide +kernel

/-- The length of the compact form: only the body and its head vary. -/
theorem length_compactForm_toNobody (n : Nat) :
    (toNobody n).compactForm.length = 53 + (writeHead 2 n).length + n := by
  have hfields := length_before_body
  simp only [compactForm, toNobody, List.length_append, List.length_replicate]
  omega

/-- The length of what is written: two bytes for each of the body, which are the largest. -/
theorem length_encode_toNobody (n : Nat) :
    (toNobody n).encode.length = 53 + (writeHead 4 n).length + 2 * n := by
  have hfields := length_before_body
  have hbyte : (Codec.octet.write 0xff).length = 2 := by decide
  have hbody : (Codec.bytes.write (List.replicate n 0xff)).length =
      (writeHead 4 n).length + 2 * n := by
    show (writeHead 4 (List.replicate n 0xff).length ++
      (List.replicate n 0xff).flatMap Codec.octet.write).length = _
    rw [List.length_append, List.length_replicate, List.flatMap_replicate, List.length_flatten,
      List.map_replicate, List.sum_replicate_nat, hbyte, Nat.mul_comm]
  show (writeHead 5 4 ++ _).length = _
  simp only [toNobody, Values.write, List.length_append, List.length_nil]
  omega

end Envelope

/-! ## Envelopes, bundles and device lists -/

theorem Entry.codec_atMostDoubles : Entry.codec.AtMostDoubles := by
  refine .record ?_ (by decide) fun _ => rfl
  simp only [List.forall_mem_cons]
  exact ⟨Codec.deviceId_atMostDoubles, Codec.bool_atMostDoubles, Codec.bytes_atMostDoubles, nofun⟩

theorem Envelope.codec_atMostDoubles : Envelope.codec.AtMostDoubles := by
  refine .record ?_ (by decide) fun _ => rfl
  simp only [List.forall_mem_cons]
  exact ⟨Codec.deviceId_atMostDoubles, Codec.octets_atMostDoubles 16,
    Entry.codec_atMostDoubles.list, Codec.bytes_atMostDoubles, nofun⟩

theorem PublishedKey.codec_atMostDoubles : PublishedKey.codec.AtMostDoubles := by
  refine .record ?_ (by decide) fun _ => rfl
  simp only [List.forall_mem_cons]
  exact ⟨Codec.word32_atMostDoubles, Codec.bytes_atMostDoubles, nofun⟩

theorem PublishedBundle.codec_atMostDoubles : PublishedBundle.codec.AtMostDoubles := by
  refine .record ?_ (by decide) fun _ => rfl
  simp only [List.forall_mem_cons]
  exact ⟨Codec.deviceId_atMostDoubles, Codec.bytes_atMostDoubles,
    PublishedKey.codec_atMostDoubles.list, nofun⟩

theorem DeviceList.codec_atMostDoubles : DeviceList.codec.AtMostDoubles := by
  refine .record ?_ (by decide) fun _ => rfl
  simp only [List.forall_mem_cons]
  exact ⟨Codec.text_atMostDoubles, Codec.deviceId_atMostDoubles.list, nofun⟩

/-- Whatever the form was of an envelope, a published bundle or a device list that was read, it is
written with less than twice the bytes, and read back unless that is too much. -/
theorem documents_rewritten (bs : Bytes) :
    (∀ e, Envelope.decode bs = .ok e →
      Rewritten .envelope Envelope.encode Envelope.decode bs e) ∧
    (∀ b, PublishedBundle.decode bs = .ok b →
      Rewritten .bundle PublishedBundle.encode PublishedBundle.decode bs b) ∧
    (∀ l, DeviceList.decode bs = .ok l →
      Rewritten .deviceList DeviceList.encode DeviceList.decode bs l) :=
  ⟨fun _ => readDocument_rewritten Envelope.codec_lawful (by decide) Envelope.codec_atMostDoubles,
    fun _ => readDocument_rewritten PublishedBundle.codec_lawful (by decide)
      PublishedBundle.codec_atMostDoubles,
    fun _ => readDocument_rewritten DeviceList.codec_lawful (by decide)
      DeviceList.codec_atMostDoubles⟩

/-- A compact envelope of 56 bytes is written anew with 58. -/
theorem documents_rewritten_compact :
    Envelope.decode (Envelope.toNobody 2).compactForm = .ok (.toNobody 2) ∧
      (Envelope.toNobody 2).compactForm.length = 56 ∧
      Rewritten .envelope Envelope.encode Envelope.decode (Envelope.toNobody 2).compactForm
        (.toNobody 2) ∧
      (Envelope.toNobody 2).encode.length = 58 ∧
      Envelope.decode (Envelope.toNobody 2).encode = .ok (.toNobody 2) := by
  have hform : (Envelope.toNobody 2).compactForm.length = 56 :=
    Envelope.length_compactForm_toNobody 2
  have hread : Envelope.decode (Envelope.toNobody 2).compactForm = .ok (.toNobody 2) :=
    Envelope.decode_compactForm (hform ▸ by decide)
  have hrewritten := (documents_rewritten _).1 _ hread
  exact ⟨hread, hform, hrewritten, Envelope.length_encode_toNobody 2,
    hrewritten.readsBack_of_half (hform ▸ by decide)⟩

/-- A body of half the largest size is read in a byte string, and written it is too large. -/
theorem refused_after_rewriting :
    Envelope.decode (Envelope.toNobody (maxDocumentSize / 2)).compactForm =
        .ok (.toNobody (maxDocumentSize / 2)) ∧
      Envelope.decode (Envelope.toNobody (maxDocumentSize / 2)).encode =
        .error (.tooLarge .envelope 16777274 16777216) := by
  have hform := Envelope.length_compactForm_toNobody (maxDocumentSize / 2)
  have hencode := Envelope.length_encode_toNobody (maxDocumentSize / 2)
  rw [show (writeHead 2 (maxDocumentSize / 2)).length = 5 by decide] at hform
  rw [show (writeHead 4 (maxDocumentSize / 2)).length = 5 by decide] at hencode
  refine ⟨Envelope.decode_compactForm (hform ▸ by decide), ?_⟩
  have hback := readDocument_writeDocument Envelope.codec_lawful (by decide) .envelope
    (Envelope.toNobody (maxDocumentSize / 2))
  rw [show writeDocument Envelope.codec _ = Envelope.encode _ from rfl, hencode] at hback
  exact hback

end EndToEnd.Wire
