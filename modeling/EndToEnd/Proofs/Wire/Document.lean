import EndToEnd.Proofs.Cbor.Lawful
import EndToEnd.Wire.Document

/-!
# Documents read back

A document is the form of its value and nothing after it, and it has a size limit. Both are checked
by the reader alone: a writer writes every value, and what it wrote is refused for its size or read
back. Bytes behind a document are counted and refused, whichever of its forms the document has.

Main statements:

- `readDocument_writeDocument`, `readDocument_append`: documents of any lawful codec;
- `documents_exact`: envelopes, published bundles and device lists.
-/

namespace EndToEnd.Wire

open Cbor

variable {α : Type} {c : Codec α} {depth : Nat} {part : Part} {bs more : Bytes} {v : α}

/-- A written document is read back, unless it is too large. -/
theorem readDocument_writeDocument (hc : c.Lawful depth) (hdepth : depth ≤ 256) (part : Part)
    (v : α) :
    readDocument c part (writeDocument c v) =
      if (writeDocument c v).length ≤ maxDocumentSize then .ok v
      else .error (.tooLarge part (writeDocument c v).length maxDocumentSize) := by
  rw [readDocument]
  by_cases hsize : (writeDocument c v).length ≤ maxDocumentSize
  · have hshort : (c.write v).length < UInt64.size := Nat.lt_of_le_of_lt hsize (by decide)
    have hback := hc.readsBack v hshort (.ofDocument (writeDocument c v)) [] hdepth
    rw [List.append_nil] at hback
    rw [if_neg (Nat.not_lt.mpr hsize), if_pos hsize, writeDocument] at *
    rw [hback]
  · rw [if_pos (Nat.lt_of_not_le hsize), if_neg hsize]

/-- A document that is read is one item, and nothing behind it. -/
theorem readDocument_eq_ok (h : readDocument c part bs = .ok v) :
    c.read (.ofDocument bs) bs = some (v, []) := by
  unfold readDocument at h
  split at h
  next => exact nomatch h
  next =>
    split at h
    next => exact nomatch h
    next hread =>
      obtain rfl := Except.ok.inj h
      exact hread
    next => exact nomatch h

/-- What follows a document is counted and refused. -/
theorem readDocument_append (hc : c.ReadsToEnd) (h : readDocument c part bs = .ok v)
    (hmore : more ≠ []) (hsize : (bs ++ more).length ≤ maxDocumentSize) :
    readDocument c part (bs ++ more) = .error (.trailingBytes more.length) := by
  have hcovers : (Budget.ofDocument (bs ++ more)).Covers (.ofDocument bs) :=
    ⟨rfl, by simp only [Budget.ofDocument, List.length_append, Nat.le_add_right]⟩
  have hread := hc.extends_read hcovers (readDocument_eq_ok h) more
  rw [List.nil_append] at hread
  rw [readDocument, if_neg (Nat.not_lt.mpr hsize), hread]
  cases more with
  | nil => exact absurd rfl hmore
  | cons _ _ => rfl

/-! ## Envelopes, bundles and device lists -/

/-- An entry is lawful, its key being an array of octets. -/
theorem Entry.codec_lawful : Entry.codec.Lawful 2 := by
  refine .record ?_ ⟨by decide +kernel, by decide +kernel⟩ (by decide) fun _ => rfl
  simp only [List.forall_mem_cons]
  exact ⟨Codec.deviceId_lawful.mono (Nat.zero_le 1), Codec.bool_lawful.mono (Nat.zero_le 1),
    Codec.bytes_lawful, nofun⟩

/-- An envelope goes two levels deeper than an entry: it is a record with a list of them. -/
theorem Envelope.codec_lawful : Envelope.codec.Lawful 4 := by
  refine .record ?_ ⟨by decide +kernel, by decide +kernel⟩ (by decide) fun _ => rfl
  simp only [List.forall_mem_cons]
  exact ⟨Codec.deviceId_lawful.mono (Nat.zero_le 3),
    (Codec.octets_lawful (by decide)).mono (by decide), Entry.codec_lawful.list,
    Codec.bytes_lawful.mono (by decide), nofun⟩

theorem PublishedKey.codec_lawful : PublishedKey.codec.Lawful 2 := by
  refine .record ?_ ⟨by decide +kernel, by decide +kernel⟩ (by decide) fun _ => rfl
  simp only [List.forall_mem_cons]
  exact ⟨Codec.word32_lawful.mono (Nat.zero_le 1), Codec.bytes_lawful, nofun⟩

theorem PublishedBundle.codec_lawful : PublishedBundle.codec.Lawful 4 := by
  refine .record ?_ ⟨by decide +kernel, by decide +kernel⟩ (by decide) fun _ => rfl
  simp only [List.forall_mem_cons]
  exact ⟨Codec.deviceId_lawful.mono (Nat.zero_le 3), Codec.bytes_lawful.mono (by decide),
    PublishedKey.codec_lawful.list, nofun⟩

theorem DeviceList.codec_lawful : DeviceList.codec.Lawful 2 := by
  refine .record ?_ ⟨by decide +kernel, by decide +kernel⟩ (by decide) fun _ => rfl
  simp only [List.forall_mem_cons]
  exact ⟨Codec.text_lawful.mono (Nat.zero_le 1), Codec.deviceId_lawful.list, nofun⟩

/-- Every value is written. What was written is read back, or refused for its size. And what follows
any bytes that were read is counted and refused, while the size allows them to be read at all. -/
structure Exact (part : Part) (encode : α → Bytes) (decode : Bytes → Except Error α) : Prop where
  decode_encode : ∀ v, decode (encode v) =
    if (encode v).length ≤ maxDocumentSize then .ok v
    else .error (.tooLarge part (encode v).length maxDocumentSize)
  decode_append : ∀ bs more v, decode bs = .ok v → more ≠ [] →
    (bs ++ more).length ≤ maxDocumentSize → decode (bs ++ more) = .error (.trailingBytes more.length)

/-- A lawful codec within the depth of a document makes an exact pair. -/
theorem exact_of_lawful (hc : c.Lawful depth) (hdepth : depth ≤ 256) (part : Part) :
    Exact part (writeDocument c) (readDocument c part) :=
  ⟨readDocument_writeDocument hc hdepth part,
    fun _ _ _ h => readDocument_append hc.toReadsToEnd h⟩

/-- Envelopes, published bundles and device lists are exact. -/
theorem documents_exact :
    Exact .envelope Envelope.encode Envelope.decode ∧
      Exact .bundle PublishedBundle.encode PublishedBundle.decode ∧
      Exact .deviceList DeviceList.encode DeviceList.decode :=
  ⟨exact_of_lawful Envelope.codec_lawful (by decide) .envelope,
    exact_of_lawful PublishedBundle.codec_lawful (by decide) .bundle,
    exact_of_lawful DeviceList.codec_lawful (by decide) .deviceList⟩

/-- A list of devices in a map that is closed by a break, which no writer writes. -/
def DeviceList.openForm (l : DeviceList) : Bytes := 0xbf :: (l.encode.tail ++ [0xff])

/-- A form that is only read ends where it ends, too. -/
theorem documents_exact_openForm :
    DeviceList.decode (DeviceList.openForm ⟨"carol", [.ofNat 7, .ofNat (Nat.pow 2 64)]⟩) =
        .ok ⟨"carol", [.ofNat 7, .ofNat (Nat.pow 2 64)]⟩ ∧
      DeviceList.decode (DeviceList.openForm ⟨"carol", [.ofNat 7, .ofNat (Nat.pow 2 64)]⟩ ++ [0, 1]) =
        .error (.trailingBytes 2) := by
  have hread : DeviceList.decode
      (DeviceList.openForm ⟨"carol", [.ofNat 7, .ofNat (Nat.pow 2 64)]⟩) =
        .ok ⟨"carol", [.ofNat 7, .ofNat (Nat.pow 2 64)]⟩ := by decide +kernel
  exact ⟨hread, documents_exact.2.2.decode_append _ [0, 1] _ hread (List.cons_ne_nil 0 [1])
    (by decide +kernel)⟩

end EndToEnd.Wire
