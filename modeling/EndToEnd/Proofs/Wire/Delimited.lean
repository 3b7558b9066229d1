import EndToEnd.Proofs.Wire.Canonical

/-!
# Messages cut short or extended

A message says by itself where it ends: each of its fields has a fixed width or announces its
length. So a reader that is given less than a whole message runs out of bytes inside the field where
the cut is, and what it says is that bytes are missing there. A reader that is given more reads the
message and counts what is left.

Both are laws of one field in front of others, and a message is a chain of fields.

Main statements:

- `Delimits.bind`: a field in front of a message;
- `messages_delimited`: messages of either kind.
-/

namespace EndToEnd.Wire

variable {α β : Type} {part : Part} {written behind : Bytes}

/-! ## Fields and messages -/

/-- The refusal of bytes that end too early: fewer are there than are needed. -/
def CutShort (answer : Except Error α) : Prop :=
  ∃ part needed available, answer = .error (.truncated part needed available) ∧ available < needed

/-- Bytes that were written are refused as cut short if any of them are missing at the end. -/
def RefusesCuts (read : Bytes → Except Error α) (written : Bytes) : Prop :=
  ∀ front, front <+: written → front ≠ written → CutShort (read front)

/-- The reader of a field takes what was written off the front, and needs all of it. -/
structure Takes (read : Bytes → Except Error β) (answer : Bytes → β) (written : Bytes) : Prop where
  whole : ∀ rest, read (written ++ rest) = .ok (answer rest)
  cut : RefusesCuts read written

/-- The reader of a message needs all of what was written, and has no use for more. -/
structure Delimits (read : Bytes → Except Error α) (written : Bytes) : Prop where
  cut : RefusesCuts read written
  extended : ∀ behind, behind ≠ [] →
    read (written ++ behind) = .error (.trailingBytes behind.length)

variable {read : Bytes → Except Error β} {answer : Bytes → β} {next : β → Except Error α}

/-- A cut is inside the first field, or behind it and inside the rest. -/
theorem Takes.refusesCuts (h : Takes read answer written)
    (hnext : RefusesCuts (fun rest => next (answer rest)) behind) :
    RefusesCuts (fun bs => read bs >>= next) (written ++ behind) := by
  rintro front ⟨missing, hsplit⟩ hcut
  show CutShort (read front >>= next)
  rcases List.append_eq_append_iff.mp hsplit with ⟨inside, hwritten, -⟩ | ⟨front', rfl, hbehind⟩
  · by_cases hall : front = written
    · subst hall
      rw [← List.append_nil front, h.whole, ok_bind]
      refine hnext [] (List.nil_prefix) fun hempty => hcut ?_
      rw [← hempty, List.append_nil]
    · obtain ⟨part, needed, available, hread, hfew⟩ := h.cut front ⟨inside, hwritten.symm⟩ hall
      exact ⟨part, needed, available, by rw [hread, error_bind], hfew⟩
  · rw [h.whole, ok_bind]
    exact hnext front' ⟨missing, hbehind.symm⟩ fun hall => hcut (congrArg (written ++ ·) hall)

/-- A field in front of a message belongs to it. -/
theorem Delimits.bind (h : Takes read answer written)
    (hnext : Delimits (fun rest => next (answer rest)) behind) :
    Delimits (fun bs => read bs >>= next) (written ++ behind) where
  cut := h.refusesCuts hnext.cut
  extended more hmore := by rw [List.append_assoc, h.whole, ok_bind, hnext.extended more hmore]

/-- A message ends where nothing is left. -/
theorem delimits_end (next : Unit → Except Error α) :
    Delimits (fun bs => readEnd bs >>= next) [] where
  cut front hfront hcut := absurd (List.prefix_nil.mp hfront) hcut
  extended behind hbehind := by
    cases behind with
    | nil => exact absurd rfl hbehind
    | cons _ _ => rfl

/-! ## The fields -/

/-- Of a single byte nothing is left if it is cut. -/
theorem eq_nil_of_cut_singleton {b : UInt8} {front : Bytes} (hfront : front <+: [b])
    (hcut : front ≠ [b]) : front = [] := by
  rw [List.prefix_cons_iff] at hfront
  rcases hfront with rfl | ⟨rest, rfl, hrest⟩
  · rfl
  · exact absurd (congrArg (b :: ·) (List.prefix_nil.mp hrest)) hcut

theorem readVersion_takes : Takes readVersion (currentVersion, ·) [currentVersion] where
  whole := readVersion_current
  cut front hfront hcut := by
    rw [eq_nil_of_cut_singleton hfront hcut]
    exact ⟨.version, 1, 0, rfl, Nat.one_pos⟩

theorem readTag_takes (part : Part) (tag : UInt8) : Takes (readTag part tag) id [tag] where
  whole := readTag_cons part tag
  cut front hfront hcut := by
    rw [eq_nil_of_cut_singleton hfront hcut]
    exact ⟨part, 1, 0, rfl, Nat.one_pos⟩

/-- What is cut is shorter. -/
theorem length_lt_of_cut {front : Bytes} (hfront : front <+: written) (hcut : front ≠ written) :
    front.length < written.length :=
  Nat.lt_of_le_of_ne hfront.length_le fun hlength => hcut (hfront.eq_of_length hlength)

/-- A word that is cut short is refused with what it needs and what is there. -/
theorem readWord_of_short {bs : Bytes} (h : bs.length < 4) :
    readWord part bs = .error (.truncated part 4 bs.length) := by
  unfold readWord
  split
  next => simp only [List.length_cons] at h; omega
  next => rfl

theorem readWord_takes (part : Part) (n : UInt32) :
    Takes (readWord part) (n, ·) (writeWord n) where
  whole := readWord_append part n
  cut front hfront hcut := by
    have hshort := length_lt_of_cut hfront hcut
    rw [writeWord, Bytes.length_littleEndian] at hshort
    exact ⟨part, 4, front.length, readWord_of_short hshort, hshort⟩

/-- A string is refused for the bytes that it lacks, as its length is read before them. -/
theorem readString_takes {content field : Bytes} (h : writeString part content = .ok field) :
    Takes (readString part) (content, ·) field where
  whole := readString_append h
  cut := by
    obtain ⟨hlimit, rfl⟩ := writeString_eq_ok.mp h
    have hfits : content.length < UInt32.size := Nat.lt_of_le_of_lt hlimit (by decide)
    have hlength : content.length.toUInt32.toNat = content.length := UInt32.toNat_ofNat_of_lt' hfits
    have hword : Bytes.littleEndian 4 content.length = writeWord content.length.toUInt32 := by
      rw [writeWord, hlength]
    rw [hword]
    refine (readWord_takes part content.length.toUInt32).refusesCuts fun front hfront hcut => ?_
    have hshort := length_lt_of_cut hfront hcut
    refine ⟨part, content.length, front.length, ?_, hshort⟩
    simp only [hlength]
    rw [if_neg (Nat.not_lt.mpr hlimit), if_pos hshort]

/-! ## Messages -/

/-- A message ends with its last byte. -/
theorem RatchetMessage.delimits {m : RatchetMessage} {bs : Bytes}
    (hversion : m.version = currentVersion) (h : m.encode = .ok bs) : Delimits decode bs := by
  obtain ⟨ratchetKey, ciphertext, hkey, hciphertext, rfl⟩ := encode_eq_ok.mp h
  rw [hversion, ← List.append_nil ciphertext]
  simp only [List.cons_append]
  apply Delimits.bind readVersion_takes
  apply Delimits.bind (readTag_takes .ratchetKey ratchetKeyTag)
  apply Delimits.bind (readString_takes hkey)
  apply Delimits.bind (readTag_takes .chainIndex chainIndexTag)
  apply Delimits.bind (readWord_takes .chainIndex m.chainIndex)
  apply Delimits.bind (readTag_takes .ciphertext ciphertextTag)
  apply Delimits.bind (readString_takes hciphertext)
  exact delimits_end _

/-- A handshake message ends with its last byte. -/
theorem HandshakeMessage.delimits {m : HandshakeMessage} {bs : Bytes}
    (hversion : m.version = currentVersion) (h : m.encode = .ok bs) : Delimits decode bs := by
  obtain ⟨oneTimeKey, baseKey, identityKey, message, honeTime, hbase, hidentity, hmessage, rfl⟩ :=
    encode_eq_ok.mp h
  rw [hversion, ← List.append_nil message]
  simp only [List.cons_append]
  apply Delimits.bind readVersion_takes
  apply Delimits.bind (readTag_takes .oneTimeKey oneTimeKeyTag)
  apply Delimits.bind (readString_takes honeTime)
  apply Delimits.bind (readTag_takes .baseKey baseKeyTag)
  apply Delimits.bind (readString_takes hbase)
  apply Delimits.bind (readTag_takes .identityKey identityKeyTag)
  apply Delimits.bind (readString_takes hidentity)
  apply Delimits.bind (readTag_takes .message messageTag)
  apply Delimits.bind (readString_takes hmessage)
  exact delimits_end _

/-- A message of the spoken version that was written is refused as cut short if any bytes are missing
at its end, and for as many bytes as are behind it if there are more. -/
theorem messages_delimited :
    (∀ (m : RatchetMessage) (bs : Bytes), m.version = currentVersion → m.encode = .ok bs →
      Delimits RatchetMessage.decode bs) ∧
    ∀ (m : HandshakeMessage) (bs : Bytes), m.version = currentVersion → m.encode = .ok bs →
      Delimits HandshakeMessage.decode bs :=
  ⟨fun _ _ => RatchetMessage.delimits, fun _ _ => HandshakeMessage.delimits⟩

/-- A short message of either kind, as it is written. -/
theorem messages_delimited_short :
    ((RatchetMessage.current [0x11] 7 [0xc0, 0xde]).encode =
        .ok [3, 0x0a, 1, 0, 0, 0, 0x11, 0x10, 7, 0, 0, 0, 0x22, 2, 0, 0, 0, 0xc0, 0xde] ∧
      Delimits RatchetMessage.decode
        [3, 0x0a, 1, 0, 0, 0, 0x11, 0x10, 7, 0, 0, 0, 0x22, 2, 0, 0, 0, 0xc0, 0xde]) ∧
    (HandshakeMessage.current [1] [2, 2] [] [0xff]).encode =
        .ok [3, 0x0a, 1, 0, 0, 0, 1, 0x12, 2, 0, 0, 0, 2, 2, 0x1a, 0, 0, 0, 0, 0x22, 1, 0, 0, 0,
          0xff] ∧
      Delimits HandshakeMessage.decode
        [3, 0x0a, 1, 0, 0, 0, 1, 0x12, 2, 0, 0, 0, 2, 2, 0x1a, 0, 0, 0, 0, 0x22, 1, 0, 0, 0,
          0xff] :=
  ⟨⟨rfl, messages_delimited.1 (.current [0x11] 7 [0xc0, 0xde]) _ rfl rfl⟩, rfl,
    messages_delimited.2 (.current [1] [2, 2] [] [0xff]) _ rfl rfl⟩

end EndToEnd.Wire
