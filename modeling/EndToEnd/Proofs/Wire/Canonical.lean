import EndToEnd.Proofs.Wire.RoundTrip

/-!
# One form for each message

The readers accept nothing but what the writers write. Of each field this is a law in both
directions: the reader takes `bs` apart exactly where `bs` is the written field in front of the
rest. The law of a message is the chain of them, so a message has one form in bytes, and bytes are
the form of one message.

The two kinds of messages share their version, their first tag and their first field. The tag behind
that field tells them apart.

Main statement: `messages_canonical`.
-/

namespace EndToEnd.Wire

section Fields

variable {part : Part} {bs rest : Bytes}

theorem readVersion_eq_ok {version : UInt8} :
    readVersion bs = .ok (version, rest) ↔
      version = currentVersion ∧ bs = currentVersion :: rest := by
  constructor
  · intro h
    cases bs with
    | nil => cases h
    | cons first tail =>
      by_cases hfirst : first = currentVersion
      · rw [readVersion, if_pos hfirst] at h
        obtain ⟨rfl, rfl⟩ := Prod.mk.inj (Except.ok.inj h)
        exact ⟨hfirst, by rw [hfirst]⟩
      · rw [readVersion, if_neg hfirst] at h
        cases h
  · rintro ⟨rfl, rfl⟩
    exact readVersion_current rest

theorem readTag_eq_ok {tag : UInt8} : readTag part tag bs = .ok rest ↔ bs = tag :: rest := by
  constructor
  · intro h
    cases bs with
    | nil => cases h
    | cons first tail =>
      by_cases hfirst : first = tag
      · rw [readTag, if_pos hfirst] at h
        rw [hfirst, Except.ok.inj h]
      · rw [readTag, if_neg hfirst] at h
        cases h
  · rintro rfl
    exact readTag_cons part tag rest

/-- A number is its four bytes and no others. -/
theorem readWord_eq_ok {n : UInt32} : readWord part bs = .ok (n, rest) ↔ bs = writeWord n ++ rest := by
  constructor
  · intro h
    match bs, h with
    | b₀ :: b₁ :: b₂ :: b₃ :: tail, h =>
      obtain ⟨rfl, rfl⟩ := Prod.mk.inj (Except.ok.inj h)
      have hbound : Bytes.natLE [b₀, b₁, b₂, b₃] < Nat.pow 256 4 := Bytes.natLE_lt _
      have hfits : Bytes.natLE [b₀, b₁, b₂, b₃] < UInt32.size := hbound
      have hback : writeWord (Bytes.natLE [b₀, b₁, b₂, b₃]).toUInt32 = [b₀, b₁, b₂, b₃] := by
        rw [writeWord, Nat.toUInt32, UInt32.toNat_ofNat_of_lt' hfits]
        exact Bytes.littleEndian_natLE [b₀, b₁, b₂, b₃]
      simp only [hback, List.cons_append, List.nil_append]
  · rintro rfl
    exact readWord_append part n rest

/-- A string is written if it is not too long. -/
theorem writeString_eq_ok {content : Bytes} :
    writeString part content = .ok bs ↔ content.length ≤ maxFieldSize ∧
      bs = Bytes.littleEndian 4 content.length ++ content := by
  by_cases hlength : content.length ≤ maxFieldSize
  · rw [writeString, if_pos hlength]
    simp only [Except.ok.injEq, hlength, true_and, eq_comm]
  · rw [writeString, if_neg hlength]
    simp only [hlength, false_and, reduceCtorEq]

/-- A string is read exactly where one that can be written stands. -/
theorem readString_eq_ok (written : Part) {content : Bytes} :
    readString part bs = .ok (content, rest) ↔
      ∃ field, writeString written content = .ok field ∧ bs = field ++ rest := by
  constructor
  · intro h
    obtain ⟨⟨length, tail⟩, hword, htail⟩ := bind_eq_ok.mp h
    obtain rfl := readWord_eq_ok.mp hword
    simp only at htail
    split at htail
    · cases htail
    next hlimit =>
      split at htail
      · cases htail
      next hshort =>
        obtain ⟨rfl, rfl⟩ := Prod.mk.inj (Except.ok.inj htail)
        have htake : (tail.take length.toNat).length = length.toNat := by
          rw [List.length_take]
          omega
        refine ⟨_, writeString_eq_ok.mpr ⟨?_, rfl⟩, ?_⟩
        · omega
        · rw [htake, List.append_assoc, List.take_append_drop, writeWord]
  · rintro ⟨field, hfield, rfl⟩
    exact readString_append hfield rest

theorem readEnd_eq_ok {u : Unit} : readEnd bs = .ok u ↔ bs = [] := by
  cases bs with
  | nil => simp only [readEnd]
  | cons b bs => simp only [readEnd, reduceCtorEq]

end Fields

namespace RatchetMessage

/-- The byte fields are short enough to be written. -/
def Fits (m : RatchetMessage) : Prop :=
  m.ratchetKey.length ≤ maxFieldSize ∧ m.ciphertext.length ≤ maxFieldSize

/-- A message is written if its parts fit. -/
theorem exists_encode_iff {m : RatchetMessage} : (∃ bs, m.encode = .ok bs) ↔ m.Fits := by
  constructor
  · rintro ⟨bs, h⟩
    obtain ⟨_, _, hkey, hciphertext, _⟩ := encode_eq_ok.mp h
    exact ⟨(writeString_eq_ok.mp hkey).1, (writeString_eq_ok.mp hciphertext).1⟩
  · rintro ⟨hkey, hciphertext⟩
    exact ⟨_, encode_eq_ok.mpr ⟨_, _, writeString_eq_ok.mpr ⟨hkey, rfl⟩,
      writeString_eq_ok.mpr ⟨hciphertext, rfl⟩, rfl⟩⟩

/-- What a ratchet message is read from is what it is written to. -/
theorem encode_of_decode {m : RatchetMessage} {bs : Bytes} (h : decode bs = .ok m) :
    m.version = currentVersion ∧ m.encode = .ok bs := by
  obtain ⟨⟨version, bs₁⟩, hversion, h⟩ := bind_eq_ok.mp h
  obtain ⟨bs₂, htag₁, h⟩ := bind_eq_ok.mp h
  obtain ⟨⟨ratchetKey, bs₃⟩, hkey, h⟩ := bind_eq_ok.mp h
  obtain ⟨bs₄, htag₂, h⟩ := bind_eq_ok.mp h
  obtain ⟨⟨chainIndex, bs₅⟩, hindex, h⟩ := bind_eq_ok.mp h
  obtain ⟨bs₆, htag₃, h⟩ := bind_eq_ok.mp h
  obtain ⟨⟨ciphertext, bs₇⟩, hciphertext, h⟩ := bind_eq_ok.mp h
  obtain ⟨_, hend, h⟩ := bind_eq_ok.mp h
  obtain rfl := Except.ok.inj h
  obtain ⟨rfl, rfl⟩ := readVersion_eq_ok.mp hversion
  obtain rfl := readTag_eq_ok.mp htag₁
  obtain ⟨keyField, hwrittenKey, rfl⟩ := (readString_eq_ok .ratchetKey).mp hkey
  obtain rfl := readTag_eq_ok.mp htag₂
  obtain rfl := readWord_eq_ok.mp hindex
  obtain rfl := readTag_eq_ok.mp htag₃
  obtain ⟨textField, hwrittenText, rfl⟩ := (readString_eq_ok .ciphertext).mp hciphertext
  obtain rfl := readEnd_eq_ok.mp hend
  refine ⟨rfl, encode_eq_ok.mpr ⟨keyField, textField, hwrittenKey, hwrittenText, ?_⟩⟩
  simp only [List.append_nil, List.cons_append]

/-- A message is read of its own bytes, if its version is the current one, and of no others. -/
theorem decode_eq_ok {m : RatchetMessage} {bs : Bytes} :
    decode bs = .ok m ↔ m.version = currentVersion ∧ m.encode = .ok bs :=
  ⟨encode_of_decode, fun ⟨hversion, h⟩ => decode_encode hversion h⟩

end RatchetMessage

namespace HandshakeMessage

/-- The byte fields are short enough to be written. -/
def Fits (m : HandshakeMessage) : Prop :=
  m.oneTimeKey.length ≤ maxFieldSize ∧ m.baseKey.length ≤ maxFieldSize ∧
    m.identityKey.length ≤ maxFieldSize ∧ m.message.length ≤ maxFieldSize

/-- A handshake message is written if its parts fit. -/
theorem exists_encode_iff {m : HandshakeMessage} : (∃ bs, m.encode = .ok bs) ↔ m.Fits := by
  constructor
  · rintro ⟨bs, h⟩
    obtain ⟨_, _, _, _, honeTime, hbase, hidentity, hmessage, _⟩ := encode_eq_ok.mp h
    exact ⟨(writeString_eq_ok.mp honeTime).1, (writeString_eq_ok.mp hbase).1,
      (writeString_eq_ok.mp hidentity).1, (writeString_eq_ok.mp hmessage).1⟩
  · rintro ⟨honeTime, hbase, hidentity, hmessage⟩
    exact ⟨_, encode_eq_ok.mpr ⟨_, _, _, _, writeString_eq_ok.mpr ⟨honeTime, rfl⟩,
      writeString_eq_ok.mpr ⟨hbase, rfl⟩, writeString_eq_ok.mpr ⟨hidentity, rfl⟩,
      writeString_eq_ok.mpr ⟨hmessage, rfl⟩, rfl⟩⟩

/-- A handshake message is written in the length that is told beforehand. -/
theorem length_of_encode {m : HandshakeMessage} {bs : Bytes} (h : m.encode = .ok bs) :
    bs.length = m.encodedLength := by
  obtain ⟨_, _, _, _, honeTime, hbase, hidentity, hmessage, rfl⟩ := encode_eq_ok.mp h
  simp only [List.length_cons, List.length_append, length_writeString honeTime,
    length_writeString hbase, length_writeString hidentity, length_writeString hmessage,
    encodedLength]
  omega

/-- What a handshake message is read from is what it is written to. -/
theorem encode_of_decode {m : HandshakeMessage} {bs : Bytes} (h : decode bs = .ok m) :
    m.version = currentVersion ∧ m.encode = .ok bs := by
  obtain ⟨⟨version, bs₁⟩, hversion, h⟩ := bind_eq_ok.mp h
  obtain ⟨bs₂, htag₁, h⟩ := bind_eq_ok.mp h
  obtain ⟨⟨oneTimeKey, bs₃⟩, honeTime, h⟩ := bind_eq_ok.mp h
  obtain ⟨bs₄, htag₂, h⟩ := bind_eq_ok.mp h
  obtain ⟨⟨baseKey, bs₅⟩, hbase, h⟩ := bind_eq_ok.mp h
  obtain ⟨bs₆, htag₃, h⟩ := bind_eq_ok.mp h
  obtain ⟨⟨identityKey, bs₇⟩, hidentity, h⟩ := bind_eq_ok.mp h
  obtain ⟨bs₈, htag₄, h⟩ := bind_eq_ok.mp h
  obtain ⟨⟨message, bs₉⟩, hmessage, h⟩ := bind_eq_ok.mp h
  obtain ⟨_, hend, h⟩ := bind_eq_ok.mp h
  obtain rfl := Except.ok.inj h
  obtain ⟨rfl, rfl⟩ := readVersion_eq_ok.mp hversion
  obtain rfl := readTag_eq_ok.mp htag₁
  obtain ⟨oneTimeField, hwrittenOneTime, rfl⟩ := (readString_eq_ok .oneTimeKey).mp honeTime
  obtain rfl := readTag_eq_ok.mp htag₂
  obtain ⟨baseField, hwrittenBase, rfl⟩ := (readString_eq_ok .baseKey).mp hbase
  obtain rfl := readTag_eq_ok.mp htag₃
  obtain ⟨identityField, hwrittenIdentity, rfl⟩ := (readString_eq_ok .identityKey).mp hidentity
  obtain rfl := readTag_eq_ok.mp htag₄
  obtain ⟨messageField, hwrittenMessage, rfl⟩ := (readString_eq_ok .message).mp hmessage
  obtain rfl := readEnd_eq_ok.mp hend
  refine ⟨rfl, encode_eq_ok.mpr ⟨oneTimeField, baseField, identityField, messageField,
    hwrittenOneTime, hwrittenBase, hwrittenIdentity, hwrittenMessage, ?_⟩⟩
  simp only [List.append_nil, List.cons_append]

/-- A handshake message is read of its own bytes, if its version is the current one, and of no
others. -/
theorem decode_eq_ok {m : HandshakeMessage} {bs : Bytes} :
    decode bs = .ok m ↔ m.version = currentVersion ∧ m.encode = .ok bs :=
  ⟨encode_of_decode, fun ⟨hversion, h⟩ => decode_encode hversion h⟩

end HandshakeMessage

/-- A payload is cut in one way: what is in front of its last eight bytes, and those. -/
theorem splitMac_eq_ok {payload body : Bytes} {mac : Mac} :
    splitMac payload = .ok (body, mac) ↔ payload = body ++ mac.bytes := by
  constructor
  · intro h
    unfold splitMac at h
    dsimp only at h
    split at h
    next cut hcut =>
      obtain ⟨rfl, rfl⟩ := Prod.mk.inj (Except.ok.inj h)
      rw [← Octets.ofBytes?_eq_some_iff.mp hcut, List.take_append_drop]
    next => exact nomatch h
  · rintro rfl
    exact splitMac_append body mac

/-- A string in front of a rest determines both: its length is read first. -/
theorem writeString_append_inj {part part' : Part} {content content' field field' rest rest' : Bytes}
    (h : writeString part content = .ok field) (h' : writeString part' content' = .ok field')
    (hbytes : field ++ rest = field' ++ rest') : content = content' ∧ rest = rest' := by
  have hread : readString part (field ++ rest) = .ok (content, rest) := readString_append h rest
  rw [hbytes, readString_append h' rest'] at hread
  have hpair := Prod.mk.inj (Except.ok.inj hread)
  exact ⟨hpair.1.symm, hpair.2.symm⟩

/-- No bytes are both a ratchet message and a handshake message: behind the first field the one has
the tag of its position, the other that of its base key. -/
theorem RatchetMessage.encode_ne_encode {m : RatchetMessage} {m' : HandshakeMessage} {bs : Bytes}
    (h : m.encode = .ok bs) : m'.encode ≠ .ok bs := by
  intro h'
  obtain ⟨keyField, textField, hkey, _, rfl⟩ := encode_eq_ok.mp h
  obtain ⟨oneTimeField, _, _, _, honeTime, _, _, _, hbytes⟩ := HandshakeMessage.encode_eq_ok.mp h'
  simp only [List.cons_append] at hbytes
  injection hbytes with _ hbytes
  injection hbytes with _ hbytes
  obtain ⟨_, hrest⟩ := writeString_append_inj hkey honeTime hbytes
  injection hrest with htag
  exact absurd htag (by decide)

/-- Messages of either kind are read from exactly the bytes that they are written to. They can be
written exactly if their byte fields fit, to as many bytes as is known beforehand, and no bytes are
messages of both kinds. -/
theorem messages_canonical :
    (∀ bs (m : RatchetMessage),
      RatchetMessage.decode bs = .ok m ↔ m.version = currentVersion ∧ m.encode = .ok bs) ∧
    (∀ bs (m : HandshakeMessage),
      HandshakeMessage.decode bs = .ok m ↔ m.version = currentVersion ∧ m.encode = .ok bs) ∧
    (∀ m : RatchetMessage, ((∃ bs, m.encode = .ok bs) ↔ m.Fits) ∧
      ∀ bs, m.encode = .ok bs → bs.length = m.encodedLength) ∧
    (∀ m : HandshakeMessage, ((∃ bs, m.encode = .ok bs) ↔ m.Fits) ∧
      ∀ bs, m.encode = .ok bs → bs.length = m.encodedLength) ∧
    ∀ bs m m', ¬(RatchetMessage.decode bs = .ok m ∧ HandshakeMessage.decode bs = .ok m') := by
  refine ⟨fun _ _ => RatchetMessage.decode_eq_ok, fun _ _ => HandshakeMessage.decode_eq_ok,
    fun _ => ⟨RatchetMessage.exists_encode_iff, fun _ => RatchetMessage.length_of_encode⟩,
    fun _ => ⟨HandshakeMessage.exists_encode_iff, fun _ => HandshakeMessage.length_of_encode⟩, ?_⟩
  rintro bs m m' ⟨h, h'⟩
  have hratchet := (RatchetMessage.encode_of_decode h).2
  have hhandshake := (HandshakeMessage.encode_of_decode h').2
  exact RatchetMessage.encode_ne_encode hratchet hhandshake

end EndToEnd.Wire
