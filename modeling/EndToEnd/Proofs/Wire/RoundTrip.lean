import EndToEnd.Proofs.Refusal
import EndToEnd.Wire.HandshakeMessage

/-!
# Messages read back

A message that could be written, and is of the version that is spoken, is read back as it was, and
the authenticator is found again behind it. Each reader comes with the law of what its writer wrote,
in front of any rest, so the law of a message is the chain of the laws of its fields.

Main statements:

- `RatchetMessage.decode_encode`, `HandshakeMessage.decode_encode`: a written message reads back;
- `splitMac_append`: a payload is cut where it was joined.
-/

namespace EndToEnd.Wire

/-- The current version is read back. -/
theorem readVersion_current (rest : Bytes) :
    readVersion (currentVersion :: rest) = .ok (currentVersion, rest) := by
  rw [readVersion, if_pos rfl]

/-- A tag is read back. -/
theorem readTag_cons (part : Part) (tag : UInt8) (rest : Bytes) :
    readTag part tag (tag :: rest) = .ok rest := by
  rw [readTag, if_pos rfl]

/-- A word is read back. -/
theorem readWord_append (part : Part) (n : UInt32) (rest : Bytes) :
    readWord part (writeWord n ++ rest) = .ok (n, rest) := by
  have hfits : n.toNat < Nat.pow 256 4 := n.toNat_lt
  have hback : (Bytes.natLE (writeWord n)).toUInt32 = n := by
    rw [writeWord, Bytes.natLE_littleEndian hfits]
    exact UInt32.ofNat_toNat
  have hbytes : writeWord n =
      [n.toNat.toUInt8, (n.toNat / 256).toUInt8, (n.toNat / 256 / 256).toUInt8,
        (n.toNat / 256 / 256 / 256).toUInt8] := rfl
  rw [hbytes] at hback ⊢
  simp only [List.cons_append, List.nil_append, readWord, hback]

/-- A string that was written is read back, whichever part it is read as. -/
theorem readString_append {written part : Part} {content bs : Bytes}
    (h : writeString written content = .ok bs) (rest : Bytes) :
    readString part (bs ++ rest) = .ok (content, rest) := by
  unfold writeString at h
  split at h
  next hlength =>
    obtain rfl := Except.ok.inj h
    have hfits : content.length < 2 ^ 32 := by unfold maxFieldSize at hlength; omega
    have hword : Bytes.littleEndian 4 content.length = writeWord content.length.toUInt32 := by
      rw [writeWord, Nat.toUInt32, UInt32.toNat_ofNat_of_lt' hfits]
    rw [readString, List.append_assoc, hword, readWord_append, ok_bind]
    have hnat : content.length.toUInt32.toNat = content.length :=
      UInt32.toNat_ofNat_of_lt' hfits
    simp only [hnat]
    rw [if_neg (Nat.not_lt.mpr hlength), if_neg (by simp), List.take_left' rfl, List.drop_left' rfl]
    rfl
  next => cases h

/-- The fields of a ratchet message that was written, in order. -/
theorem RatchetMessage.encode_eq_ok {m : RatchetMessage} {bs : Bytes} :
    m.encode = .ok bs ↔ ∃ ratchetKey ciphertext,
      writeString .ratchetKey m.ratchetKey = .ok ratchetKey ∧
      writeString .ciphertext m.ciphertext = .ok ciphertext ∧
      bs = m.version :: (ratchetKeyTag :: ratchetKey ++
        (chainIndexTag :: writeWord m.chainIndex ++ (ciphertextTag :: ciphertext))) := by
  constructor
  · intro h
    obtain ⟨ratchetKey, hkey, h⟩ := bind_eq_ok.mp h
    obtain ⟨ciphertext, hciphertext, h⟩ := bind_eq_ok.mp h
    exact ⟨ratchetKey, ciphertext, hkey, hciphertext, (Except.ok.inj h).symm⟩
  · rintro ⟨ratchetKey, ciphertext, hkey, hciphertext, rfl⟩
    rw [encode, hkey, ok_bind, hciphertext, ok_bind]
    rfl

/-- A ratchet message of the current version reads back from what it was written to. -/
theorem RatchetMessage.decode_encode {m : RatchetMessage} {bs : Bytes}
    (hversion : m.version = currentVersion) (h : m.encode = .ok bs) : decode bs = .ok m := by
  obtain ⟨ratchetKey, ciphertext, hkey, hciphertext, rfl⟩ := encode_eq_ok.mp h
  rw [decode, hversion, readVersion_current, ok_bind]
  simp only [List.cons_append]
  rw [readTag_cons, ok_bind, readString_append hkey, ok_bind]
  simp only []
  rw [readTag_cons, ok_bind, readWord_append, ok_bind]
  simp only []
  rw [readTag_cons, ok_bind, ← List.append_nil ciphertext, readString_append hciphertext, ok_bind]
  obtain ⟨version, key, index, text⟩ := m
  cases hversion
  rfl

/-- The fields of a handshake message that was written, in order. -/
theorem HandshakeMessage.encode_eq_ok {m : HandshakeMessage} {bs : Bytes} :
    m.encode = .ok bs ↔ ∃ oneTimeKey baseKey identityKey message,
      writeString .oneTimeKey m.oneTimeKey = .ok oneTimeKey ∧
      writeString .baseKey m.baseKey = .ok baseKey ∧
      writeString .identityKey m.identityKey = .ok identityKey ∧
      writeString .message m.message = .ok message ∧
      bs = m.version :: (oneTimeKeyTag :: oneTimeKey ++ (baseKeyTag :: baseKey ++
        (identityKeyTag :: identityKey ++ (messageTag :: message)))) := by
  constructor
  · intro h
    obtain ⟨oneTimeKey, honeTime, h⟩ := bind_eq_ok.mp h
    obtain ⟨baseKey, hbase, h⟩ := bind_eq_ok.mp h
    obtain ⟨identityKey, hidentity, h⟩ := bind_eq_ok.mp h
    obtain ⟨message, hmessage, h⟩ := bind_eq_ok.mp h
    exact ⟨oneTimeKey, baseKey, identityKey, message, honeTime, hbase, hidentity, hmessage,
      (Except.ok.inj h).symm⟩
  · rintro ⟨oneTimeKey, baseKey, identityKey, message, honeTime, hbase, hidentity, hmessage, rfl⟩
    rw [encode, honeTime, ok_bind, hbase, ok_bind, hidentity, ok_bind, hmessage, ok_bind]
    rfl

/-- A handshake message of the current version reads back from what it was written to. -/
theorem HandshakeMessage.decode_encode {m : HandshakeMessage} {bs : Bytes}
    (hversion : m.version = currentVersion) (h : m.encode = .ok bs) : decode bs = .ok m := by
  obtain ⟨oneTimeKey, baseKey, identityKey, message, honeTime, hbase, hidentity, hmessage, rfl⟩ :=
    encode_eq_ok.mp h
  rw [decode, hversion, readVersion_current, ok_bind]
  simp only [List.cons_append]
  rw [readTag_cons, ok_bind, readString_append honeTime, ok_bind]
  simp only []
  rw [readTag_cons, ok_bind, readString_append hbase, ok_bind]
  simp only []
  rw [readTag_cons, ok_bind, readString_append hidentity, ok_bind]
  simp only []
  rw [readTag_cons, ok_bind, ← List.append_nil message, readString_append hmessage, ok_bind]
  obtain ⟨version, a, b, c, d⟩ := m
  cases hversion
  rfl

/-- A payload is cut in front of the authenticator that was put behind the message. -/
theorem splitMac_append (body : Bytes) (mac : Mac) :
    splitMac (body ++ mac.bytes) = .ok (body, mac) := by
  have hcut : (body ++ mac.bytes).length - macLength = body.length := by
    rw [List.length_append, mac.length_eq, macLength, Nat.add_sub_cancel]
  simp only [splitMac, hcut, List.drop_left' rfl, List.take_left' rfl, Octets.ofBytes?_bytes]

end EndToEnd.Wire
