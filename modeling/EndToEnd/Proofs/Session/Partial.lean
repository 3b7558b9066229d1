import EndToEnd.Proofs.Session.Opening
import EndToEnd.Proofs.Words

/-!
# Reading with partial operations

The operations that reading is built from are total here: a difference that would be negative is
zero, a front that is longer than the bytes is all of them. A machine has no answer then. So reading
is written down once more with operations that have an answer only where a machine has one: words are
subtracted from larger ones and counted up to the last one, bytes are cut where there are enough of
them, and a key is made of 32 bytes. It always has an answer, and it is the same.

Main statement: `openMessage_answers`.
-/

namespace EndToEnd.Partial

variable {ε ε' α β : Type} {S : Suite}

/-- An answer or a refusal, or nothing at all. -/
abbrev Attempt (ε α : Type) := ExceptT ε Option α

/-- What is asked for has to be there. -/
def present (a : Option α) : Attempt ε α := ExceptT.lift a

/-- What is answered or refused anyway. -/
def total (result : Except ε α) : Attempt ε α := ExceptT.mk (some result)

/-- There is an answer or a refusal, and this is it. -/
def Answers (x : Attempt ε α) (result : Except ε α) : Prop := x.run = some result

/-! ## Operations -/

/-- The difference of two words, from the larger one. -/
def difference (a b : UInt32) : Option UInt32 := if b ≤ a then some (a - b) else none

/-- The next word. -/
def successor (a : UInt32) : Option UInt32 := if a < 0xffffffff then some (a + 1) else none

/-- The first bytes and those behind them. -/
def cut (count : Nat) (bs : Bytes) : Option (Bytes × Bytes) :=
  if count ≤ bs.length then some (bs.take count, bs.drop count) else none

/-- The keys of a root step, cut from derived bytes. -/
def rootStep (S : Suite) (salt material info : Bytes) : Option RootStep := do
  let stream ← (S.deriveBytes salt material info (32 + 32)).toOption
  let (root, chain) ← cut 32 stream
  return ⟨← Octets.ofBytes? 32 root, ← Octets.ofBytes? 32 chain⟩

/-- The keys of a message, cut from derived bytes. -/
def messageKeys (S : Suite) (key : Key) : Option MessageKeys := do
  let stream ← (S.deriveBytes (List.replicate 80 0) key.bytes (Bytes.ofText "OLM_KEYS")
    (32 + (32 + 16))).toOption
  let (cipherKey, rest) ← cut 32 stream
  let (macKey, iv) ← cut 32 rest
  return ⟨← Octets.ofBytes? 32 cipherKey, ← Octets.ofBytes? 32 macKey, ← Octets.ofBytes? 16 iv⟩

/-- Whether an authenticator is that of the bytes of a message: it is the front of a hash. -/
def verifies (S : Suite) (keys : MessageKeys) (body mac : Bytes) : Option Bool := do
  let (front, _) ← cut 8 (S.mac keys.macKey.bytes body).bytes
  return front == mac

/-! ## Messages -/

/-- Bytes off the front, if they are there. -/
def readBytes (part : Wire.Part) (count : Nat) (bs : Bytes) :
    Attempt Wire.Error (Bytes × Bytes) :=
  if bs.length < count then throw (.truncated part count bs.length) else present (cut count bs)

def readByte (part : Wire.Part) (bs : Bytes) : Attempt Wire.Error (UInt8 × Bytes) := do
  let (front, rest) ← readBytes part 1 bs
  return (← present front.head?, rest)

def readVersion (bs : Bytes) : Attempt Wire.Error (UInt8 × Bytes) := do
  let (version, rest) ← readByte .version bs
  if version = Wire.currentVersion then return (version, rest)
  else throw (.unsupportedVersion version)

def readTag (part : Wire.Part) (expected : UInt8) (bs : Bytes) : Attempt Wire.Error Bytes := do
  let (actual, rest) ← readByte part bs
  if actual = expected then return rest else throw (.unexpectedTag part expected actual)

def readWord (part : Wire.Part) (bs : Bytes) : Attempt Wire.Error (UInt32 × Bytes) := do
  let (front, rest) ← readBytes part 4 bs
  let word ← present (Octets.ofBytes? 4 front)
  return ((Bytes.natLE word.bytes).toUInt32, rest)

def readString (part : Wire.Part) (bs : Bytes) : Attempt Wire.Error (Bytes × Bytes) := do
  let (length, rest) ← readWord part bs
  if length.toNat > Wire.maxFieldSize then
    throw (.tooLarge part length.toNat Wire.maxFieldSize)
  else readBytes part length.toNat rest

def decode (bs : Bytes) : Attempt Wire.Error Wire.RatchetMessage := do
  let (version, bs) ← readVersion bs
  let bs ← readTag .ratchetKey Wire.RatchetMessage.ratchetKeyTag bs
  let (ratchetKey, bs) ← readString .ratchetKey bs
  let bs ← readTag .chainIndex Wire.RatchetMessage.chainIndexTag bs
  let (chainIndex, bs) ← readWord .chainIndex bs
  let bs ← readTag .ciphertext Wire.RatchetMessage.ciphertextTag bs
  let (ciphertext, bs) ← readString .ciphertext bs
  total (Wire.readEnd bs)
  return ⟨version, ratchetKey, chainIndex, ciphertext⟩

/-- A payload cut in front of its authenticator. -/
def splitMac (payload : Bytes) : Attempt Wire.Error (Bytes × Mac) :=
  if payload.length < Wire.macLength then throw (.missingMac payload.length)
  else do
    let (body, rest) ← present (cut (payload.length - Wire.macLength) payload)
    return (body, ← present (Octets.ofBytes? 8 rest))

/-! ## Sessions -/

/-- The first kept key that is the message's, taken out of its place. -/
def openSkipped (S : Suite) (s : Session) (body mac ciphertext : Bytes) :
    Attempt SessionError (Option (Bytes × Session)) := do
  let tried ← present (s.skipped.mapM fun k => do verifies S (← messageKeys S k.key) body mac)
  match tried.findIdx? id with
  | none => return none
  | some i =>
    let k ← present s.skipped[i]?
    let keys ← present (messageKeys S k.key)
    let plaintext ← total (Session.openWith S keys ciphertext)
    return some (plaintext, { s with skipped := s.skipped.eraseIdx i })

/-- A receiving step. The key of the peer is copied once the agreement has succeeded. -/
def receiveStep (S : Suite) (s : Session) (theirRatchet : Bytes) : Attempt SessionError Session := do
  match s.ratchet with
  | none => throw (.rejected .ratchetTooEarly)
  | some ratchet =>
    let shared ← total ((ratchet.agree S theirRatchet).mapError .crypto)
    let keys ← present (rootStep S s.root.bytes shared.bytes (Bytes.ofText "OLM_RATCHET"))
    let their ← present (Octets.ofBytes? 32 theirRatchet)
    return { s with
      root := keys.root
      receiveChain := some keys.chain
      receiveIndex := 0
      theirRatchet := some their
      stepPending := true }

/-- The session on whose receiving chain a message is opened. -/
def reached (S : Suite) (s : Session) (theirRatchet : Bytes) (isHandshake : Bool) :
    Attempt SessionError Session :=
  if !isHandshake && s.isNewRatchet theirRatchet then receiveStep S s theirRatchet else pure s

/-- A message opened at its position. The way there is measured once it is known to lie ahead, and
the next position is counted once it is known that there is one. -/
def openOnChain (S : Suite) (config : Config) (now : UInt64) (s : Session) (body mac : Bytes)
    (m : Wire.RatchetMessage) : Attempt SessionError (Bytes × Session) := do
  match s.receiveChain with
  | none => throw .noReceiveChain
  | some chain =>
    if m.chainIndex < s.receiveIndex then
      throw (.rejected (.consumed m.chainIndex s.receiveIndex))
    else
      let gap ← present (difference m.chainIndex s.receiveIndex)
      if gap.toNat > config.maxSkip then
        throw (.tooManySkipped s.receiveIndex m.chainIndex config.maxSkip)
      else
        let (passed, chain) := Session.passKeys S gap.toNat chain []
        let keys ← present (messageKeys S (messageKey S chain))
        let authentic ← present (verifies S keys body mac)
        if authentic then
          let plaintext ← total (Session.openWith S keys m.ciphertext)
          if m.chainIndex = 0xffffffff then throw .indexOverflow
          else
            let next ← present (successor m.chainIndex)
            return (plaintext, { s with
              receiveChain := some (nextChainKey S chain)
              receiveIndex := next
              skipped := s.skipped ++ passed.map (SkippedKey.mk now) })
        else throw (.rejected .macMismatch)

/-- A ratchet message with its authenticator opened. -/
def openMessage (S : Suite) (config : Config) (now : UInt64) (s : Session) (payload : Bytes)
    (isHandshake : Bool) : Attempt SessionError (Bytes × Session) := do
  let (body, mac) ← (splitMac payload).adapt .wire
  let message ← (decode body).adapt .wire
  let s := s.prune config now
  match ← openSkipped S s body mac.bytes message.ciphertext with
  | some opened => return opened
  | none =>
    let s ← reached S s message.ratchetKey isHandshake
    let (plaintext, s) ← openOnChain S config now s body mac.bytes message
    return (plaintext, s.prune config now)

/-! ## Answers -/

namespace Answers

theorem pure (a : α) : Answers (pure a : Attempt ε α) (.ok a) := rfl

theorem throw (cause : ε) : Answers (throw cause : Attempt ε α) (.error cause) := rfl

theorem total (result : Except ε α) : Answers (total result) result := rfl

/-- What is asked for and is there is answered. -/
theorem present {o : Option α} {a : α} (h : o = some a) :
    Answers (present o : Attempt ε α) (.ok a) := by
  subst h
  rfl

variable {x : Attempt ε α} {f : α → Attempt ε β} {result : Except ε α}

/-- A chain goes on behind an answer. -/
theorem bind_ok {a : α} {rest : Except ε β} (hx : Answers x (.ok a)) (hf : Answers (f a) rest) :
    Answers (x >>= f) rest := by
  show ((x.run >>= ExceptT.bindCont f) : Option _) = _
  rw [hx]
  exact hf

/-- A chain stops at a refusal. -/
theorem bind_error {cause : ε} (hx : Answers x (.error cause)) :
    Answers (x >>= f) (.error cause) := by
  show ((x.run >>= ExceptT.bindCont f) : Option _) = _
  rw [hx]
  rfl

/-- A chain has an answer if its first link has one, and behind that the rest. -/
theorem bind {g : α → Except ε β} (hx : Answers x result)
    (hf : ∀ a, result = .ok a → Answers (f a) (g a)) : Answers (x >>= f) (result >>= g) := by
  cases result with
  | error cause => exact hx.bind_error
  | ok a => exact hx.bind_ok (hf a rfl)

/-- Both sides look at the same thing. -/
theorem ite {c : Prop} [Decidable c] {x y : Attempt ε α} {ofTrue ofFalse : Except ε α}
    (hx : c → Answers x ofTrue) (hy : ¬c → Answers y ofFalse) :
    Answers (if c then x else y) (if c then ofTrue else ofFalse) := by
  by_cases h : c
  · rw [if_pos h, if_pos h]
    exact hx h
  · rw [if_neg h, if_neg h]
    exact hy h

theorem adapt (refuse : ε → ε') (hx : Answers x result) :
    Answers (x.adapt refuse) (result.mapError refuse) := by
  show Option.map (Except.mapError refuse) x.run = _
  rw [hx]
  rfl

end Answers

/-! ### Operations -/

/-- Bytes that are there are cut. -/
theorem cut_of_le {count : Nat} {bs : Bytes} (h : count ≤ bs.length) :
    cut count bs = some (bs.take count, bs.drop count) := if_pos h

/-- A value of fixed length is cut into its two parts. -/
theorem cut_octets {m n : Nat} (o : Octets (m + n)) :
    cut m o.bytes = some (o.left.bytes, o.right.bytes) := by
  apply cut_of_le
  rw [o.length_eq]
  exact Nat.le_add_right m n

/-- A derivation of a few keys is never refused. -/
theorem deriveBytes_of_le {salt material info : Bytes} {length : Nat} (h : length ≤ Hkdf.maxLength) :
    (S.deriveBytes salt material info length).toOption =
      some (S.derive salt material info length).bytes := by
  rw [Suite.deriveBytes, if_pos h]
  rfl

/-- A root step derives as many bytes as it cuts. -/
theorem rootStep_eq (S : Suite) (salt material info : Bytes) :
    rootStep S salt material info = some (.ofOctets (S.derive salt material info (32 + 32))) := by
  have hfits : 32 + 32 ≤ Hkdf.maxLength := by decide
  simp only [rootStep, deriveBytes_of_le hfits, Option.bind_eq_bind, Option.bind_some, cut_octets,
    Octets.ofBytes?_bytes]
  rfl

/-- Message keys are cut from as many bytes as they need. -/
theorem messageKeys_eq (S : Suite) (key : Key) : messageKeys S key = some (.ofKey S key) := by
  have hfits : 32 + (32 + 16) ≤ Hkdf.maxLength := by decide
  simp only [messageKeys, deriveBytes_of_le hfits, Option.bind_eq_bind, Option.bind_some, cut_octets,
    Octets.ofBytes?_bytes]
  rfl

/-- A hash is long enough to cut an authenticator from. -/
theorem verifies_eq (keys : MessageKeys) (body mac : Bytes) :
    verifies S keys body mac = some (keys.verifies S body mac) := by
  rw [verifies, cut_octets (m := 8) (n := 24)]
  rfl

/-! ### Messages -/

theorem readBytes_of_le {part : Wire.Part} {count : Nat} {bs : Bytes} (h : count ≤ bs.length) :
    Answers (readBytes part count bs) (.ok (bs.take count, bs.drop count)) := by
  rw [readBytes, if_neg (Nat.not_lt.mpr h)]
  exact .present (cut_of_le h)

/-- Too few are refused, before anything is cut. -/
theorem readBytes_of_lt {part : Wire.Part} {count : Nat} {bs : Bytes} (h : bs.length < count) :
    Answers (readBytes part count bs) (.error (.truncated part count bs.length)) := by
  rw [readBytes, if_pos h]
  exact .throw _

theorem readByte_nil (part : Wire.Part) :
    Answers (readByte part []) (.error (.truncated part 1 0)) :=
  (readBytes_of_lt Nat.one_pos).bind_error

theorem readByte_cons (part : Wire.Part) (b : UInt8) (rest : Bytes) :
    Answers (readByte part (b :: rest)) (.ok (b, rest)) := by
  have hlength : 1 ≤ (b :: rest).length := Nat.succ_pos _
  exact (readBytes_of_le hlength).bind_ok ((Answers.present rfl).bind_ok (.pure _))

/-- Reading the version asks for nothing that is not there. -/
theorem readVersion_answers (bs : Bytes) : Answers (readVersion bs) (Wire.readVersion bs) := by
  cases bs with
  | nil => exact (readByte_nil .version).bind_error
  | cons version rest =>
    apply (readByte_cons .version version rest).bind_ok
    exact .ite (fun _ => .pure _) fun _ => .throw _

/-- Reading a tag asks for nothing that is not there. -/
theorem readTag_answers (part : Wire.Part) (expected : UInt8) (bs : Bytes) :
    Answers (readTag part expected bs) (Wire.readTag part expected bs) := by
  cases bs with
  | nil => exact (readByte_nil part).bind_error
  | cons actual rest =>
    apply (readByte_cons part actual rest).bind_ok
    exact .ite (fun _ => .pure _) fun _ => .throw _

/-- A word was read of four bytes, so it can be made of them. -/
theorem readWord_answers (part : Wire.Part) (bs : Bytes) :
    Answers (readWord part bs) (Wire.readWord part bs) := by
  unfold Wire.readWord
  split
  next b₀ b₁ b₂ b₃ rest =>
    have hlength : 4 ≤ (b₀ :: b₁ :: b₂ :: b₃ :: rest).length := Nat.le_add_left 4 rest.length
    exact (readBytes_of_le hlength).bind_ok ((Answers.present rfl).bind_ok (.pure _))
  next hshort =>
    apply Answers.bind_error
    apply readBytes_of_lt
    rw [← Nat.not_le]
    intro hlength
    match bs, hlength with
    | b₀ :: b₁ :: b₂ :: b₃ :: rest, _ => exact hshort b₀ b₁ b₂ b₃ rest rfl

/-- The length of a string is measured before it is cut. -/
theorem readString_answers (part : Wire.Part) (bs : Bytes) :
    Answers (readString part bs) (Wire.readString part bs) := by
  apply (readWord_answers part bs).bind
  rintro ⟨length, rest⟩ -
  apply Answers.ite
  · intro _
    exact .throw _
  · intro _
    by_cases hshort : rest.length < length.toNat
    · rw [if_pos hshort]
      exact readBytes_of_lt hshort
    · rw [if_neg hshort]
      exact readBytes_of_le (Nat.le_of_not_lt hshort)

/-- A message is read by these parts alone. -/
theorem decode_answers (bs : Bytes) : Answers (decode bs) (Wire.RatchetMessage.decode bs) := by
  apply (readVersion_answers bs).bind
  rintro ⟨version, bs⟩ -
  apply (readTag_answers _ _ bs).bind
  intro bs _
  apply (readString_answers _ bs).bind
  rintro ⟨ratchetKey, bs⟩ -
  apply (readTag_answers _ _ bs).bind
  intro bs _
  apply (readWord_answers _ bs).bind
  rintro ⟨chainIndex, bs⟩ -
  apply (readTag_answers _ _ bs).bind
  intro bs _
  apply (readString_answers _ bs).bind
  rintro ⟨ciphertext, bs⟩ -
  apply (Answers.total (Wire.readEnd bs)).bind
  intro _ _
  exact .pure _

/-- A payload that is too short for an authenticator is refused before it is cut. -/
theorem splitMac_answers (payload : Bytes) :
    Answers (splitMac payload) (Wire.splitMac payload) := by
  unfold splitMac Wire.splitMac
  dsimp only
  by_cases hshort : payload.length < Wire.macLength
  · have hnone : Octets.ofBytes? 8 (payload.drop (payload.length - Wire.macLength)) = none := by
      rw [Octets.ofBytes?, dif_neg]
      rw [List.length_drop]
      simp only [Wire.macLength] at hshort ⊢
      omega
    rw [if_pos hshort, hnone]
    exact .throw _
  · have hlength : (payload.drop (payload.length - Wire.macLength)).length = 8 := by
      rw [List.length_drop]
      simp only [Wire.macLength] at hshort ⊢
      omega
    have hmac : Octets.ofBytes? 8 (payload.drop (payload.length - Wire.macLength)) =
        some ⟨_, hlength⟩ := dif_pos hlength
    rw [if_neg hshort, hmac]
    apply (Answers.present (cut_of_le (Nat.sub_le _ _))).bind_ok
    exact (Answers.present hmac).bind_ok (.pure _)

/-! ### Sessions -/

/-- Every kept key is tried, and the first one that opens the message has its place. -/
theorem openSkipped_answers (S : Suite) (s : Session) (body mac ciphertext : Bytes) :
    Answers (openSkipped S s body mac ciphertext) (s.openSkipped S body mac ciphertext) := by
  have htried : (s.skipped.mapM fun k => do verifies S (← messageKeys S k.key) body mac) =
      some (s.skipped.map (·.opens S body mac)) := by
    simp only [messageKeys_eq, Option.bind_eq_bind, Option.bind_some, verifies_eq]
    exact List.mapM_pure
  apply (Answers.present htried).bind_ok
  rw [List.findIdx?_map, Function.id_comp, Session.openSkipped]
  cases hfind : s.skipped.findIdx? (·.opens S body mac) with
  | none => exact .pure _
  | some i =>
    obtain ⟨hi, -⟩ := List.findIdx?_eq_some_iff_getElem.mp hfind
    have hk : s.skipped[i]? = some s.skipped[i] := List.getElem?_eq_getElem hi
    dsimp only
    rw [hk]
    apply (Answers.present rfl).bind_ok
    apply (Answers.present (messageKeys_eq S _)).bind_ok
    apply (Answers.total (Session.openWith S _ ciphertext)).bind
    intro plaintext _
    exact .pure _

/-- The key of a peer that was agreed with has its length. -/
theorem exists_parse_of_agree {pair : KeyPair} {their : Bytes} {shared : Key}
    (h : pair.agree S their = .ok shared) : ∃ key, Key.parse .publicHalf their = .ok key := by
  unfold KeyPair.agree at h
  split at h
  next =>
    obtain ⟨key, hkey, -⟩ := bind_eq_ok.mp h
    exact ⟨key, hkey⟩
  next => exact nomatch h

/-- A ratchet key that was agreed with has the length of a key. -/
theorem receiveStep_answers (S : Suite) (s : Session) (theirRatchet : Bytes) :
    Answers (receiveStep S s theirRatchet) (s.receiveStep S theirRatchet) := by
  unfold receiveStep Session.receiveStep
  cases s.ratchet with
  | none => exact .throw _
  | some ratchet =>
    apply (Answers.total _).bind
    intro shared hshared
    obtain ⟨their, htheir⟩ := exists_parse_of_agree (mapError_eq_ok.mp hshared)
    have hbytes := Key.parse_eq_ok.mp htheir
    rw [htheir, hbytes]
    apply (Answers.present (rootStep_eq S _ _ _)).bind_ok
    exact (Answers.present (Octets.ofBytes?_bytes their)).bind_ok (.pure _)

/-- A step is taken or not, and each is answered. -/
theorem reached_answers (S : Suite) (s : Session) (theirRatchet : Bytes) (isHandshake : Bool) :
    Answers (reached S s theirRatchet isHandshake) (s.reached S theirRatchet isHandshake) := by
  apply Answers.ite
  · intro _
    exact receiveStep_answers S s theirRatchet
  · intro _
    exact .pure s

/-- The difference of two words is that of their numbers. -/
theorem difference_of_le {a b : UInt32} (h : ¬ a < b) :
    ∃ gap, difference a b = some gap ∧ gap.toNat = a.toNat - b.toNat := by
  have hle : b ≤ a := UInt32.not_lt.mp h
  exact ⟨a - b, if_pos hle, UInt32.toNat_sub_of_le a b hle⟩

/-- A word that is not the last one has a successor. -/
theorem successor_of_ne {a : UInt32} (h : a ≠ 0xffffffff) : successor a = some (a + 1) := by
  rw [successor, if_pos]
  exact UInt32.lt_iff_toNat_lt.mpr (Word.toNat_lt_of_ne h)

/-- Behind its guards, no difference and no successor is asked for that there is none of. -/
theorem openOnChain_answers (S : Suite) (config : Config) (now : UInt64) (s : Session)
    (body mac : Bytes) (m : Wire.RatchetMessage) :
    Answers (openOnChain S config now s body mac m) (s.openOnChain S config now body mac m) := by
  unfold openOnChain Session.openOnChain
  cases s.receiveChain with
  | none => exact .throw _
  | some chain =>
    apply Answers.ite
    · intro _
      exact .throw _
    · intro hahead
      obtain ⟨gap, hgap, hsteps⟩ := difference_of_le hahead
      apply (Answers.present hgap).bind_ok
      rw [← hsteps]
      apply Answers.ite
      · intro _
        exact .throw _
      · intro _
        apply (Answers.present (messageKeys_eq S _)).bind_ok
        apply (Answers.present (verifies_eq _ body mac)).bind_ok
        apply Answers.ite
        · intro _
          apply (Answers.total _).bind
          intro plaintext _
          rw [Session.nextIndex]
          by_cases hlast : m.chainIndex = 0xffffffff
          · rw [if_pos hlast, if_pos hlast]
            exact .throw _
          · rw [if_neg hlast, if_neg hlast]
            exact (Answers.present (successor_of_ne hlast)).bind_ok (.pure _)
        · intro _
          exact .throw _

/-- Reading has an answer with partial operations too, and it is the same. -/
theorem openMessage_answers (S : Suite) (config : Config) (now : UInt64) (s : Session)
    (payload : Bytes) (isHandshake : Bool) :
    Answers (openMessage S config now s payload isHandshake)
      (s.openMessage S config now payload isHandshake) := by
  rw [Session.openMessage_eq]
  apply ((splitMac_answers payload).adapt SessionError.wire).bind
  rintro ⟨body, mac⟩ -
  apply ((decode_answers body).adapt SessionError.wire).bind
  intro m _
  apply (openSkipped_answers S (s.prune config now) body mac.bytes m.ciphertext).bind
  intro opened _
  cases opened with
  | some opened => exact .pure opened
  | none =>
    apply (reached_answers S (s.prune config now) m.ratchetKey isHandshake).bind
    intro mid _
    apply (openOnChain_answers S config now mid body mac.bytes m).bind
    rintro ⟨plaintext, after⟩ -
    exact .pure _

end EndToEnd.Partial
