import EndToEnd.Bytes

/-!
# SHA-256

The hash of byte strings. A message is padded to whole blocks of 64 bytes, and each
block is folded into eight words by 64 rounds. The schedule of a block is kept newest word first,
so a new word reads its four ancestors at fixed places.
-/

namespace EndToEnd.Sha256

/-- The eight chaining words. -/
structure State where
  a : UInt32
  b : UInt32
  c : UInt32
  d : UInt32
  e : UInt32
  f : UInt32
  g : UInt32
  h : UInt32

/-- The fractional parts of the square roots of the first eight primes. -/
def State.initial : State where
  a := 0x6a09e667
  b := 0xbb67ae85
  c := 0x3c6ef372
  d := 0xa54ff53a
  e := 0x510e527f
  f := 0x9b05688c
  g := 0x1f83d9ab
  h := 0x5be0cd19

/-- The fractional parts of the cube roots of the first sixty-four primes, one a round. -/
def roundConstants : List UInt32 := [
  0x428a2f98, 0x71374491, 0xb5c0fbcf, 0xe9b5dba5, 0x3956c25b, 0x59f111f1, 0x923f82a4, 0xab1c5ed5,
  0xd807aa98, 0x12835b01, 0x243185be, 0x550c7dc3, 0x72be5d74, 0x80deb1fe, 0x9bdc06a7, 0xc19bf174,
  0xe49b69c1, 0xefbe4786, 0x0fc19dc6, 0x240ca1cc, 0x2de92c6f, 0x4a7484aa, 0x5cb0a9dc, 0x76f988da,
  0x983e5152, 0xa831c66d, 0xb00327c8, 0xbf597fc7, 0xc6e00bf3, 0xd5a79147, 0x06ca6351, 0x14292967,
  0x27b70a85, 0x2e1b2138, 0x4d2c6dfc, 0x53380d13, 0x650a7354, 0x766a0abb, 0x81c2c92e, 0x92722c85,
  0xa2bfe8a1, 0xa81a664b, 0xc24b8b70, 0xc76c51a3, 0xd192e819, 0xd6990624, 0xf40e3585, 0x106aa070,
  0x19a4c116, 0x1e376c08, 0x2748774c, 0x34b0bcb5, 0x391c0cb3, 0x4ed8aa4a, 0x5b9cca4f, 0x682e6ff3,
  0x748f82ee, 0x78a5636f, 0x84c87814, 0x8cc70208, 0x90befffa, 0xa4506ceb, 0xbef9a3f7, 0xc67178f2]

/-- Rotation to the right, by less than 32 places. -/
@[inline] def rotateRight (x n : UInt32) : UInt32 :=
  (x >>> n) ||| (x <<< (32 - n))

/-- The word of four bytes, most significant first. -/
@[inline] def word (b₀ b₁ b₂ b₃ : UInt8) : UInt32 :=
  (b₀.toUInt32 <<< 24) ||| (b₁.toUInt32 <<< 16) ||| (b₂.toUInt32 <<< 8) ||| b₃.toUInt32

/-- The four bytes of a word, most significant first. -/
def wordBytes (w : UInt32) : Bytes :=
  [(w >>> 24).toUInt8, (w >>> 16).toUInt8, (w >>> 8).toUInt8, w.toUInt8]

/-- The words of a block, newest first, on top of those already read. -/
def readWords : Bytes → List UInt32 → List UInt32
  | b₀ :: b₁ :: b₂ :: b₃ :: rest, words => readWords rest (word b₀ b₁ b₂ b₃ :: words)
  | _, words => words

/-- One more word of the schedule, from the ones two, seven, fifteen and sixteen places back. -/
@[inline] def scheduleWord (back2 back7 back15 back16 : UInt32) : UInt32 :=
  let s₀ := rotateRight back15 7 ^^^ rotateRight back15 18 ^^^ (back15 >>> 3)
  let s₁ := rotateRight back2 17 ^^^ rotateRight back2 19 ^^^ (back2 >>> 10)
  back16 + s₀ + back7 + s₁

/-- The schedule extended by `n` words, newest first throughout. -/
def extendSchedule : (n : Nat) → List UInt32 → List UInt32
  | 0, words => words
  | n + 1, words =>
    match words with
    | _ :: w2 :: _ :: _ :: _ :: _ :: w7 :: _ :: _ :: _ :: _ :: _ :: _ :: _ :: w15 :: w16 :: _ =>
      extendSchedule n (scheduleWord w2 w7 w15 w16 :: words)
    | _ => words

/-- The sixty-four words that a block feeds into the rounds, oldest first. -/
def schedule (block : Bytes) : List UInt32 :=
  (extendSchedule 48 (readWords block [])).reverse

/-- One round, on the sum of its constant and its schedule word. -/
@[inline] def State.round (s : State) (k w : UInt32) : State :=
  let s₁ := rotateRight s.e 6 ^^^ rotateRight s.e 11 ^^^ rotateRight s.e 25
  let choice := (s.e &&& s.f) ^^^ (~~~s.e &&& s.g)
  let t₁ := s.h + s₁ + choice + k + w
  let s₀ := rotateRight s.a 2 ^^^ rotateRight s.a 13 ^^^ rotateRight s.a 22
  let majority := (s.a &&& s.b) ^^^ (s.a &&& s.c) ^^^ (s.b &&& s.c)
  ⟨t₁ + (s₀ + majority), s.a, s.b, s.c, s.d + t₁, s.e, s.f, s.g⟩

/-- The rounds, one a constant and a word. -/
def State.rounds : List UInt32 → List UInt32 → State → State
  | k :: ks, w :: ws, s => rounds ks ws (s.round k w)
  | _, _, s => s

/-- The chaining words after one more block. -/
def State.compress (s : State) (block : Bytes) : State :=
  let t := State.rounds roundConstants (schedule block) s
  ⟨s.a + t.a, s.b + t.b, s.c + t.c, s.d + t.d, s.e + t.e, s.f + t.f, s.g + t.g, s.h + t.h⟩

/-- The chaining words after `n` more blocks. -/
def State.absorb : (n : Nat) → State → Bytes → State
  | 0, s, _ => s
  | n + 1, s, bs => absorb n (s.compress (bs.take 64)) (bs.drop 64)

/-- A message with its closing bit, the zeros that complete a block, and its length in bits. -/
def pad (message : Bytes) : Bytes :=
  message ++ 0x80 :: List.replicate ((119 - message.length % 64) % 64) 0 ++
    Bytes.bigEndian 8 (8 * message.length)

/-- The eight words written out. -/
def State.bytes (s : State) : Bytes :=
  wordBytes s.a ++ wordBytes s.b ++ wordBytes s.c ++ wordBytes s.d ++
    wordBytes s.e ++ wordBytes s.f ++ wordBytes s.g ++ wordBytes s.h

/-- The hash of a message. -/
def hash (message : Bytes) : Octets 32 :=
  let padded := pad message
  ⟨(State.absorb (padded.length / 64) State.initial padded).bytes, rfl⟩

end EndToEnd.Sha256
