import EndToEnd.Bytes

/-!
# The ChaCha20 word stream

The stream cipher's key stream as a function from positions to words: a key, a 64-bit block counter
and no nonce. The state is kept as four rows, so a quarter round acts on its four columns at once,
and a diagonal round is a column round between two turns of the rows.
-/

namespace EndToEnd.ChaCha20

/-- Four words side by side. -/
structure Row where
  w₀ : UInt32
  w₁ : UInt32
  w₂ : UInt32
  w₃ : UInt32
deriving DecidableEq

namespace Row

/-- Word by word sum. -/
@[inline] def add (r s : Row) : Row :=
  ⟨r.w₀ + s.w₀, r.w₁ + s.w₁, r.w₂ + s.w₂, r.w₃ + s.w₃⟩

/-- Word by word exclusive or, then a rotation to the left by `n` places. -/
@[inline] def xorRotate (r s : Row) (n : UInt32) : Row :=
  let turn (x : UInt32) : UInt32 := (x <<< n) ||| (x >>> (32 - n))
  ⟨turn (r.w₀ ^^^ s.w₀), turn (r.w₁ ^^^ s.w₁), turn (r.w₂ ^^^ s.w₂), turn (r.w₃ ^^^ s.w₃)⟩

/-- The words moved one place to the left. -/
@[inline] def turn (r : Row) : Row := ⟨r.w₁, r.w₂, r.w₃, r.w₀⟩

/-- The words from left to right. -/
def toList (r : Row) : List UInt32 := [r.w₀, r.w₁, r.w₂, r.w₃]

end Row

/-- The sixteen words of a block, in four rows. -/
structure State where
  a : Row
  b : Row
  c : Row
  d : Row

namespace State

/-- The quarter round, on every column. -/
@[inline] def columnRound (s : State) : State :=
  let a := s.a.add s.b
  let d := s.d.xorRotate a 16
  let c := s.c.add d
  let b := s.b.xorRotate c 12
  let a := a.add b
  let d := d.xorRotate a 8
  let c := c.add d
  let b := b.xorRotate c 7
  ⟨a, b, c, d⟩

/-- A round on the columns, then one on the diagonals. -/
def doubleRound (s : State) : State :=
  let s := s.columnRound
  let s := columnRound ⟨s.a, s.b.turn, s.c.turn.turn, s.d.turn.turn.turn⟩
  ⟨s.a, s.b.turn.turn.turn, s.c.turn.turn, s.d.turn⟩

/-- Twenty rounds. -/
def rounds (s : State) : State :=
  (List.range 10).foldl (fun s _ => s.doubleRound) s

/-- Row by row sum. -/
def add (s t : State) : State := ⟨s.a.add t.a, s.b.add t.b, s.c.add t.c, s.d.add t.d⟩

/-- The words in order. -/
def toList (s : State) : List UInt32 :=
  s.a.toList ++ s.b.toList ++ s.c.toList ++ s.d.toList

end State

/-- The eight words of a key. -/
structure StreamKey where
  low : Row
  high : Row
deriving DecidableEq

/-- The state that a block starts from: "expand 32-byte k", the key, and the block's number. -/
def StreamKey.start (key : StreamKey) (block : UInt64) : State :=
  ⟨⟨0x61707865, 0x3320646e, 0x79622d32, 0x6b206574⟩, key.low, key.high,
    ⟨block.toUInt32, (block >>> 32).toUInt32, 0, 0⟩⟩

/-- The sixteen words of a block. -/
def StreamKey.block (key : StreamKey) (block : UInt64) : List UInt32 :=
  let start := key.start block
  (start.rounds.add start).toList

/-- The word at a position of the stream. -/
def StreamKey.word (key : StreamKey) (position : Nat) : UInt32 :=
  (key.block (position / 16).toUInt64).getD (position % 16) 0

/-- The bytes of the word at a position of the stream. -/
def StreamKey.wordBytes (key : StreamKey) (position : Nat) : Bytes :=
  Bytes.littleEndian 4 (key.word position).toNat

/-- The next state of the generator that a small seed is stretched with. -/
@[inline] def stretchStep (s : UInt64) : UInt64 :=
  s * 6364136223846793005 + 11634580027462260723

/-- The word that a state of that generator stands for. -/
@[inline] def stretchWord (s : UInt64) : UInt32 :=
  let x : UInt32 := (((s >>> 18) ^^^ s) >>> 27).toUInt32
  let n : UInt32 := (s >>> 59).toUInt32
  (x >>> n) ||| (x <<< ((32 - n) % 32))

/-- Four words of that generator, and the state after them. -/
def stretchRow (s : UInt64) : Row × UInt64 :=
  let s₀ := stretchStep s
  let s₁ := stretchStep s₀
  let s₂ := stretchStep s₁
  let s₃ := stretchStep s₂
  (⟨stretchWord s₀, stretchWord s₁, stretchWord s₂, stretchWord s₃⟩, s₃)

/-- The key that a 64-bit seed is stretched to. -/
def StreamKey.ofSeed (seed : UInt64) : StreamKey :=
  let (low, s) := stretchRow seed
  ⟨low, (stretchRow s).1⟩

end EndToEnd.ChaCha20
