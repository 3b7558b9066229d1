import EndToEnd.KeyPair

/-!
# Time and randomness

An environment is a clock and a source of random bytes, passed from operation to operation as a
value. The source first gives out the bytes it was handed, then the words of a stream; a draw takes
whole words from the stream, so the unused end of its last word is lost. Drawing cannot fail, and an
operation that fails later has still drawn.
-/

namespace EndToEnd

/-- A clock, and the random bytes still to come. -/
structure Environment where
  /-- Seconds since the epoch. -/
  clock : UInt64
  /-- Bytes given out before the stream is asked. -/
  handed : Bytes
  /-- The key of the stream. -/
  key : ChaCha20.StreamKey
  /-- The next word of the stream. -/
  position : Nat
deriving DecidableEq

namespace Environment

/-- Where a simulated clock starts. -/
def epoch : UInt64 := 1700000000

/-- A simulated environment: a clock at the epoch, and the stream of a seed. -/
def ofSeed (seed : UInt64) (handed : Bytes := []) : Environment :=
  ⟨epoch, handed, .ofSeed seed, 0⟩

/-- The clock moved on, modulo `2⁶⁴`. -/
def advance (env : Environment) (seconds : UInt64) : Environment :=
  { env with clock := env.clock + seconds }

/-- How many words of the stream hold `n` bytes. -/
def wordsFor (n : Nat) : Nat := (n + 3) / 4

/-- The next `n` bytes of the stream. -/
def streamBytes (env : Environment) (n : Nat) : Bytes :=
  ((List.range' env.position (wordsFor n)).flatMap env.key.wordBytes).take n

/-- The random stream gives as many bytes as are asked for. -/
theorem length_streamBytes (env : Environment) (n : Nat) : (env.streamBytes n).length = n := by
  have hwords (ps : List Nat) : (ps.flatMap env.key.wordBytes).length = 4 * ps.length := by
    induction ps with
    | nil => rfl
    | cons p ps ih =>
      simp only [List.flatMap_cons, List.length_append, ih, ChaCha20.StreamKey.wordBytes,
        Bytes.length_littleEndian, List.length_cons]
      omega
  simp only [streamBytes, wordsFor, List.length_take, hwords, List.length_range']
  omega

/-- `n` random bytes. -/
def draw (n : Nat) (env : Environment) : Octets n × Environment :=
  let first := env.handed.take n
  let missing := n - first.length
  (⟨first ++ env.streamBytes missing, by
      simp only [List.length_append, length_streamBytes, missing, first, List.length_take]
      omega⟩,
    { env with handed := env.handed.drop n, position := env.position + wordsFor missing })

/-- A random number below `2⁶⁴`. -/
def drawNat64 (env : Environment) : Nat × Environment :=
  let (bytes, env) := env.draw 8
  (Bytes.natBE bytes.bytes, env)

/-- A random number below `2¹²⁸`. -/
def drawNat128 (env : Environment) : Nat × Environment :=
  let (bytes, env) := env.draw 16
  (Bytes.natBE bytes.bytes, env)

/-- A random position below `count`. -/
def drawIndex (count : Nat) (env : Environment) : Nat × Environment :=
  let (n, env) := env.drawNat64
  (n % count, env)

/-- A fresh key pair. -/
def drawKeyPair (S : Suite) (env : Environment) : KeyPair × Environment :=
  let (secret, env) := env.draw 32
  (.ofPrivate S secret, env)

end Environment

end EndToEnd
