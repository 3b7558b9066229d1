import EndToEnd.Cbor.Head

/-!
# Reading CBOR leniently

Readers of the values that a document is made of. They accept any width of a head, tags before a
value, numbers written as bytes, and strings in pieces. A reader answers with the value and the
bytes after it, or with nothing.

Two bounds come with every document. `Budget.depth` is how many arrays and maps may still be opened
inside each other. `Budget.steps` bounds every loop that no announced length bounds; each turn of
such a loop consumes a byte, so the size of the document is enough for all of them.
-/

namespace EndToEnd.Cbor

/-- What a reader may still spend. -/
structure Budget where
  depth : Nat
  steps : Nat

/-- The budget of a document: 256 levels. -/
def Budget.ofDocument (document : Bytes) : Budget := ⟨256, document.length⟩

/-- The budget inside an array or a map, if it may be opened. -/
def Budget.descend (budget : Budget) : Option Budget :=
  match budget.depth with
  | 0 => none
  | depth + 1 => some { budget with depth }

/-- The first head that is not a tag. -/
def readPastTags : (steps : Nat) → Bytes → Option (Head × Bytes)
  | steps, bs =>
    match Head.read bs with
    | some (.tag _, rest) =>
      match steps with
      | 0 => none
      | steps + 1 => readPastTags steps rest
    | result => result

/-- The two kinds of string. -/
inductive StringKind
  | bytes
  | text
deriving DecidableEq

/-- The length that a head announces for a string of a kind. -/
def StringKind.length? : StringKind → Head → Option (Option Nat)
  | .bytes, .bytes length => some length
  | .text, .text length => some length
  | _, _ => none

/-- Whether the bytes can be a piece of a string of a kind: every piece of a text is a text. -/
def StringKind.admits : StringKind → Bytes → Bool
  | .bytes, _ => true
  | .text, piece => (Bytes.toText? piece).isSome

/-- One piece of a string. -/
def readPiece (kind : StringKind) (length : Nat) (bs : Bytes) : Option (Bytes × Bytes) := do
  let (piece, rest) ← splitBytes length bs
  if kind.admits piece then some (piece, rest) else none

/-- The pieces of an open string up to the break that closes it, behind those read, newest first.
Open strings may be inside each other: `level` of them are open around the outermost. -/
def readPieces (kind : StringKind) :
    (steps level : Nat) → (done : List Bytes) → Bytes → Option (Bytes × Bytes)
  | 0, _, _, _ => none
  | steps + 1, level, done, bs => do
    let (head, rest) ← Head.read bs
    if head = .stop then
      match level with
      | 0 => some (done.reverse.flatten, rest)
      | level + 1 => readPieces kind steps level done rest
    else
      match ← kind.length? head with
      | none => readPieces kind steps (level + 1) done rest
      | some length =>
        let (piece, rest) ← readPiece kind length rest
        readPieces kind steps level (piece :: done) rest

/-- The content of a string of which the head announced the length. -/
def readString (kind : StringKind) (budget : Budget) (length : Option Nat) (bs : Bytes) :
    Option (Bytes × Bytes) :=
  match length with
  | some length => readPiece kind length bs
  | none => readPieces kind budget.steps 0 [] bs

/-- The number that bytes spell, if at most sixteen of them are significant. -/
def bigNumber (bs : Bytes) : Option Nat :=
  let significant := bs.dropWhile (· = 0)
  if significant.length ≤ 16 then some (Bytes.natBE significant) else none

/-- A nonnegative number: plain, or as bytes behind the tag for it. Other tags are skipped. -/
def readNat (budget : Budget) : (steps : Nat) → Bytes → Option (Nat × Bytes)
  | steps, bs =>
    match Head.read bs with
    | some (.unsigned n, rest) => some (n, rest)
    | some (.tag t, rest) =>
      if t = tagBig then do
        let (.bytes length, rest) ← Head.read rest | none
        let (content, rest) ← readString .bytes budget length rest
        let n ← bigNumber content
        return (n, rest)
      else if t = tagBigNegative then none
      else
        match steps with
        | 0 => none
        | steps + 1 => readNat budget steps rest
    | _ => none

/-- A truth value. -/
def readBool (budget : Budget) (bs : Bytes) : Option (Bool × Bytes) :=
  match readPastTags budget.steps bs with
  | some (.simple n, rest) =>
    if n = simpleFalse then some (false, rest)
    else if n = simpleTrue then some (true, rest)
    else none
  | _ => none

/-- A text. -/
def readText (budget : Budget) (bs : Bytes) : Option (String × Bytes) := do
  let (.text length, rest) ← readPastTags budget.steps bs | none
  let (content, rest) ← readString .text budget length rest
  let text ← Bytes.toText? content
  return (text, rest)

/-- The longest key of a map that is read. -/
def maxKeyLength : Nat := 4096

/-- A key of a map: a text or a byte string, of announced length. -/
def readKey (budget : Budget) (bs : Bytes) : Option (Bytes × Bytes) := do
  let (head, rest) ← readPastTags budget.steps bs
  match head with
  | .text (some length) => if length ≤ maxKeyLength then readPiece .text length rest else none
  | .bytes (some length) => if length ≤ maxKeyLength then readPiece .bytes length rest else none
  | _ => none

/-- Whether the next byte is a break, and what follows it. -/
def readStop? : Bytes → Option Bytes
  | 0xff :: rest => some rest
  | _ => none

/-- The values of an array, behind those already read, newest first. An announced number of them is
read in full; otherwise they end at a break, and `count` only bounds them. -/
def readItems {α : Type} (read : Bytes → Option (α × Bytes)) (unbounded : Bool) :
    (count : Nat) → (done : List α) → Bytes → Option (List α × Bytes)
  | 0, done, bs => if unbounded then none else some (done.reverse, bs)
  | count + 1, done, bs =>
    match unbounded, readStop? bs with
    | true, some rest => some (done.reverse, rest)
    | _, _ => do
      let (item, rest) ← read bs
      readItems read unbounded count (item :: done) rest

/-- The first `count` values of an array, behind those already read, newest first. What the array
still holds is left where it is. -/
def readFirst {α : Type} (read : Bytes → Option (α × Bytes)) (unbounded : Bool) :
    (count : Nat) → (done : List α) → Bytes → Option (List α × Bytes)
  | 0, done, bs => some (done.reverse, bs)
  | count + 1, done, bs =>
    match unbounded, readStop? bs with
    | true, some _ => none
    | _, _ => do
      let (item, rest) ← read bs
      readFirst read unbounded count (item :: done) rest

end EndToEnd.Cbor
