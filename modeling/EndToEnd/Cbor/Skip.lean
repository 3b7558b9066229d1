import EndToEnd.Cbor.Read

/-!
# Passing over a CBOR item

The value of an unknown key may be any well formed item. It is passed over by a loop over heads with
the containers that are open, innermost first. A tag other than a number written as bytes opens a
container of one item. Each turn reads one head, so the loop needs no more turns than bytes.
-/

namespace EndToEnd.Cbor

/-- A container that is being passed over. -/
inductive Frame
  /-- So many items are still to come. -/
  | counted (items : Nat)
  /-- Items up to a break. -/
  | openArray
  /-- Keys and values in turn up to a break, which cannot follow a key. -/
  | openMap (afterKey : Bool)
deriving DecidableEq

/-- The open containers after an item is complete, and the levels left. An announced container ends
with its last item, and is then itself a complete item. -/
def complete : List Frame → (depth : Nat) → List Frame × Nat
  | [], depth => ([], depth)
  | .counted items :: frames, depth =>
    match items with
    | 0 | 1 => complete frames (depth + 1)
    | items + 2 => (.counted (items + 1) :: frames, depth)
  | .openArray :: frames, depth => (.openArray :: frames, depth)
  | .openMap afterKey :: frames, depth => (.openMap (!afterKey) :: frames, depth)

/-- The frames that a break leaves open, if it may stand here. -/
def closeFrame : List Frame → Option (List Frame)
  | .openArray :: frames => some frames
  | .openMap false :: frames => some frames
  | _ => none

/-- The frame that a container opens, or nothing if it is empty and so complete already. -/
def Head.frame? : Head → Option Frame
  | .array (some items) => if items = 0 then none else some (.counted items)
  | .array none => some .openArray
  | .map (some pairs) => if pairs = 0 then none else some (.counted (2 * pairs))
  | .map none => some (.openMap false)
  | .tag _ => some (.counted 1)
  | _ => none

/-- The rest after a number written as bytes, if one of at most sixteen bytes stands here. A
negative one is at least `-2¹²⁷`. -/
def skipBigNumber (tag : Nat) (bs : Bytes) : Option (Option Bytes) :=
  if tag = tagBig ∨ tag = tagBigNegative then
    match Head.read bs with
    | some (.bytes (some length), rest) =>
      if length ≤ 16 then
        match splitBytes length rest with
        | some (content, rest) =>
          if tag = tagBig ∨ Bytes.natBE content < Nat.pow 2 127 then some (some rest) else some none
        | none => some none
      else none
    | some _ => none
    | none => some none
  else none

/-- Whether a simple value is one of those that have a meaning. -/
def knownSimple (n : Nat) : Bool :=
  n = simpleFalse || n = simpleTrue || n = simpleNull || n = simpleUndefined

/-- What is left to pass over: the open containers, the levels left, and the bytes. -/
structure Pending where
  frames : List Frame
  depth : Nat
  rest : Bytes

/-- What is left after an item that ends where `rest` begins. -/
def Pending.finish (frames : List Frame) (depth : Nat) (rest : Bytes) : Pending :=
  let (frames, depth) := complete frames depth
  ⟨frames, depth, rest⟩

/-- What is left after the head of a container. -/
def Pending.enter (frames : List Frame) (depth : Nat) (head : Head) (rest : Bytes) :
    Option Pending :=
  match depth, head.frame? with
  | 0, _ => none
  | depth + 1, some frame => some ⟨frame :: frames, depth, rest⟩
  | depth + 1, none => some (.finish frames (depth + 1) rest)

/-- What is left after one more head and the content of a string that it announces. -/
def Pending.step (steps : Nat) (p : Pending) : Option Pending := do
  let (head, rest) ← Head.read p.rest
  match head with
  | .unsigned _ | .negative _ | .float => some (.finish p.frames p.depth rest)
  | .simple n => if knownSimple n then some (.finish p.frames p.depth rest) else none
  | .bytes length =>
    let (_, rest) ← readString .bytes ⟨p.depth, steps⟩ length rest
    some (.finish p.frames p.depth rest)
  | .text length =>
    let (_, rest) ← readString .text ⟨p.depth, steps⟩ length rest
    some (.finish p.frames p.depth rest)
  | .stop =>
    let frames ← closeFrame p.frames
    some (.finish frames (p.depth + 1) rest)
  | .array _ | .map _ => Pending.enter p.frames p.depth head rest
  | .tag t =>
    match skipBigNumber t rest with
    | some rest => return .finish p.frames p.depth (← rest)
    | none => Pending.enter p.frames p.depth head rest

/-- What follows the items that are still pending. -/
def Pending.skip : (steps : Nat) → Pending → Option Bytes
  | 0, _ => none
  | steps + 1, p =>
    match p.step steps with
    | none => none
    | some p => if p.frames.isEmpty then some p.rest else skip steps p

/-- What follows one item. -/
def skipItem (budget : Budget) (bs : Bytes) : Option Bytes :=
  Pending.skip budget.steps ⟨[], budget.depth, bs⟩

end EndToEnd.Cbor
