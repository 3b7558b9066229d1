import EndToEnd.Config
import EndToEnd.Device.Error

/-!
# Devices and their actions

A device is its identifier and its limits, which never change. What its actions change is its store,
its environment, and whether its bundle is still to be published. An action that is refused half-way
keeps what it has done until then: the calls it made, and the randomness it drew.
-/

namespace EndToEnd

/-- A device. -/
structure Device where
  id : DeviceId
  config : Config
deriving DecidableEq

namespace Device

/-- What the actions of a device change. -/
structure State (σ : Type) where
  store : σ
  env : Environment
  /-- The bundle changed since it was last handed out for publication. -/
  unpublished : Bool
deriving DecidableEq

/-- An action of a device: an answer or a refusal, and the state after it. -/
abbrev Action (σ : Type) := ExceptT DeviceError (StateM (State σ))

variable {σ α ε : Type}

/-- The answer of the store. -/
def ask [Store σ] (request : Store.Request α) : Action σ α := fun s =>
  let (answer, store) := Store.call request s.store
  (answer.mapError .store, { s with store })

/-- Something drawn from the environment, which may be refused after the draw. -/
def tryDraw (refuse : ε → DeviceError) (draw : Environment → Except ε α × Environment) :
    Action σ α := fun s =>
  let (drawn, env) := draw s.env
  (drawn.mapError refuse, { s with env })

/-- Something drawn from the environment. -/
def draw (draw : Environment → α × Environment) : Action σ α := fun s =>
  let (drawn, env) := draw s.env
  (.ok drawn, { s with env })

/-- A result, or its refusal as one of the device. -/
def attempt (refuse : ε → DeviceError) (result : Except ε α) : Action σ α := fun s =>
  (result.mapError refuse, s)

/-- The time. -/
def now : Action σ UInt64 := fun s => (.ok s.env.clock, s)

/-- Notes whether the bundle is still to be published. -/
def setUnpublished (unpublished : Bool) : Action σ Unit := fun s => (.ok (), { s with unpublished })

/-- Our own bundle, which has to be there. -/
def currentBundle [Store σ] : Action σ Bundle := do
  match ← ask .current with
  | some bundle => return bundle
  | none => throw (.store .noBundle)

end Device

end EndToEnd
