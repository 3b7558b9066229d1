import EndToEnd.Bundle
import EndToEnd.Session.State

/-!
# Stores

A store keeps what a device must not forget: its own bundle, the devices of its peers, the bundles
they have published, and the sessions with them. A store is a value that answers requests, and each
request says by its type what the answer is. A record that is not there is no refusal.
-/

namespace EndToEnd

namespace Store

/-- Why a store did not answer. -/
inductive Error
  /-- The device has no bundle of its own. -/
  | noBundle
  /-- A stored form could not be read. -/
  | malformed
  /-- The call was made to fail. -/
  | injected
deriving DecidableEq

/-- The text of a refusal. -/
def Error.message : Error → String
  | .noBundle => "not found: current device bundle"
  | .malformed => "serialization error"
  | .injected => "I/O error: chaotic failure injection"

/-- What is asked of a store, by the type of the answer. -/
inductive Request : Type → Type
  /-- Our own bundle. -/
  | current : Request (Option Bundle)
  /-- Replaces our own bundle. -/
  | saveCurrent (bundle : Bundle) : Request Unit
  /-- The known devices of a peer, in the order in which they became known. -/
  | devices (peer : String) : Request (List DeviceId)
  /-- Adds a device of a peer, if it is not known yet. -/
  | saveDevice (peer : String) (device : DeviceId) : Request Unit
  /-- The bundle of a peer's device. -/
  | bundle (device : DeviceId) : Request (Option Bundle)
  /-- Replaces the bundle of a peer's device. -/
  | saveBundle (device : DeviceId) (bundle : Bundle) : Request Unit
  /-- The session with a peer's device. -/
  | session (device : DeviceId) : Request (Option Session)
  /-- Replaces the session with a peer's device. -/
  | saveSession (device : DeviceId) (session : Session) : Request Unit

end Store

/-- A store: a request is answered or refused, and leaves a store behind. -/
class Store (σ : Type) where
  call {α : Type} : Store.Request α → σ → Except Store.Error α × σ

/-- The identifier of our device, from our own bundle. -/
def Store.currentDevice {σ : Type} [Store σ] (s : σ) :
    Except Store.Error (Option DeviceId) × σ :=
  let (answer, s) := Store.call .current s
  (answer.map (·.map (·.device)), s)

/-- A store of either of two kinds. -/
instance {σ τ : Type} [Store σ] [Store τ] : Store (σ ⊕ τ) where
  call request
    | .inl s => let (answer, s) := Store.call request s; (answer, .inl s)
    | .inr s => let (answer, s) := Store.call request s; (answer, .inr s)

end EndToEnd
