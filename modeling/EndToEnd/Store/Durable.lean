import EndToEnd.Store.Form
import EndToEnd.Store.Memory

/-!
# The durable store

The records in their stored forms, in tables from bytes to bytes: what survives when a device is
shut down and started again. A write that fails leaves every table as it was.
-/

namespace EndToEnd

/-- The tables of a device. -/
structure Durable where
  identity : Table Bytes Bytes := {}
  devices : Table Bytes Bytes := {}
  bundles : Table Bytes Bytes := {}
  sessions : Table Bytes Bytes := {}
deriving DecidableEq

namespace Durable

/-- The key of our own bundle. -/
def currentKey : Bytes := Bytes.ofText "current"

/-- The key of a peer. -/
def peerKey (peer : String) : Bytes := Bytes.ofText peer

/-- The key of a device. -/
def deviceKey (device : DeviceId) : Bytes := device.bytes.bytes

/-- The value of a key, read from its stored form. -/
def read {α : Type} (c : Cbor.Codec α) (t : Table Bytes Bytes) (key : Bytes) :
    Except Store.Error (Option α) :=
  match t.get? key with
  | none => .ok none
  | some form =>
    match readStored c form with
    | some value => .ok (some value)
    | none => .error .malformed

/-- The known devices of a peer. -/
def devicesOf (d : Durable) (peer : String) : Except Store.Error (List DeviceId) :=
  (read deviceListCodec d.devices (peerKey peer)).map (·.getD [])

/-- The tables with one more device of a peer, if it is not known yet. -/
def saveDevice (d : Durable) (peer : String) (device : DeviceId) : Except Store.Error Durable := do
  let known ← d.devicesOf peer
  if device ∈ known then return d
  else
    return { d with
      devices := d.devices.put (peerKey peer) (deviceListCodec.write (known ++ [device])) }

open Store in
/-- The answer to a request, and the tables after it. -/
def answer {α : Type} : Request α → Durable → Except Error α × Durable
  | .current, d => (read Bundle.codec d.identity currentKey, d)
  | .saveCurrent bundle, d =>
    (.ok (), { d with identity := d.identity.put currentKey bundle.encode })
  | .devices peer, d => (d.devicesOf peer, d)
  | .saveDevice peer device, d =>
    match d.saveDevice peer device with
    | .ok after => (.ok (), after)
    | .error cause => (.error cause, d)
  | .bundle device, d => (read Bundle.codec d.bundles (deviceKey device), d)
  | .saveBundle device bundle, d =>
    (.ok (), { d with bundles := d.bundles.put (deviceKey device) bundle.encode })
  | .session device, d => (read Session.codec d.sessions (deviceKey device), d)
  | .saveSession device session, d =>
    (.ok (), { d with sessions := d.sessions.put (deviceKey device) session.encode })

end Durable

instance : Store Durable where
  call request d := d.answer request

end EndToEnd
