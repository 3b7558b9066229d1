import EndToEnd.Store.Request
import EndToEnd.Store.Table

/-!
# The store in memory

The records as they are. Every request is answered.
-/

namespace EndToEnd

/-- The records of a device. -/
structure Memory where
  current : Option Bundle := none
  devices : Table String (List DeviceId) := {}
  bundles : Table DeviceId Bundle := {}
  sessions : Table DeviceId Session := {}
deriving DecidableEq

namespace Memory

/-- The known devices of a peer. -/
def devicesOf (m : Memory) (peer : String) : List DeviceId := (m.devices.get? peer).getD []

/-- A device behind the known ones, if it is not one of them. -/
def addDevice (known : List DeviceId) (device : DeviceId) : List DeviceId :=
  if device ∈ known then known else known ++ [device]

/-- A device that is known already is not added again. -/
theorem nodup_addDevice {known : List DeviceId} {device : DeviceId} (h : known.Nodup) :
    (addDevice known device).Nodup := by
  unfold addDevice
  split
  next => exact h
  next hnew =>
    refine List.nodup_append.mpr ⟨h, List.pairwise_singleton _ device, fun a ha b hb heq => hnew ?_⟩
    exact List.mem_singleton.mp hb ▸ heq ▸ ha

open Store in
/-- The answer to a request, and the records after it. -/
def answer {α : Type} : Request α → Memory → α × Memory
  | .current, m => (m.current, m)
  | .saveCurrent bundle, m => ((), { m with current := some bundle })
  | .devices peer, m => (m.devicesOf peer, m)
  | .saveDevice peer device, m =>
    ((), { m with devices := m.devices.put peer (addDevice (m.devicesOf peer) device) })
  | .bundle device, m => (m.bundles.get? device, m)
  | .saveBundle device bundle, m => ((), { m with bundles := m.bundles.put device bundle })
  | .session device, m => (m.sessions.get? device, m)
  | .saveSession device session, m => ((), { m with sessions := m.sessions.put device session })

end Memory

instance : Store Memory where
  call request m :=
    let (value, m) := m.answer request
    (.ok value, m)

end EndToEnd
