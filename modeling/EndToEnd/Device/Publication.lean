import EndToEnd.Device.Action

/-!
# What devices publish and learn

A device publishes its identifier and its bundle, and notes those of its peers. Its bundle is fresh
when the device starts for the first time; it is handed out for publication once after every start
and after every change.
-/

namespace EndToEnd.Device

variable {σ : Type} [Store σ]

/-- The device of a store. It gets a fresh bundle if the store holds none. -/
def start (S : Suite) (config : Config) : Action σ Device := do
  let id ← match ← ask .current with
    | some bundle => pure bundle.device
    | none => do
      let bundle ← draw (Bundle.generate S config.oneTimeKeys)
      ask (.saveCurrent bundle)
      pure bundle.device
  setUnpublished true
  return ⟨id, config⟩

/-- The device list of a peer that has this device only. -/
def deviceList (d : Device) (peer : String) : Wire.DeviceList := ⟨peer, [d.id]⟩

/-- Our bundle as it is published. -/
def publishedBundle : Action σ Wire.PublishedBundle := do
  return (← currentBundle).publish

/-- Our bundle as it is published, if it is still to be. It stays so if the bundle cannot be read.
-/
def takeUnpublished : Action σ (Option Wire.PublishedBundle) := do
  if (← get).unpublished then
    let published ← publishedBundle
    setUnpublished false
    return some published
  else return none

/-- A device of a peer noted, unless it is this one. -/
def learnDevice (d : Device) (peer : String) (device : DeviceId) : Action σ Unit :=
  if device = d.id then pure () else ask (.saveDevice peer device)

/-- The devices that a peer advertises noted, one after the other. -/
def learnDevices (d : Device) (list : Wire.DeviceList) : Action σ Unit :=
  list.devices.forM (d.learnDevice list.peer)

/-- A published bundle noted, unless it is this device's; whether it was. -/
def learnBundle (d : Device) (published : Wire.PublishedBundle) : Action σ Bool := do
  if published.device = d.id then return false
  else
    let bundle ← attempt .invalidBundle (Bundle.ofPublished published)
    ask (.saveBundle bundle.device bundle)
    return true

end EndToEnd.Device
