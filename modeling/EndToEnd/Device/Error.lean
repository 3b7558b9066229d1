import EndToEnd.Session.Error
import EndToEnd.Store.Request

/-!
# Refusals of a device

One constructor per layer that refused, and one for each thing that a device itself misses.
-/

namespace EndToEnd

/-- What an envelope needs and the device does not have. -/
inductive Missing
  /-- The envelope has no entry for the device. -/
  | entry
  /-- There is no session with the sender. -/
  | session
  /-- The one-time key is not, or no longer, in the bundle, and there is no session to go on with.
  -/
  | oneTimeKey
deriving DecidableEq

/-- The text of what is missing. -/
def Missing.message : Missing → String
  | .entry => "envelope carries no key for this device"
  | .session => "no session with sender"
  | .oneTimeKey => "unknown one-time pre-key"

/-- Why a device refused. -/
inductive DeviceError
  | noMatchingSession (sender : DeviceId) (missing : Missing)
  | session (cause : SessionError)
  | store (cause : Store.Error)
  | wire (cause : Wire.Error)
  /-- A published bundle has a malformed key. -/
  | invalidBundle (cause : CryptoError)
  /-- The body does not decrypt under the key that the envelope carries. -/
  | payload (cause : CryptoError)
  /-- The decrypted body is no text. -/
  | invalidBody
deriving DecidableEq

namespace DeviceError

/-- The text of a refusal. -/
def message : DeviceError → String
  | .noMatchingSession sender missing =>
    s!"no matching session for device {sender.text}: {missing.message}"
  | .session cause => cause.message
  | .store cause => cause.message
  | .wire cause => cause.message
  | .invalidBundle cause => s!"invalid bundle: {cause.message}"
  | .payload cause => s!"payload decryption failed: {cause.message}"
  | .invalidBody => "decrypted body is not UTF-8"

/-- Whether the device, and not one message, is at fault. -/
def isFatal : DeviceError → Bool
  | .session cause => cause.isFatal
  | .store _ => true
  | _ => false

end DeviceError

end EndToEnd
