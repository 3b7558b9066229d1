import EndToEnd.Device.Decryption
import EndToEnd.Device.Encryption

/-!
# Chat messages

A message passes the device on its way in and on its way out. On its way out a body is replaced by
an envelope; on its way in an envelope is replaced by the body. A message that has nothing to
replace is not for the device, and a refusal leaves the message as it was.
-/

namespace EndToEnd

/-- A message with a body, in plain or encrypted. -/
structure ChatMessage where
  sender : String
  recipients : List String
  body : Option String
  encrypted : Option Wire.Envelope
deriving DecidableEq

namespace Device

variable {σ : Type} [Store σ]

/-- A message from a peer with its body, if it has an envelope. -/
def receiveChat (S : Suite) (d : Device) (m : ChatMessage) : Action σ (Option ChatMessage) := do
  match m.encrypted with
  | none => return none
  | some envelope =>
    let plaintext ← d.decrypt S envelope
    match Bytes.toText? plaintext with
    | some body => return some { m with body := some body, encrypted := none }
    | none => throw .invalidBody

/-- A message to peers in an envelope, if it has a body and no envelope. -/
def sendChat (S : Suite) (d : Device) (m : ChatMessage) : Action σ (Option ChatMessage) := do
  match m.encrypted, m.body with
  | none, some body =>
    let envelope ← d.encrypt S m.recipients (Bytes.ofText body)
    return some { m with body := none, encrypted := some envelope }
  | _, _ => return none

end Device

end EndToEnd
