import EndToEnd.CryptoError
import EndToEnd.Wire.Error

/-!
# Refusals of a session

A refused operation leaves the session as it was, so a refusal concerns one message. The fatal ones
say that the session itself cannot go on, or was asked for what it cannot do.
-/

namespace EndToEnd

/-- Why a message that has the right form was not accepted. -/
inductive Rejection
  /-- Its position was accepted, or passed over, before. -/
  | consumed (index next : UInt32)
  /-- Its authenticator is not that of its bytes. -/
  | macMismatch
  /-- It is authentic, but its ciphertext is not whole blocks that end in a padding. -/
  | undecipherable (cause : CryptoError)
  /-- It opens a chain, but no ratchet key of ours was ever sent. -/
  | ratchetTooEarly
deriving DecidableEq

/-- The text of a rejection. -/
def Rejection.message : Rejection → String
  | .consumed index next => s!"chain index {index} already consumed (next is {next})"
  | .macMismatch => "MAC mismatch"
  | .undecipherable cause => cause.message
  | .ratchetTooEarly => "new ratchet key before our first message"

/-- Why an operation of a session was refused. -/
inductive SessionError
  | wire (cause : Wire.Error)
  | crypto (cause : CryptoError)
  | rejected (reason : Rejection)
  /-- A message is too far ahead in its chain. -/
  | tooManySkipped (current requested : UInt32) (limit : Nat)
  /-- There is nothing to send with yet. -/
  | noSendChain
  /-- There is nothing to receive with yet. -/
  | noReceiveChain
  /-- A handshake message was asked of a session that did not start the handshake. -/
  | notInitiator
  /-- A chain is at its last position. -/
  | indexOverflow
deriving DecidableEq

namespace SessionError

/-- The text of a refusal. -/
def message : SessionError → String
  | .wire cause => cause.message
  | .crypto cause => cause.message
  | .rejected reason => s!"decryption failed: {reason.message}"
  | .tooManySkipped current requested limit =>
    s!"too many skipped messages: at index {current}, message at {requested} (max skip {limit})"
  | .noSendChain => "session has no sending chain"
  | .noReceiveChain => "session has no receiving chain"
  | .notInitiator => "session was not initialized as sender"
  | .indexOverflow => "chain index overflow"

/-- Whether the session, and not one message, is at fault. -/
def isFatal : SessionError → Bool
  | .crypto cause => cause.isFatal
  | .noSendChain | .notInitiator | .indexOverflow => true
  | _ => false

end SessionError

end EndToEnd
