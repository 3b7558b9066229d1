import EndToEnd.DeviceId

/-!
# Refusals of the wire formats

One constructor per way in which bytes can leave a format, or a value can be too large for it.
-/

namespace EndToEnd.Wire

/-- The fields of messages, and the documents, that a refusal can name. -/
inductive Part
  | version
  | ratchetKey
  | chainIndex
  | ciphertext
  | oneTimeKey
  | baseKey
  | identityKey
  | message
  | envelope
  | bundle
  | deviceList
deriving DecidableEq

/-- What a part is called. -/
def Part.name : Part → String
  | .version => "version"
  | .ratchetKey => "ratchet key"
  | .chainIndex => "chain index"
  | .ciphertext => "ciphertext"
  | .oneTimeKey => "one-time key"
  | .baseKey => "base key"
  | .identityKey => "identity key"
  | .message => "message"
  | .envelope => "envelope"
  | .bundle => "bundle"
  | .deviceList => "device list"

/-- Why bytes are no message or document, or a message has no bytes. -/
inductive Error
  | unexpectedTag (part : Part) (expected actual : UInt8)
  | unsupportedVersion (version : UInt8)
  | truncated (part : Part) (needed available : Nat)
  | tooLarge (part : Part) (size limit : Nat)
  | trailingBytes (count : Nat)
  | missingMac (length : Nat)
  | malformedDocument
deriving DecidableEq

/-- The text of a refusal. A malformed document is not described further. -/
def Error.message : Error → String
  | .unexpectedTag part expected actual =>
    s!"unexpected tag for {part.name}: expected {Hex.byteText expected}, got {Hex.byteText actual}"
  | .unsupportedVersion version => s!"unsupported protocol version: {Hex.byteText version}"
  | .truncated part needed available =>
    s!"truncated {part.name}: need {needed} bytes, have {available}"
  | .tooLarge part size limit => s!"{part.name} too large: {size} bytes (max {limit})"
  | .trailingBytes count => s!"{count} trailing bytes after message"
  | .missingMac length => s!"payload of {length} bytes cannot carry a MAC"
  | .malformedDocument => "malformed document"

end EndToEnd.Wire
