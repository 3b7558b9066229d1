import EndToEnd.Session.State

/-!
# Log texts without secrets

The texts by which key pairs and sessions may appear in a log. Of a private half they say that it is
there, of a session they give the public ratchet keys, the positions and the counts; no root, chain
or message key is in them.
-/

namespace EndToEnd

namespace Description

/-- A record's text: its name and its fields, and a mark if it has more. -/
def record (name : String) (fields : List (String × String)) (more : Bool) : String :=
  let shown := fields.map fun (field, value) => field ++ ": " ++ value
  name ++ " \x7b " ++ ", ".intercalate (shown ++ if more then [".."] else []) ++ " \x7d"

/-- The text of bytes: a list of numbers. -/
def bytes (bs : Bytes) : String :=
  "[" ++ ", ".intercalate (bs.map fun b => toString b.toNat) ++ "]"

/-- The text of a value that may be missing. -/
def option (value : Option String) : String :=
  match value with
  | some text => "Some(" ++ text ++ ")"
  | none => "None"

/-- The text in the place of a secret. -/
def secret : String := "\"<redacted>\""

end Description

open Description

/-- The log text of a key pair. -/
def KeyPair.description (p : KeyPair) : String :=
  record "KeyPair" [("public_key", bytes p.publicKey.bytes),
    ("private_key", option (p.privateKey.map fun _ => secret))] false

/-- The log text of a skipped key. -/
def SkippedKey.description (k : SkippedKey) : String :=
  record "SkippedMessageKey" [("timestamp", toString k.timestamp.toNat), ("key", secret)] false

/-- The log text of a session. -/
def Session.description (s : Session) : String :=
  record "RatchetState" [("sender", toString s.isInitiator),
    ("established", toString s.isEstablished),
    ("my_ratchet_key", option (s.ratchetPublic.map (bytes ·.bytes))),
    ("their_ratchet_key", option (s.theirRatchet.map (bytes ·.bytes))),
    ("send_chain_index", toString s.sendIndex.toNat),
    ("recv_chain_index", toString s.receiveIndex.toNat),
    ("ratchet_pending", toString s.stepPending),
    ("skipped_keys", toString s.skipped.length)] true

end EndToEnd
