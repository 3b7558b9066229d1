/-!
# Configuration

The limits of sessions and bundles. All are plain numbers: none of them is ever added to a word.
-/

namespace EndToEnd

/-- The limits that a device works with. -/
structure Config where
  /-- How many one-time keys a bundle is filled up to. -/
  oneTimeKeys : Nat := 10
  /-- How many positions of a receiving chain one message may pass over. -/
  maxSkip : Nat := 1000
  /-- How many keys of positions passed over are kept. -/
  maxSkippedKeys : Nat := 1000
  /-- How many seconds such a key is kept. -/
  maxAge : Nat := 7 * 24 * 60 * 60
deriving DecidableEq

end EndToEnd
