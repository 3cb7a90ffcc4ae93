/-!
# Errors

The error type of the crate (`error.rs`). The texts its `Display` prints are used by no modelled function and are left out.
-/

namespace NetHelper

/-- What an operation reports when it does not succeed. An I/O error of the system is its number. -/
inductive Error where
  | io (errno : Int)
  | wouldBlock
  | bindFail (message : List Char)
  | invalidRingIndex (index : Nat)
  | packetTooLarge (len : Nat)
  | insufficientSpace
  | unsupportedPlatform (message : List Char)
  | fallbackUnsupported (message : List Char)
  deriving DecidableEq, Repr

end NetHelper
