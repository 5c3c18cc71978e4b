import Mathlib.Init

/-!
# The engine's errors and settings

What of `engine/error.rs` and `engine/types.rs` the sessions of this development raise and read.
-/

namespace Gen2

/-- `ExecError`. -/
inductive ExecError
  | featureUnsupported (what : String)
  | invalidArg (what : String)
  | settingsError (message : String)
  | kvIncompatible (message : String)
  | kvCorrupt (message : String)
  | contextOverflow (message : String)
  | other (message : String)
  | modelNotLoaded
  | embedderNotLoaded
  | mmprojIncompatible (what : String)
  | invalidModelFile (message : String)
  | unsupportedArchitecture (message : String)
  | io (message : String)
  | templateError (message : String)
  | sessionPoisoned (message : String)
  | outOfMemory (message : String)
  | unimplemented
  | generation (message : String)
  | coded (code message : String)
  deriving DecidableEq

/-- `StoppingSettings`. -/
structure StoppingSettings where
  maxTokens : Option Nat

/-- `SystemSettings`. -/
structure SystemSettings where
  ctxSize : Option UInt32
  batchSize : Option UInt32

/-- `Settings`. -/
structure Settings where
  stopping : StoppingSettings
  system : SystemSettings

end Gen2
