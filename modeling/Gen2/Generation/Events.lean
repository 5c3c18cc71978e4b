import Gen2.Types.Text

/-!
# What a generation puts out

The events of `generation/events.rs`, which a backend's stream consists of.
-/

namespace Gen2
namespace Generation

/-- `generation::ToolCall`: a call as the model made it, its arguments as JSON text. -/
structure ToolCall where
  id : Option Text
  name : Text
  arguments : Text
  deriving DecidableEq

structure Token where
  id : UInt32
  text : Text
  logprob : Option F32

structure SpeechChunk where
  sampleRate : UInt32
  samples : List F32

inductive MediaBoundary
  | beginImage (idx : Nat)
  | endImage (idx : Nat)
  | beginAudio (idx : Nat)
  | endAudio (idx : Nat)

inductive TokenEvent
  | speech (chunk : SpeechChunk)
  | token (token : Token)
  | special (name : String)
  | mediaBoundary (boundary : MediaBoundary)
  | toolCall (call : ToolCall)
  | paused
  | stopped
  | eos

end Generation
end Gen2
