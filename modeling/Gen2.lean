import Gen2.Chat.Return
import Gen2.Generation.Segments
import Gen2.Backend.CutOff
import Gen2.Backend.Reasoning
import Gen2.Session.Revision
import Gen2.Session.Trimming
import Gen2.Backend.Llama.Keepwarm
import Gen2.Backend.Llama.FailedAppend
import Gen2.Controller.Sessions
import Gen2.Api.Streamed
import Gen2.Api.Tools
import Gen2.Api.HfDownload
import Gen2.Decision.Answers
import Gen2.Agent.Approval
import Gen2.Api.AsyncTurn
import Gen2.Backend.Attribution
import Gen2.Diarization.Kept
import Gen2.Runtime.Charged
import Gen2.Mcp.Client
import Gen2.Backend.Mlx.PrefixCache
import Gen2.Backend.Mlxcel.Stream
import Gen2.Backend.Mlx.Speculative
import Gen2.Backend.Mlx.Loops
import Gen2.Backend.Constrained
import Gen2.Backend.TaggedCalls
import Gen2.Backend.Panics
import Gen2.Backend.Llama.Drafting
import Gen2.Journal.Unanswered
import Gen2.Journal.Heartbeats
import Gen2.Bundle.GgufHeader
import Gen2.Kv.Store
import Gen2.Decision.Masks
import Gen2.Decision.Order
import Gen2.Executor.Harmless
import Gen2.Runtime.Inspection
import Gen2.Chat.Dispatch
import Gen2.Backend.ExternalApi.Pullers
import Gen2.Backend.ExternalApi.Messages
import Gen2.Backend.ExternalApi.Engine
import Gen2.Backend.MistralRs.Puller
import Gen2.Backend.LiteRtLm.Chunks
import Gen2.Backend.StreamedText
import Gen2.Backend.LiteRtLm.Session
import Gen2.Backend.Llama.Packed
import Gen2.Router
import Gen2.MemoryPolicy
import Gen2.Journal.Notes
import Gen2.Agent.Steering
import Gen2.Backend.Ngram
import Gen2.Decision.Batches
