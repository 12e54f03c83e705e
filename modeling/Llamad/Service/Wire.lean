import Llamad.Chat.Format
import Llamad.Engine.Embed

/-!
# The wire messages

The messages of `llamad.proto` a generation reads and writes, and their conversion to
the engine's and the chat layer's types. The wall-clock fields of `GenerateStats` are
left out here as they are there.
-/

namespace Llamad

open Logical

namespace V1

/-- An unset field takes the daemon's default. -/
structure SamplingParams where
  temperature : Option Rat := none
  topK : Option Int := none
  topP : Option Rat := none
  minP : Option Rat := none
  seed : Option UInt32 := none
  maxTokens : Option Int := none
  stop : List Bytes := []

/-- A raw completion. -/
structure GenerateRequest where
  prompt : Bytes
  sampling : SamplingParams := {}

/-- A tool the model may call. -/
structure Tool where
  name : Bytes
  description : Bytes
  parametersJsonSchema : Bytes

/-- A call on the wire. -/
structure ToolCall where
  id : Bytes
  name : Bytes
  argumentsJson : Bytes
deriving DecidableEq

/-- A history turn on the wire. -/
structure ChatMessage where
  role : Bytes
  content : Bytes
  toolCalls : List ToolCall := []
  toolCallId : Bytes := []

/-- A whole conversation to be continued. -/
structure ChatRequest where
  messages : List ChatMessage
  sampling : SamplingParams := {}
  tools : List Tool := []
  responseJsonSchema : Bytes := []

/-- Inputs to be embedded, each on its own. -/
structure EmbedRequest where
  inputs : List Bytes

/-- Why a stream finished. -/
inductive FinishReason where
  | unspecified | eog | length | stop | cancelled | toolCalls
deriving DecidableEq, Repr

/-- Token counts of one generation. -/
structure GenerateStats where
  promptTokens : Nat := 0
  completionTokens : Nat := 0
  cachedPromptTokens : Nat := 0
deriving DecidableEq

/-- How a generation ended. -/
structure Finish where
  reason : FinishReason
  stats : GenerateStats
  toolCalls : List ToolCall
deriving DecidableEq

/-- One message of a Generate or Chat stream. -/
inductive GenerateChunk where
  | text (text : Bytes)
  | finish (finish : Finish)
deriving DecidableEq

/-- The vectors of one Embed request. -/
structure EmbedResponse (Value : Type) where
  embeddings : List (List Value) := []
  inputTokens : Nat := 0

end V1

namespace Wire

/-- The wire spelling of an engine finish reason. -/
def finishReason : FinishReason → V1.FinishReason
  | .eog => .eog
  | .length => .length
  | .stop => .stop
  | .cancelled => .cancelled

/-- Token counts of one generation. -/
def stats (stats : GenerateStats) : V1.GenerateStats where
  promptTokens := stats.promptTokens
  completionTokens := stats.completionTokens
  cachedPromptTokens := stats.cachedPromptTokens

/-- One parsed tool call. -/
def toolCall (call : ToolCall) : V1.ToolCall where
  id := call.id
  name := call.name
  argumentsJson := call.argumentsJson

/-- Engine sampling parameters, with the engine's defaults where a field is unset. -/
def samplingFromProto (params : V1.SamplingParams) : SamplingParams :=
  let default : SamplingParams := {}
  { temperature := params.temperature.getD default.temperature
    topK := params.topK.getD default.topK
    topP := params.topP.getD default.topP
    minP := params.minP.getD default.minP
    seed := params.seed.or default.seed
    maxTokens := params.maxTokens.getD default.maxTokens
    stop := params.stop }

/-- One tool call replayed from history. -/
def toolCallFromProto (call : V1.ToolCall) : ToolCall where
  id := call.id
  name := call.name
  argumentsJson := call.argumentsJson

/-- One history turn. -/
def chatMessageFromProto (message : V1.ChatMessage) : ChatMessage where
  role := message.role
  content := message.content
  toolCallId := message.toolCallId
  toolCalls := message.toolCalls.map toolCallFromProto

/-- One tool offered for a request. -/
def toolFromProto (tool : V1.Tool) : Tool where
  name := tool.name
  description := tool.description
  parametersJsonSchema := tool.parametersJsonSchema

/-- The vectors of one Embed request. -/
def embedResponse {Value : Type} (result : EmbedResult Value) : V1.EmbedResponse Value where
  embeddings := result.embeddings
  inputTokens := result.inputTokens

/-- The last chunk of a stream. Calls are kept only when the generation ran to its end. -/
def finishChunk (reason : FinishReason) (counts : GenerateStats) (toolCalls : List ToolCall) :
    V1.GenerateChunk :=
  let toolCalls := if reason = .eog ∨ reason = .stop then toolCalls else []
  .finish {
    reason := if toolCalls.isEmpty then finishReason reason else .toolCalls
    stats := stats counts
    toolCalls := toolCalls.map toolCall }

end Wire

namespace V1

/-- A finish carries calls exactly when its reason says so. -/
def Finish.Consistent (finish : Finish) : Prop :=
  finish.toolCalls ≠ [] ↔ finish.reason = .toolCalls

end V1

namespace Wire

variable (reason : FinishReason) (counts : GenerateStats) (toolCalls : List ToolCall)

theorem finishReason_ne_toolCalls : finishReason reason ≠ .toolCalls := by
  cases reason <;> exact nofun

/-- Every finish that is written: calls exactly with `toolCalls` as the reason, and that
only after an end of generation or a stop string. -/
theorem finishChunk_consistent :
    ∃ finish, finishChunk reason counts toolCalls = .finish finish ∧ finish.Consistent ∧
      (finish.reason = .toolCalls → toolCalls ≠ [] ∧ (reason = .eog ∨ reason = .stop)) := by
  refine ⟨_, rfl, ?_⟩
  have other := finishReason_ne_toolCalls reason
  by_cases completed : reason = .eog ∨ reason = .stop
  · cases toolCalls with
    | nil => simp [V1.Finish.Consistent, completed, other]
    | cons call toolCalls => simp [V1.Finish.Consistent, completed]
  · simp [V1.Finish.Consistent, completed, other]

end Wire

end Llamad
