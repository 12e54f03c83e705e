import Llamad.Logical.Utf8
import Llamad.Semantics.Program
import Mathlib.Data.Rat.Defs

/-!
# The engine's contract

The types `engine.h` gives its callers, and the exceptions that reach them. An
exception keeps which statement threw it, since that decides its C++ type and its
text. Wall-clock figures of `GenerateStats` are left out: nothing is decided by
them.
-/

namespace Llamad

open Logical Semantics

/-- The bytes of a literal. -/
def literal (characters : String) : Bytes := characters.toUTF8.data.toList

/-- A token id of the loaded vocabulary. -/
abbrev Token := Nat

/-- Grammar constraint for the sampler, as plain strings. -/
structure GrammarSpec where
  grammar : Bytes := []
  lazy : Bool := false
  triggerPatterns : List Bytes := []
  triggerWords : List Bytes := []
  prefill : Bytes := []
deriving DecidableEq

/-- Sampling parameters with the daemon's defaults, 0.8f, 0.95f and 0.05f read as the
numbers they are. A `float` that is no number is left out. -/
structure SamplingParams where
  temperature : Rat := 13421773 / 2 ^ 24
  topK : Int := 40
  topP : Rat := 15938355 / 2 ^ 24
  minP : Rat := 13421773 / 2 ^ 28
  seed : Option UInt32 := none
  maxTokens : Int := -1
  stop : List Bytes := []
  grammar : GrammarSpec := {}
  preservedTokens : List Bytes := []

/-- Reason a generation terminates. -/
inductive FinishReason where
  | eog | length | stop | cancelled
deriving DecidableEq, Repr

/-- Token counts of one generation. -/
structure GenerateStats where
  promptTokens : Nat := 0
  completionTokens : Nat := 0
  cachedPromptTokens : Nat := 0
deriving DecidableEq, Repr

/-- Generation outcome; the text went through the callback. -/
structure GenerateResult where
  reason : FinishReason
  stats : GenerateStats
deriving DecidableEq, Repr

/-- The statements that throw `EngineError` while a request is served. -/
inductive EngineError where
  | embeddingModel
  | notEmbeddingModel
  | tokenizationOverflow
  | tokenizationFailed
  | pieceFailed
  | emptyPrompt
  | promptTooLong (tokens capacity : Nat)
  | samplerChain
  | grammarUnparsable
  | prefillRejected (what : Bytes)
  | noTokenSelected
  | promptDecode (code : Int)
  | generationDecode (code : Int)
  | emptyInput (index : Nat)
  | inputTooLong (index tokens limit : Nat)
deriving DecidableEq

/-- The text `what()` carries. -/
def EngineError.what : EngineError → Bytes
  | .embeddingModel => literal "the model is an embedding model: it cannot generate text"
  | .notEmbeddingModel =>
      literal "the model is not an embedding model: its GGUF declares no pooling type"
  | .tokenizationOverflow => literal "tokenization overflowed int32"
  | .tokenizationFailed => literal "failed to tokenize the input text"
  | .pieceFailed => literal "failed to convert a token to text"
  | .emptyPrompt => literal "the prompt tokenized to zero tokens"
  | .promptTooLong tokens capacity =>
      literal ("prompt is too long: " ++ toString tokens ++ " tokens for a context of " ++
        toString capacity)
  | .samplerChain => literal "failed to create the sampler chain"
  | .grammarUnparsable => literal "failed to parse the grammar"
  | .prefillRejected what =>
      literal "the grammar does not accept the prompt's final text: " ++ what
  | .noTokenSelected => literal "the sampler chain selected no token"
  | .promptDecode code =>
      literal ("llama_decode failed on the prompt (code " ++ toString code ++ ")")
  | .generationDecode code =>
      literal ("llama_decode failed while generating (code " ++ toString code ++ ")")
  | .emptyInput index => literal ("input " ++ toString index ++ " tokenized to zero tokens")
  | .inputTooLong index tokens limit =>
      literal ("input " ++ toString index ++ " is too long: " ++ toString tokens ++
        " tokens, and one input may have at most " ++ toString limit)

/-- The statements of the chat layer that throw `ChatFormatError` while a request is
served. -/
inductive ChatFormatError where
  | toolSchemaNotJson (tool : Bytes)
  | toolsWithSchema
  | schemaNotJson
  | schemaNotObject
  | schemaEmpty
  | renderFailed (what : Bytes)
  | parserNotLoaded (what : Bytes)
  | noParserState
deriving DecidableEq

/-- The text `what()` carries. -/
def ChatFormatError.what : ChatFormatError → Bytes
  | .toolSchemaNotJson tool =>
      literal "tool '" ++ tool ++ literal "': parameters_json_schema is not valid JSON"
  | .toolsWithSchema => literal "tools and response_json_schema cannot be used together"
  | .schemaNotJson => literal "response_json_schema is not valid JSON"
  | .schemaNotObject => literal "response_json_schema is not a JSON object"
  | .schemaEmpty =>
      literal "response_json_schema is an empty object, which constrains nothing"
  | .renderFailed what => literal "failed to render the chat template: " ++ what
  | .parserNotLoaded what => literal "failed to load the chat parser: " ++ what
  | .noParserState =>
      literal "RenderedChat has no parser state (not produced by ChatFormat::render)"

/-- The statements of `Engine::embed` that throw a plain `std::runtime_error`. -/
inductive RuntimeError where
  | embeddingDecode (code : Int)
  | noPooledEmbedding
deriving DecidableEq

/-- The text `what()` carries. -/
def RuntimeError.what : RuntimeError → Bytes
  | .embeddingDecode code =>
      literal ("llama_decode failed on an embedding input (code " ++ toString code ++ ")")
  | .noPooledEmbedding => literal "the model produced no pooled embedding"

/-- What code outside the repository throws: a `std::exception` or anything else. -/
inductive Foreign where
  | standard (what : Bytes)
  | other
deriving DecidableEq

/-- An exception in flight. -/
inductive Exception where
  | engine (error : EngineError)
  | chatFormat (error : ChatFormatError)
  | runtime (error : RuntimeError)
  | foreign (error : Foreign)
deriving DecidableEq

/-- Receives each piece of generated text, in order; `false` cancels. `none` is the
empty `std::function`. -/
abbrev ChunkCallback (Client : Type) := Option (Bytes → Program Client Exception Bool)

/-- One call of the chunk callback and its answer; `none` is a throw. -/
structure Delivery where
  text : Bytes
  answer : Option Bool
deriving DecidableEq

/-- The callback's own state, and a record of how it was called. -/
structure Receiver (Client : Type) where
  client : Client
  deliveries : List Delivery := []

/-- The chunks a receiver was handed, in order. -/
def Receiver.chunks {Client : Type} (receiver : Receiver Client) : List Bytes :=
  receiver.deliveries.map Delivery.text

end Llamad
