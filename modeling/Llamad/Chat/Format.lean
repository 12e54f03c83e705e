import Llamad.Engine.Contract

/-!
# The chat format

`ChatFormat` renders a conversation through the model's template and prepares the
parser of the output. `Common` collects what it uses of llama.cpp's chat layer and of
nlohmann::json; nothing is assumed of either here.
-/

namespace Llamad

open Logical Semantics

/-- A tool offered for one request. -/
structure Tool where
  name : Bytes
  description : Bytes
  parametersJsonSchema : Bytes
deriving DecidableEq

/-- One complete function call the model requested. -/
structure ToolCall where
  id : Bytes
  name : Bytes
  argumentsJson : Bytes
deriving DecidableEq

/-- One history turn. -/
structure ChatMessage where
  role : Bytes
  content : Bytes
  toolCalls : List ToolCall := []
  toolCallId : Bytes := []
deriving DecidableEq

/-- A tool call as the chat layer of llama.cpp passes it. -/
structure CommonChatToolCall where
  id : Bytes := []
  name : Bytes
  arguments : Bytes
deriving DecidableEq

/-- A message as the chat layer of llama.cpp passes it. -/
structure CommonChatMsg where
  role : Bytes := []
  content : Bytes := []
  toolCalls : List CommonChatToolCall := []
  toolCallId : Bytes := []
  reasoningContent : Bytes := []
deriving DecidableEq

/-- No content, no calls and no reasoning. -/
def CommonChatMsg.empty (message : CommonChatMsg) : Bool :=
  message.content.isEmpty && message.toolCalls.isEmpty && message.reasoningContent.isEmpty

theorem CommonChatMsg.content_of_empty {message : CommonChatMsg} (empty : message.empty) :
    message.content = [] := by
  simp only [CommonChatMsg.empty, Bool.and_eq_true, List.isEmpty_iff] at empty
  exact empty.1.1

theorem CommonChatMsg.toolCalls_of_empty {message : CommonChatMsg} (empty : message.empty) :
    message.toolCalls = [] := by
  simp only [CommonChatMsg.empty, Bool.and_eq_true, List.isEmpty_iff] at empty
  exact empty.1.2

/-- A tool as the template sees it. -/
structure CommonChatTool where
  name : Bytes
  description : Bytes
  parameters : Bytes
deriving DecidableEq

/-- How a grammar trigger is matched. -/
inductive GrammarTriggerType where
  | token | word | pattern | patternFull
deriving DecidableEq

/-- Text that activates a lazy grammar. -/
structure CommonGrammarTrigger where
  type : GrammarTriggerType
  value : Bytes
deriving DecidableEq

/-- Where thinking text goes. -/
inductive ReasoningFormat where
  | none | auto
deriving DecidableEq

/-- What the template is applied to. -/
structure CommonChatTemplatesInputs where
  useJinja : Bool := true
  addGenerationPrompt : Bool := true
  toolChoiceAuto : Bool := true
  parallelToolCalls : Bool
  reasoningFormat : ReasoningFormat
  enableThinking : Bool
  jsonSchema : Bytes
  messages : List CommonChatMsg
  tools : List CommonChatTool

/-- What a JSON text parses to, as far as it is looked at. -/
inductive JsonShape where
  | object (size : Nat)
  | other
deriving DecidableEq

/-- What applying a template gives. -/
structure CommonChatParams (Format : Type) where
  prompt : Bytes
  grammar : Bytes
  grammarLazy : Bool
  generationPrompt : Bytes
  preservedTokens : List Bytes
  additionalStops : List Bytes
  grammarTriggers : List CommonGrammarTrigger
  format : Format
  parser : Bytes

/-- What the output parser is run with; without a `parser` everything is content. -/
structure CommonChatParserParams (Format Parser : Type) where
  format : Format
  generationPrompt : Bytes
  reasoningFormat : ReasoningFormat
  parseToolCalls : Bool
  parser : Option Parser

/-- llama.cpp's chat layer and nlohmann::json, as the chat format uses them. -/
structure Common where
  Templates : Type
  Format : Type
  Parser : Type
  /-- The random numbers of a thread. -/
  Rng : Type
  /-- `nlohmann::json::accept`. -/
  accept : Bytes → Bool
  /-- `nlohmann::json::parse` without exceptions. -/
  parseJson : Bytes → Option JsonShape
  chatTemplatesApply : Templates → CommonChatTemplatesInputs →
    Except Foreign (CommonChatParams Format)
  loadParser : Bytes → Except Foreign Parser
  chatParse : Bytes → (isPartial : Bool) → CommonChatParserParams Format Parser →
    Except Foreign CommonChatMsg
  /-- `std::uniform_int_distribution` over the characters of an id. -/
  pick : Rng → Fin 62 × Rng
  /-- `common_chat_msg::set_tool_call_ids`: the ids of the calls by index, the ids handed
  out by then, and the generator after them. -/
  setToolCallIds : (generate : Rng → Bytes × Rng) → (callIds : List Bytes) →
    List CommonChatToolCall → Rng → (Nat → Bytes) × List Bytes × Rng

/-- A chat layer around an output parser and a JSON reader, whose template lists the
contents of the conversation. -/
def Common.parsing (accept : Bytes → Bool)
    (parse : Bytes → (isPartial : Bool) → Except Foreign CommonChatMsg) : Common where
  Templates := Unit
  Format := Unit
  Parser := Unit
  Rng := Unit
  accept := accept
  parseJson text := if accept text then some (.object 1) else none
  chatTemplatesApply _ inputs := .ok {
    prompt := inputs.messages.flatMap CommonChatMsg.content
    grammar := []
    grammarLazy := false
    generationPrompt := []
    preservedTokens := []
    additionalStops := []
    grammarTriggers := []
    format := ()
    parser := [] }
  loadParser _ := .ok ()
  chatParse text isPartial _ := parse text isPartial
  pick _ := (0, ())
  setToolCallIds _ callIds _ _ := (fun index => callIds.getD index [], callIds, ())

/-- Translate one history turn. -/
def ChatMessage.toCommon (message : ChatMessage) : CommonChatMsg where
  role := message.role
  content := message.content
  toolCallId := message.toolCallId
  toolCalls := message.toolCalls.map fun call =>
    { id := call.id, name := call.name, arguments := call.argumentsJson }

variable (common : Common)

/-- Validate schema syntax and give an argument-free tool an object. -/
def Tool.toCommon (tool : Tool) : Except Exception CommonChatTool :=
  let schema := tool.parametersJsonSchema
  if !schema.isEmpty && !common.accept schema then
    .error (.chatFormat (.toolSchemaNotJson tool.name))
  else
    .ok {
      name := tool.name
      description := tool.description
      parameters := if schema.isEmpty then literal "\x7b\x7d" else schema }

/-- Convert a parsed call, spelling an argument-free call as the JSON object `{}`. -/
def fromCommon (call : CommonChatToolCall) : ToolCall where
  id := call.id
  name := call.name
  argumentsJson := if call.arguments.isEmpty then literal "\x7b\x7d" else call.arguments

/-- Valid JSON arguments are the test for a call that was not cut off. -/
def isComplete (call : CommonChatToolCall) : Bool :=
  !call.name.isEmpty && (call.arguments.isEmpty || common.accept call.arguments)

/-- A pattern anchored at both ends. -/
def anchored (pattern : Bytes) : Bytes :=
  if pattern.isEmpty then literal "^$"
  else
    (if pattern.head? ≠ some 0x5E then literal "^" else []) ++ pattern ++
      (if pattern.getLast? ≠ some 0x24 then literal "$" else [])

/-- One grammar trigger sorted under words or patterns. -/
def splitTrigger (spec : GrammarSpec) (trigger : CommonGrammarTrigger) : GrammarSpec :=
  match trigger.type with
  | .word => { spec with triggerWords := spec.triggerWords ++ [trigger.value] }
  | .pattern => { spec with triggerPatterns := spec.triggerPatterns ++ [trigger.value] }
  | .patternFull =>
      { spec with triggerPatterns := spec.triggerPatterns ++ [anchored trigger.value] }
  | .token =>
      if trigger.value.isEmpty then spec
      else { spec with triggerWords := spec.triggerWords ++ [trigger.value] }

/-- Words stay raw: the engine resolves them against the vocabulary. -/
def splitTriggers (triggers : List CommonGrammarTrigger) (spec : GrammarSpec) : GrammarSpec :=
  triggers.foldl splitTrigger spec

/-- Everything the output parser needs, fixed by a render. -/
abbrev ParseState := CommonChatParserParams common.Format common.Parser

/-- The parser state of a chat layer that looks at none of it. -/
def Common.parsingState (accept : Bytes → Bool)
    (parse : Bytes → (isPartial : Bool) → Except Foreign CommonChatMsg) :
    ParseState (Common.parsing accept parse) where
  format := ()
  generationPrompt := []
  reasoningFormat := .none
  parseToolCalls := true
  parser := none

/-- A rendered prompt and the matching grammar and parser state. -/
structure RenderedChat where
  prompt : Bytes
  grammar : GrammarSpec
  preservedTokens : List Bytes
  additionalStops : List Bytes
  parseState : Option (ParseState common)

/-- The compiled templates of a model. -/
structure ChatFormat where
  templates : common.Templates
  parallelToolCalls : Bool

namespace ChatFormat

variable {common} (format : ChatFormat common)

variable (common) in
/-- What is wrong with a response schema before anything is rendered. -/
def checkSchema (tools : List Tool) (responseJsonSchema : Bytes) : Except Exception Unit :=
  if responseJsonSchema.isEmpty then .ok ()
  else if !tools.isEmpty then .error (.chatFormat .toolsWithSchema)
  else
    match common.parseJson responseJsonSchema with
    | none => .error (.chatFormat .schemaNotJson)
    | some .other => .error (.chatFormat .schemaNotObject)
    | some (.object 0) => .error (.chatFormat .schemaEmpty)
    | some (.object _) => .ok ()

/-- The history with the schema instruction in its leading system turn, or in a new one. -/
def addInstruction (responseJsonSchema : Bytes) (messages : List CommonChatMsg) :
    List CommonChatMsg :=
  let instruction :=
    literal "Reply with a single JSON object that matches this JSON Schema:\n" ++
      responseJsonSchema
  match messages with
  | first :: rest =>
      if first.role = literal "system" then
        { first with content := first.content ++ literal "\n\n" ++ instruction } :: rest
      else { role := literal "system", content := instruction } :: first :: rest
  | [] => [{ role := literal "system", content := instruction }]

/-- What a request applies the template to. -/
def inputs (messages : List ChatMessage) (tools : List CommonChatTool)
    (responseJsonSchema : Bytes) : CommonChatTemplatesInputs :=
  let schemaTurn := !responseJsonSchema.isEmpty
  { parallelToolCalls := format.parallelToolCalls
    reasoningFormat := if schemaTurn then .auto else .none
    enableThinking := !schemaTurn
    jsonSchema := responseJsonSchema
    messages :=
      if schemaTurn then addInstruction responseJsonSchema (messages.map ChatMessage.toCommon)
      else messages.map ChatMessage.toCommon
    tools := tools }

/-- The template applied; a `std::exception` it throws is the caller's. -/
def apply (inputs : CommonChatTemplatesInputs) :
    Except Exception (CommonChatParams common.Format) :=
  match common.chatTemplatesApply format.templates inputs with
  | .ok params => .ok params
  | .error (.standard what) => .error (.chatFormat (.renderFailed what))
  | .error .other => .error (.foreign .other)

/-- The serialized parser of a template, when it has one. -/
def load (parser : Bytes) : Except Exception (Option common.Parser) :=
  if parser.isEmpty then .ok none
  else
    match common.loadParser parser with
    | .ok parser => .ok (some parser)
    | .error (.standard what) => .error (.chatFormat (.parserNotLoaded what))
    | .error .other => .error (.foreign .other)

/-- Render complete history and request-local tools through the model template. -/
def render (messages : List ChatMessage) (tools : List Tool) (responseJsonSchema : Bytes) :
    Except Exception (RenderedChat common) := do
  checkSchema common tools responseJsonSchema
  let tools ← tools.mapM (Tool.toCommon common)
  let inputs := format.inputs messages tools responseJsonSchema
  let params ← format.apply inputs
  let parser ← load params.parser
  return {
    prompt := params.prompt
    grammar := splitTriggers params.grammarTriggers {
      grammar := params.grammar
      lazy := params.grammarLazy
      prefill := params.generationPrompt }
    preservedTokens := params.preservedTokens
    additionalStops := params.additionalStops
    parseState := some {
      format := params.format
      generationPrompt := params.generationPrompt
      reasoningFormat := inputs.reasoningFormat
      parseToolCalls := true
      parser := parser } }

end ChatFormat

end Llamad
