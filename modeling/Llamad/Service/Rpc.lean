import Llamad.Chat.Stream
import Llamad.Engine.Embed
import Llamad.Service.Wire

/-!
# The RPC handlers

`LlamaService` over the engine and the chat layer. What a handler asks of its client and
sends to it is logged in the order in which it happens; a `Peer` answers from that log,
so every pattern of cancellation and of broken streams is some peer.
-/

namespace Llamad

open Logical Semantics Program Session

/-- The status codes the service answers with. -/
inductive StatusCode where
  | ok | cancelled | invalidArgument | failedPrecondition | internal
deriving DecidableEq, Repr

/-- `grpc::Status`. -/
structure Status where
  code : StatusCode
  message : Bytes := []
deriving DecidableEq

/-- `grpc::Status::OK`. -/
def Status.ok : Status := ⟨.ok, []⟩

/-- The status an exception is turned into. -/
def Exception.status : Exception → Status
  | .engine error => ⟨.invalidArgument, error.what⟩
  | .chatFormat error => ⟨.invalidArgument, error.what⟩
  | .runtime error => ⟨.internal, error.what⟩
  | .foreign (.standard what) => ⟨.internal, what⟩
  | .foreign .other => ⟨.internal, literal "unknown error"⟩

/-- An exception is the fault of the caller or of the daemon. -/
theorem Exception.status_code (error : Exception) :
    error.status.code = .invalidArgument ∨ error.status.code = .internal := by
  cases error with
  | foreign cause => cases cause <;> exact .inr rfl
  | engine error => exact .inl rfl
  | chatFormat error => exact .inl rfl
  | runtime error => exact .inr rfl

/-- No exception is turned into success. -/
theorem Exception.status_ne_ok (error : Exception) : error.status.code ≠ .ok := by
  obtain code | code := error.status_code <;> simp [code]

/-- What passes between a handler and its client. -/
inductive Event where
  | asked (cancelled : Bool)
  | wrote (chunk : V1.GenerateChunk) (accepted : Bool)
deriving DecidableEq

/-- The client's side of a call: how `IsCancelled` and `Write` answer after what has passed
so far. -/
structure Peer where
  isCancelled : List Event → Bool
  write : List Event → V1.GenerateChunk → Bool

/-- What a handler keeps of a call. -/
structure Call (llama : Llama) (common : Common) where
  /-- Chat's parser of the output; Generate has none. -/
  stream : Option (Stream common) := none
  clientGone : Bool := false
  /-- The response of Embed. -/
  response : V1.EmbedResponse llama.Logit := {}
  log : List Event := []

variable {llama : Llama} {common : Common} (peer : Peer)

namespace Call

/-- `context->IsCancelled()`. -/
def isCancelled : Program (Call llama common) Exception Bool := do
  let call ← get
  let cancelled := peer.isCancelled call.log
  modify fun call => { call with log := call.log ++ [.asked cancelled] }
  return cancelled

/-- `writer->Write(chunk)`. -/
def write (chunk : V1.GenerateChunk) : Program (Call llama common) Exception Bool := do
  let call ← get
  let accepted := peer.write call.log chunk
  modify fun call => { call with log := call.log ++ [.wrote chunk accepted] }
  return accepted

/-- The client is known to be gone. -/
def setClientGone : Program (Call llama common) Exception Unit :=
  modify fun call => { call with clientGone := true }

/-- Writes one ordinary text chunk; `false` once the client is gone. -/
def writeText (text : Bytes) : Program (Call llama common) Exception Bool := do
  if ← write peer (.text text) then
    return true
  else
    setClientGone
    return false

/-- Run a program of the parser. -/
def onStream {Value : Type} (stream : Stream common)
    (program : Program (Stream common) Exception Value) :
    Program (Call llama common) Exception Value := fun call =>
  ((program stream).1, { call with stream := some (program stream).2 })

/-- What becomes of one piece of generated text; the parser decides what of it is visible. -/
def hear (text : Bytes) : Program (Call llama common) Exception Bool := do
  if ← isCancelled peer then
    setClientGone
    return false
  else
    let call ← get
    match call.stream with
    | none => writeText peer text
    | some stream =>
        let visible ← onStream stream (Stream.push text)
        if visible.isEmpty then
          return true
        else
          writeText peer visible

/-- The callback the engine is given. -/
def onChunk : ChunkCallback (Call llama common) := some (hear peer)

/-- The final parse and the text it adds. -/
def finishStream : Program (Call llama common) Exception (List ToolCall) := do
  let call ← get
  match call.clientGone, call.stream with
  | false, some stream =>
      let final ← onStream stream Stream.finish
      if final.contentTail.isEmpty then
        return final.toolCalls
      else
        let _ ← writeText peer final.contentTail
        return final.toolCalls
  | _, _ => return []

/-- The last chunk, for a client that is still there. -/
def writeFinish (result : GenerateResult) (toolCalls : List ToolCall) :
    Program (Call llama common) Exception Unit := do
  let call ← get
  if call.clientGone then
    return ()
  else
    if ← write peer (Wire.finishChunk result.reason result.stats toolCalls) then
      return ()
    else
      setClientGone

/-- A cancellation that came after the last piece is noted too. -/
def noteCancelled : Program (Call llama common) Exception Unit := do
  if ← isCancelled peer then
    setClientGone
  else
    return ()

/-- Everything behind the engine's part of a stream. -/
def conclude (result : GenerateResult) : Program (Call llama common) Exception Unit := do
  noteCancelled peer
  let toolCalls ← finishStream peer
  writeFinish peer result toolCalls

section Throws

variable {peer} {allowed : Exception → Prop}

theorem isCancelled_throws :
    Throws allowed (isCancelled peer : Program (Call llama common) Exception Bool) :=
  .bind .get fun _ => .bind .modify fun _ => .pure

theorem write_throws (chunk : V1.GenerateChunk) :
    Throws allowed (write peer chunk : Program (Call llama common) Exception Bool) :=
  .bind .get fun _ => .bind .modify fun _ => .pure

theorem writeText_throws (text : Bytes) :
    Throws allowed (writeText peer text : Program (Call llama common) Exception Bool) := by
  refine .bind (write_throws _) fun accepted => ?_
  cases accepted with
  | true => exact .pure
  | false => exact .bind .modify fun _ => .pure

theorem onStream_throws {Value : Type} {program : Program (Stream common) Exception Value}
    (throws : Throws allowed program) (stream : Stream common) :
    Throws allowed (onStream stream program : Program (Call llama common) Exception Value) :=
  fun _ error _ threw => throws stream error _ (Prod.ext (Prod.ext_iff.mp threw).1 rfl)

theorem hear_throws (text : Bytes) : Throws (Stream.Unparsed common)
    (hear peer text : Program (Call llama common) Exception Bool) := by
  refine .bind isCancelled_throws fun cancelled => ?_
  cases cancelled with
  | true => exact .bind .modify fun _ => .pure
  | false =>
      refine .bind .get fun call => ?_
      cases call.stream with
      | none => exact writeText_throws text
      | some stream =>
          refine .bind (onStream_throws (Stream.push_throws text) stream) fun visible => ?_
          split
          · exact .pure
          · exact writeText_throws visible

theorem finishStream_throws : Throws (Stream.Unparsed common)
    (finishStream peer : Program (Call llama common) Exception (List ToolCall)) := by
  refine .bind .get fun call => ?_
  split
  · refine .bind (onStream_throws Stream.finish_throws _) fun final => ?_
    split
    · exact .pure
    · exact .bind (writeText_throws _) fun _ => .pure
  · exact .pure

theorem writeFinish_throws (result : GenerateResult) (toolCalls : List ToolCall) :
    Throws allowed (writeFinish peer result toolCalls :
      Program (Call llama common) Exception Unit) := by
  refine .bind .get fun call => ?_
  split
  · exact .pure
  · refine .bind (write_throws _) fun accepted => ?_
    cases accepted with
    | true => exact .pure
    | false => exact .modify

/-- Around the engine, a handler throws only what its parser throws that is no
`std::exception`. -/
theorem conclude_throws (result : GenerateResult) : Throws (Stream.Unparsed common)
    (conclude peer result : Program (Call llama common) Exception Unit) := by
  refine .bind (.bind isCancelled_throws fun cancelled => ?_) fun _ =>
    .bind finishStream_throws fun _ => writeFinish_throws result _
  cases cancelled with
  | true => exact .modify
  | false => exact .pure

end Throws

end Call

/-- Shared body of Generate and Chat. -/
def streamGeneration (config : EngineConfig) (entropy : llama.Entropy) (prompt : Bytes)
    (params : SamplingParams) : Program (Session llama (Call llama common)) Exception Status := do
  let result ← generate config entropy prompt params (Call.onChunk peer)
  onClient (Call.conclude peer result)
  return Status.ok

/-- Runs one RPC body and turns what it throws into a status. -/
def guarded {State : Type} (body : Program State Exception Status) (state : State) :
    Status × State :=
  match body state with
  | (.ok status, after) => (status, after)
  | (.error error, after) => (error.status, after)

/-- The service over one engine, and a chat format when the model's template is usable. -/
structure LlamaService (common : Common) where
  config : EngineConfig
  chatFormat : Option (ChatFormat common)
  chatUnavailableReason : Bytes := literal "the model has no built-in chat template"

/-- Why Generate and Chat refuse an embedding model. -/
def kEmbeddingModel : Bytes :=
  literal "the model is an embedding model: it serves Embed, not Generate or Chat"

namespace LlamaService

variable (service : LlamaService common)

/-- The body of Generate. -/
def generateBody (entropy : llama.Entropy) (request : V1.GenerateRequest) :
    Program (Session llama (Call llama common)) Exception Status :=
  if service.config.embeddings then
    pure ⟨.failedPrecondition, kEmbeddingModel⟩
  else
    streamGeneration peer service.config entropy request.prompt
      (Wire.samplingFromProto request.sampling)

/-- What the engine is asked for a rendered conversation. -/
def chatParams (request : V1.ChatRequest) (rendered : RenderedChat common) : SamplingParams :=
  let params := Wire.samplingFromProto request.sampling
  { params with
    grammar := rendered.grammar
    preservedTokens := rendered.preservedTokens
    stop := params.stop ++ rendered.additionalStops }

/-- The conversation of a request, rendered. -/
def renderRequest (format : ChatFormat common) (request : V1.ChatRequest) :
    Except Exception (RenderedChat common) :=
  format.render (request.messages.map Wire.chatMessageFromProto)
    (request.tools.map Wire.toolFromProto) request.responseJsonSchema

/-- The body of Chat. -/
def chatBody (entropy : llama.Entropy) (rng : common.Rng) (request : V1.ChatRequest) :
    Program (Session llama (Call llama common)) Exception Status :=
  if request.messages.isEmpty then
    pure ⟨.invalidArgument, literal "messages must not be empty"⟩
  else if service.config.embeddings then
    pure ⟨.failedPrecondition, kEmbeddingModel⟩
  else
    match service.chatFormat with
    | none => pure ⟨.failedPrecondition, service.chatUnavailableReason⟩
    | some format => do
        let rendered ← attempt (renderRequest format request)
        let stream ← attempt (ChatFormat.stream rendered rng)
        onClient (modify fun call => { call with stream := some stream })
        streamGeneration peer service.config entropy rendered.prompt (chatParams request rendered)

/-- The body of Embed. -/
def embedBody (request : V1.EmbedRequest) :
    Program (Session llama (Call llama common)) Exception Status :=
  if request.inputs.isEmpty then
    pure ⟨.invalidArgument, literal "inputs must not be empty"⟩
  else if !service.config.embeddings then
    pure ⟨.failedPrecondition,
      literal "the model is not an embedding model: its GGUF declares no pooling type"⟩
  else do
    let result ← embed service.config request.inputs
      (some do let cancelled ← Call.isCancelled peer; return !cancelled)
    if result.embeddings.length < request.inputs.length then
      return ⟨.cancelled, literal "the client cancelled the call"⟩
    else
      onClient (modify fun call => { call with response := Wire.embedResponse result })
      return Status.ok

/-- The requests that run the model. -/
inductive Rpc (llama : Llama) (common : Common) where
  | generate (entropy : llama.Entropy) (request : V1.GenerateRequest)
  | chat (entropy : llama.Entropy) (rng : common.Rng) (request : V1.ChatRequest)
  | embed (request : V1.EmbedRequest)

/-- The body of a request. -/
def body : Rpc llama common → Program (Session llama (Call llama common)) Exception Status
  | .generate entropy request => service.generateBody peer entropy request
  | .chat entropy rng request => service.chatBody peer entropy rng request
  | .embed request => service.embedBody peer request

/-- A session for one call on an engine; both logs start empty. -/
def opened (impl : Impl llama) : Session llama (Call llama common) :=
  ⟨{ impl with log := [] }, ⟨{}, []⟩⟩

/-- A request handled by an engine. -/
def handle (rpc : Rpc llama common) (impl : Impl llama) :
    Status × Session llama (Call llama common) :=
  guarded (service.body peer rpc) (opened impl)

end LlamaService

end Llamad
