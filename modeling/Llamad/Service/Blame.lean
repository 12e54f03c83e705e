import Llamad.Engine.DecodeReports
import Llamad.Service.Rpc

/-!
# Whom a status blames

`INVALID_ARGUMENT` tells a caller to correct the request. The module lists the faults
of a request (`LlamaService.Fault`) and shows that a handler answers this code for
nothing else, except that Generate and Chat also answer it when a `llama_decode` reported
failure.
-/

namespace Llamad

open Logical Semantics Program Session

variable {llama : Llama} {common : Common}

/-- Documented behaviour of the chat layer of llama.cpp: it loads the parsers it serialized. -/
def Common.Documented (common : Common) : Prop :=
  ∀ templates inputs params, common.chatTemplatesApply templates inputs = .ok params →
    params.parser ≠ [] → ∀ what, common.loadParser params.parser ≠ .error (.standard what)

/-- A response schema that cannot be used. -/
inductive SchemaFault (common : Common) (tools : List Tool) (schema : Bytes) : Prop where
  | withTools (present : schema ≠ []) (offered : tools ≠ [])
  | notJson (present : schema ≠ []) (parsed : common.parseJson schema = none)
  | notObject (present : schema ≠ []) (parsed : common.parseJson schema = some .other)
  | empty (present : schema ≠ []) (parsed : common.parseJson schema = some (.object 0))

/-- A conversation that cannot be rendered. -/
inductive RenderFault (format : ChatFormat common) (messages : List ChatMessage)
    (tools : List Tool) (schema : Bytes) : Prop where
  | schema (fault : SchemaFault common tools schema)
  | toolSchema {tool : Tool} (member : tool ∈ tools) (present : tool.parametersJsonSchema ≠ [])
      (invalid : common.accept tool.parametersJsonSchema = false)
  | rejected {converted : List CommonChatTool} {what : Bytes}
      (valid : tools.mapM (Tool.toCommon common) = .ok converted)
      (refused : common.chatTemplatesApply format.templates
        (format.inputs messages converted schema) = .error (.standard what))

section Render

variable {format : ChatFormat common} {messages : List ChatMessage} {tools : List Tool}
  {schema : Bytes} {error : Exception}

theorem fault_of_checkSchema_error
    (failed : ChatFormat.checkSchema common tools schema = .error error) :
    SchemaFault common tools schema := by
  simp only [ChatFormat.checkSchema, List.isEmpty_iff, Bool.not_eq_true',
    List.isEmpty_eq_false_iff] at failed
  by_cases present : schema = []
  · simp [present] at failed
  by_cases offered : tools ≠ []
  · exact .withTools present offered
  rw [if_neg present, if_neg offered] at failed
  match parsed : common.parseJson schema with
  | none => exact .notJson present parsed
  | some .other => exact .notObject present parsed
  | some (.object 0) => exact .empty present parsed
  | some (.object (size + 1)) => simp [parsed] at failed

/-- A conversation is rendered unless the request is at fault. -/
theorem fault_of_render_error (documented : common.Documented)
    (failed : format.render messages tools schema = .error error) :
    RenderFault format messages tools schema ∨ error.Foreign := by
  rw [ChatFormat.render, except_bind_eq_error_iff] at failed
  obtain failed | ⟨_, _, failed⟩ := failed
  · exact .inl (.schema (fault_of_checkSchema_error failed))
  rw [except_bind_eq_error_iff] at failed
  obtain failed | ⟨converted, valid, failed⟩ := failed
  · obtain ⟨tool, member, invalid⟩ := exists_of_mapM_eq_error failed
    rw [Tool.toCommon] at invalid
    simp only [Bool.and_eq_true, Bool.not_eq_true', List.isEmpty_eq_false_iff] at invalid
    split at invalid
    · rename_i wrong
      exact .inl (.toolSchema member wrong.1 wrong.2)
    · cases invalid
  rw [except_bind_eq_error_iff] at failed
  obtain failed | ⟨params, applied, failed⟩ := failed
  · rw [ChatFormat.apply] at failed
    match answer : common.chatTemplatesApply format.templates
        (format.inputs messages converted schema) with
    | .ok params => simp [answer] at failed
    | .error (.standard what) => exact .inl (.rejected valid answer)
    | .error .other =>
        simp only [answer, Except.error.injEq] at failed
        exact .inr ⟨_, failed.symm⟩
  rw [except_bind_eq_error_iff] at failed
  obtain failed | ⟨parser, _, failed⟩ := failed
  · have answer : common.chatTemplatesApply format.templates
        (format.inputs messages converted schema) = .ok params := by
      rw [ChatFormat.apply] at applied
      split at applied
      · rename_i answer
        cases applied
        exact answer
      · cases applied
      · cases applied
    simp only [ChatFormat.load, List.isEmpty_iff] at failed
    by_cases present : params.parser = []
    · simp [present] at failed
    rw [if_neg present] at failed
    match loaded : common.loadParser params.parser with
    | .ok parser => simp [loaded] at failed
    | .error (.standard what) => exact absurd loaded (documented _ _ _ answer present what)
    | .error .other =>
        simp only [loaded, Except.error.injEq] at failed
        exact .inr ⟨_, failed.symm⟩
  · cases failed

/-- What is rendered comes with a parser state. -/
theorem parseState_of_render {rendered : RenderedChat common}
    (done : format.render messages tools schema = .ok rendered) :
    ∃ state, rendered.parseState = some state := by
  rw [ChatFormat.render] at done
  obtain ⟨_, _, done⟩ := except_bind_eq_ok_iff.mp done
  obtain ⟨_, _, done⟩ := except_bind_eq_ok_iff.mp done
  obtain ⟨_, _, done⟩ := except_bind_eq_ok_iff.mp done
  obtain ⟨_, _, done⟩ := except_bind_eq_ok_iff.mp done
  cases done
  exact ⟨_, rfl⟩

end Render

/-- What a parser throws comes from outside the repository. -/
theorem Stream.Unparsed.foreign {error : Exception} (unparsed : Stream.Unparsed common error) :
    error.Foreign :=
  ⟨_, unparsed.1⟩

theorem Call.onChunk_foreign (peer : Peer) :
    ThrowsForeign (Call.onChunk peer : ChunkCallback (Call llama common)) := by
  rintro callback ⟨⟩ text
  exact ((Call.hear_throws text).mono fun _ => Stream.Unparsed.foreign).triple

namespace LlamaService

variable (service : LlamaService common)

/-- A fault that is decided by the request itself. -/
inductive Fault : Rpc llama common → Prop where
  | prompt {entropy : llama.Entropy} {request : V1.GenerateRequest}
      (fault : PromptFault llama service.config request.prompt) : Fault (.generate entropy request)
  | noMessages {entropy : llama.Entropy} {rng : common.Rng} {request : V1.ChatRequest}
      (none : request.messages = []) : Fault (.chat entropy rng request)
  | render {entropy : llama.Entropy} {rng : common.Rng} {request : V1.ChatRequest}
      {format : ChatFormat common} (available : service.chatFormat = some format)
      (fault : RenderFault format (request.messages.map Wire.chatMessageFromProto)
        (request.tools.map Wire.toolFromProto) request.responseJsonSchema) :
      Fault (.chat entropy rng request)
  | rendered {entropy : llama.Entropy} {rng : common.Rng} {request : V1.ChatRequest}
      {format : ChatFormat common} {rendered : RenderedChat common}
      (available : service.chatFormat = some format)
      (done : renderRequest format request = .ok rendered)
      (fault : PromptFault llama service.config rendered.prompt ∨
        GrammarFault llama (chatParams request rendered)) : Fault (.chat entropy rng request)
  | noInputs {request : V1.EmbedRequest} (none : request.inputs = []) : Fault (.embed request)
  | input {request : V1.EmbedRequest} {input : Bytes} (member : input ∈ request.inputs)
      (fault : InputFault llama service.config input) : Fault (.embed request)

variable {service} (peer : Peer) (documented : llama.Documented)
include documented

/-- A stream on a generative model ends well or with an attributed exception. -/
theorem streamGeneration_attributed (generative : service.config.embeddings = false)
    (entropy : llama.Entropy) (prompt : Bytes) (params : SamplingParams) :
    Triple (fun session : Session llama (Call llama common) =>
        Calm session.impl.log ∧ Prompting session.impl.log)
      (streamGeneration peer service.config entropy prompt params)
      (fun status session => status = Status.ok ∧ Calm session.impl.log)
      (fun error session => Attributed
        (PromptFault llama service.config prompt ∨ GrammarFault llama params) error
        session.impl.log) := by
  refine .bind (generate_attributed generative (Call.onChunk_foreign peer) documented entropy
    prompt params) fun result => ?_
  have concluding : Triple (fun session : Session llama (Call llama common) =>
        Calm session.impl.log)
      (onClient (Call.conclude peer result)) (fun _ session => Calm session.impl.log)
      (fun error session => Attributed
        (PromptFault llama service.config prompt ∨ GrammarFault llama params) error
        session.impl.log) := by
    intro session calm
    rw [onClient_apply]
    match ran : Call.conclude peer result session.receiver.client with
    | (.ok _, client) => exact calm
    | (.error error, client) =>
        obtain ⟨cause, rfl⟩ := (Call.conclude_throws result _ _ _ ran).foreign
        exact .foreign calm.1
  exact .bind concluding fun _ => .pure fun session calm => ⟨rfl, calm⟩

/-- How the body of a request ends, except for Embed. -/
def Ends (service : LlamaService common) (rpc : Rpc llama common)
    (body : Program (Session llama (Call llama common)) Exception Status) : Prop :=
  Triple (fun session => Calm session.impl.log ∧ Prompting session.impl.log) body
    (fun status session => Calm session.impl.log ∧
      (status.code = .invalidArgument → service.Fault rpc))
    (fun error session => Attributed (service.Fault rpc) error session.impl.log)

theorem generateBody_ends (entropy : llama.Entropy) (request : V1.GenerateRequest) :
    service.Ends (.generate entropy request) (service.generateBody peer entropy request) := by
  rw [generateBody]
  split
  · exact .pure fun session holds => ⟨holds.1, nofun⟩
  · rename_i generative
    refine (streamGeneration_attributed peer documented (by simpa using generative) entropy
      request.prompt (Wire.samplingFromProto request.sampling)).consequence ?_ ?_
    · rintro status session ⟨rfl, calm⟩
      exact ⟨calm, nofun⟩
    · intro error session attributed
      refine attributed.imp fun fault => .prompt (fault.resolve_right ?_)
      exact not_grammarFault rfl rfl

theorem chatBody_ends (serializes : common.Documented) (entropy : llama.Entropy)
    (rng : common.Rng) (request : V1.ChatRequest) :
    service.Ends (.chat entropy rng request) (service.chatBody peer entropy rng request) := by
  rw [chatBody]
  split
  · rename_i none
    exact .pure fun session holds => ⟨holds.1, fun _ => .noMessages (List.isEmpty_iff.mp none)⟩
  split
  · exact .pure fun session holds => ⟨holds.1, nofun⟩
  rename_i generative
  cases available : service.chatFormat with
  | none => exact .pure fun session holds => ⟨holds.1, nofun⟩
  | some format =>
      have rendering : Triple
          (fun session : Session llama (Call llama common) =>
            Calm session.impl.log ∧ Prompting session.impl.log)
          (attempt (renderRequest format request))
          (fun rendered session => renderRequest format request = .ok rendered ∧
            Calm session.impl.log ∧ Prompting session.impl.log)
          (fun error session => Attributed (service.Fault (.chat entropy rng request)) error
            session.impl.log) := by
        refine .attempt (fun session rendered holds done => ⟨done, holds⟩)
          fun session error holds failed => ?_
        obtain fault | ⟨cause, rfl⟩ := fault_of_render_error serializes failed
        · exact .fault (.render available fault) holds.1
        · exact .foreign holds.1.1
      refine .bind rendering fun rendered => ?_
      rintro session ⟨done, holds⟩
      obtain ⟨state, parses⟩ := parseState_of_render done
      have streams : ChatFormat.stream rendered rng = .ok { state := state, rng := rng } := by
        rw [ChatFormat.stream, parses]
      simp only [streams, bind_apply, attempt_apply, onClient_apply, modify_apply]
      have streaming := streamGeneration_attributed peer documented (by simpa using generative)
        entropy rendered.prompt (chatParams request rendered)
      refine streaming.consequence ?_ ?_ _ ?_
      · rintro status session ⟨rfl, calm⟩
        exact ⟨calm, nofun⟩
      · exact fun error session attributed => attributed.imp (.rendered available done)
      · exact holds

theorem embedBody_ends (request : V1.EmbedRequest) :
    Triple (fun session : Session llama (Call llama common) =>
        Calm session.impl.log ∧ Prompting session.impl.log)
      (service.embedBody peer request)
      (fun status session => Calm session.impl.log ∧
        (status.code = .invalidArgument → service.Fault (.embed request : Rpc llama common)))
      (fun error session => error.Unblaming ∨
        service.Fault (.embed request : Rpc llama common) ∧ Calm session.impl.log) := by
  rw [embedBody]
  split
  · rename_i none
    exact .pure fun session holds => ⟨holds.1, fun _ => .noInputs (List.isEmpty_iff.mp none)⟩
  split
  · exact .pure fun session holds => ⟨holds.1, nofun⟩
  rename_i pooled
  have measuring : Triple
      (fun session : Session llama (Call llama common) =>
        Calm session.impl.log ∧ Prompting session.impl.log)
      (attempt (measure service.config llama 0 request.inputs))
      (fun _ session => Calm session.impl.log)
      (fun error session => error.Unblaming ∨
        service.Fault (.embed request : Rpc llama common) ∧ Calm session.impl.log) := by
    refine .attempt (fun session _ holds _ => holds.1) fun session error holds failed => ?_
    obtain ⟨input, member, fault⟩ := fault_of_measure_error documented failed
    exact .inr ⟨.input member fault, holds.1⟩
  have embedding : Triple
      (fun session : Session llama (Call llama common) =>
        Calm session.impl.log ∧ Prompting session.impl.log)
      (embed service.config request.inputs
        (some do let cancelled ← Call.isCancelled peer; return !cancelled))
      (fun _ session => Calm session.impl.log)
      (fun error session => error.Unblaming ∨
        service.Fault (.embed request : Rpc llama common) ∧ Calm session.impl.log) := by
    rw [embed, if_pos (by simpa using pooled)]
    refine .bind measuring fun tokenized => ?_
    refine (embedInputs_calm ?_ tokenized {}).consequence (fun _ _ => id) fun _ _ => .inl
    rintro ask ⟨⟩
    exact fun _ _ => trivial
  refine .bind embedding fun result => ?_
  split
  · exact .pure fun session calm => ⟨calm, nofun⟩
  · exact fun session calm => ⟨calm, nofun⟩

omit documented in
/-- The code an exception is answered with. -/
theorem code_of_attributed {fault : Prop} {error : Exception} {log : List (Entry llama)}
    (attributed : Attributed fault error log) :
    (Reported log ∧ error.status.code = .invalidArgument) ∨
      (¬ Reported log ∧ error.status.code = .internal) ∨ (Calm log ∧ fault) := by
  cases attributed with
  | promptDecode reported => exact .inl ⟨reported, rfl⟩
  | generationDecode reported => exact .inl ⟨reported, rfl⟩
  | @foreign cause _ unreported =>
      refine .inr (.inl ⟨unreported, ?_⟩)
      cases cause <;> rfl
  | fault isFault calm => exact .inr (.inr ⟨calm, isFault⟩)

omit documented in
theorem code_of_unblaming {error : Exception} (unblaming : error.Unblaming) :
    error.status.code = .internal := by
  obtain ⟨cause, rfl⟩ | ⟨cause, rfl⟩ := unblaming
  · rfl
  · cases cause <;> rfl

/-- The request is one for embeddings. -/
def Rpc.Embeds : Rpc llama common → Prop
  | .embed _ => True
  | _ => False

/-- A failed decode is answered with `INTERNAL`, and `INVALID_ARGUMENT` only given to a
request that is at fault. -/
def Blameless (service : LlamaService common) (rpc : Rpc llama common) (code : StatusCode)
    (log : List (Entry llama)) : Prop :=
  (Reported log ∨ DecodeThrew log → code = .internal) ∧
    (code = .invalidArgument → service.Fault rpc)

omit documented in
theorem Blameless.of_calm {rpc : Rpc llama common} {code : StatusCode} {log : List (Entry llama)}
    (calm : Calm log) (blamed : code = .invalidArgument → service.Fault rpc) :
    service.Blameless rpc code log :=
  ⟨fun failed => failed.elim (absurd · calm.1) (absurd · calm.2), blamed⟩

omit documented in
theorem Blameless.of_internal {rpc : Rpc llama common} {log : List (Entry llama)} :
    service.Blameless rpc .internal log :=
  ⟨fun _ => rfl, nofun⟩

omit documented in
/-- A body that ends so leaves a blameless status exactly when no decode reported failure. -/
theorem Ends.blameless_iff {rpc : Rpc llama common}
    {body : Program (Session llama (Call llama common)) Exception Status}
    (ends : service.Ends rpc body) (impl : Impl llama) :
    service.Blameless rpc (guarded body (opened impl)).1.code
      (guarded body (opened impl)).2.impl.log ↔
      ¬ Reported (guarded body (opened impl)).2.impl.log := by
  have met := ends (opened impl) ⟨calm_nil, fun _ member => absurd member List.not_mem_nil⟩
  rw [guarded]
  match ran : body (opened impl) with
  | (.ok status, after) =>
      rw [ran] at met
      exact iff_of_true (.of_calm met.1 met.2) met.1.1
  | (.error error, after) =>
      rw [ran] at met
      obtain ⟨reported, code⟩ | ⟨unreported, code⟩ | ⟨calm, fault⟩ := code_of_attributed met
      · refine iff_of_false (fun blameless => ?_) (not_not_intro reported)
        have wrong := blameless.1 (.inl reported)
        rw [code] at wrong
        cases wrong
      · exact iff_of_true (code ▸ .of_internal) unreported
      · exact iff_of_true (.of_calm calm fun _ => fault) calm.1

/-- Whatever the decodes of an Embed report, its status is blameless. -/
theorem embed_blameless (request : V1.EmbedRequest) (impl : Impl llama) :
    service.Blameless (.embed request) (guarded (service.embedBody peer request) (opened impl)).1.code
      (guarded (service.embedBody peer request) (opened impl)).2.impl.log := by
  have initial : Calm ([] : List (Entry llama)) ∧ Prompting ([] : List (Entry llama)) :=
    ⟨calm_nil, fun _ member => absurd member List.not_mem_nil⟩
  have met : Meets
      (fun status session => Calm session.impl.log ∧
        (status.code = .invalidArgument → service.Fault (.embed request : Rpc llama common)))
      (fun error session => error.Unblaming ∨
        service.Fault (.embed request : Rpc llama common) ∧ Calm session.impl.log)
      (service.embedBody peer request (opened impl)) :=
    embedBody_ends peer documented request (opened impl) initial
  rw [guarded]
  match ran : service.embedBody peer request (opened impl) with
  | (.ok status, after) =>
      rw [ran] at met
      exact .of_calm met.1 met.2
  | (.error error, after) =>
      rw [ran] at met
      obtain unblaming | ⟨fault, calm⟩ := met
      · exact code_of_unblaming unblaming ▸ .of_internal
      · exact .of_calm calm fun _ => fault

/-- For every engine state, request and sequence of decode results: the status blames the
right side exactly if the request is for embeddings or no `llama_decode` reported a
failure for which a generation fails. -/
theorem handle_blameless_iff (serializes : common.Documented) (service : LlamaService common)
    (rpc : Rpc llama common) (impl : Impl llama) :
    service.Blameless rpc (service.handle peer rpc impl).1.code
      (service.handle peer rpc impl).2.impl.log ↔
      rpc.Embeds ∨ ¬ Reported (service.handle peer rpc impl).2.impl.log := by
  cases rpc with
  | generate entropy request =>
      exact ((generateBody_ends peer documented entropy request).blameless_iff impl).trans
        (or_iff_right id).symm
  | chat entropy rng request =>
      exact ((chatBody_ends peer documented serializes entropy rng request).blameless_iff
        impl).trans (or_iff_right id).symm
  | embed request =>
      exact iff_of_true (embed_blameless peer documented request impl) (.inl trivial)

end LlamaService

section Refusing

/-- A backend over single bytes whose every decode returns -1. -/
def Llama.refusing : Llama :=
  { Llama.bytes fun _ => 256 with
    decode := fun host memory _ => (.code (-1) (by decide) memory, host) }

theorem Llama.refusing_documented : Llama.refusing.Documented := by
  have bytes := Llama.bytes_documented fun _ => 256
  obtain ⟨chain, Selecting, created, selects, built⟩ := bytes.chain
  exact ⟨bytes.nVocab_pos, bytes.tokenizeAgain, bytes.pieceAgain,
    ⟨chain, Selecting, created, ⟨selects.apply, selects.accept⟩, built⟩, bytes.grammarApply,
    bytes.partialSortCopy⟩

/-- A chat layer that renders every conversation to nothing. -/
def Common.silent : Common := Common.parsing (fun _ => true) fun _ _ => .ok {}

/-- A service over an engine with room for eight tokens. -/
def LlamaService.small (embeddings : Bool) : LlamaService Common.silent where
  config := ⟨8, 8, embeddings, 8, by decide, by decide⟩
  chatFormat := some ⟨(), false⟩

/-- A client that stays. -/
def Peer.patient : Peer := ⟨fun _ => false, fun _ _ => true⟩

/-- An engine on that backend. -/
def Impl.refusing : Impl Llama.refusing := Impl.fresh () fun _ => (0 : Int)

/-- A prompt that cannot be decoded ends a generation. -/
theorem generate_of_decodePrompt_error {Client : Type} {config : EngineConfig}
    {entropy : llama.Entropy} {prompt : Bytes} {params : SamplingParams}
    {onChunk : ChunkCallback Client} {session : Session llama Client} {admitted : Admitted llama}
    {kept : Nat} {trimmed after : Impl llama} {error : Exception}
    (passed : admission config entropy prompt params = .ok admitted)
    (keeps : Impl.keepPrefix admitted.tokens session.impl = (.ok kept, trimmed))
    (failed : decodePrompt config admitted.tokens kept trimmed = (.error error, after)) :
    generate config entropy prompt params onChunk session =
      (.error error, { session with impl := after }) := by
  simp only [generate, passed, bind_apply, attempt_apply, onImpl_apply, keeps, failed]

/-- A Generate whose prompt decode reports failure. -/
theorem refused_generate :
    let outcome := (LlamaService.small false).handle Peer.patient
      (.generate () { prompt := [0x61] }) Impl.refusing
    outcome.1 = ⟨.invalidArgument, literal "llama_decode failed on the prompt (code -1)"⟩ ∧
      Reported outcome.2.impl.log := by
  let session : Session Llama.refusing (Call Llama.refusing Common.silent) :=
    LlamaService.opened Impl.refusing
  have ran : ∃ after, generate (LlamaService.small false).config () [0x61]
      (Wire.samplingFromProto {}) (Call.onChunk Peer.patient) session =
      (.error (.engine (.promptDecode (-1))), after) ∧ Reported after.impl.log := by
    refine ⟨_, generate_of_decodePrompt_error rfl rfl (loop_of_error rfl), ?_⟩
    exact reported_snoc_iff.mpr (.inr ⟨_, _, by decide, _, rfl, .inl (by decide)⟩)
  obtain ⟨after, failed, reported⟩ := ran
  have body : streamGeneration Peer.patient (LlamaService.small false).config () [0x61]
      (Wire.samplingFromProto {}) session = (.error (.engine (.promptDecode (-1))), after) :=
    bind_of_error failed
  change (guarded (streamGeneration Peer.patient (LlamaService.small false).config () [0x61]
    (Wire.samplingFromProto {})) session).1 = _ ∧ Reported (guarded (streamGeneration Peer.patient
    (LlamaService.small false).config () [0x61] (Wire.samplingFromProto {})) session).2.impl.log
  have answered : (Exception.engine (.promptDecode (-1))).status =
      ⟨.invalidArgument, literal "llama_decode failed on the prompt (code -1)"⟩ := by decide
  rw [guarded, body]
  exact ⟨answered, reported⟩

/-- An Embed whose decode reports failure. -/
theorem refused_embed :
    let outcome := (LlamaService.small true).handle Peer.patient
      (.embed { inputs := [[0x61]] }) Impl.refusing
    outcome.1 = ⟨.internal, literal "llama_decode failed on an embedding input (code -1)"⟩ ∧
      Reported outcome.2.impl.log := by
  refine ⟨by rfl, ?_⟩
  exact reported_snoc_iff.mpr (.inr ⟨_, _, by decide, _, rfl, .inl (by decide)⟩)

namespace LlamaService

/-- The same failure blames the caller of Generate and not the caller of Embed. -/
theorem handle_blames_caller :
    let generated := (small false).handle Peer.patient (.generate () { prompt := [0x61] })
      Impl.refusing
    let embedded := (small true).handle Peer.patient (.embed { inputs := [[0x61]] }) Impl.refusing
    Reported generated.2.impl.log ∧ generated.1.code = .invalidArgument ∧
      Reported embedded.2.impl.log ∧ embedded.1.code = .internal :=
  ⟨refused_generate.2, congrArg Status.code refused_generate.1, refused_embed.2,
    congrArg Status.code refused_embed.1⟩

/-- What the condition says of both. -/
theorem handle_blameless_refusing :
    let generated := (small false).handle Peer.patient (.generate () { prompt := [0x61] })
      Impl.refusing
    let embedded := (small true).handle Peer.patient (.embed { inputs := [[0x61]] }) Impl.refusing
    ¬ (small false).Blameless (.generate () { prompt := [0x61] } : Rpc Llama.refusing _)
        generated.1.code generated.2.impl.log ∧
      (small true).Blameless (.embed { inputs := [[0x61]] } : Rpc Llama.refusing _)
        embedded.1.code embedded.2.impl.log := by
  intro generated embedded
  have serializes : Common.silent.Documented := fun _ _ _ _ _ _ => nofun
  refine ⟨fun blameless => ?_, ?_⟩
  · obtain ⟨⟨⟩⟩ | unreported := (handle_blameless_iff Peer.patient Llama.refusing_documented
      serializes (small false) (.generate () { prompt := [0x61] }) Impl.refusing).mp blameless
    exact unreported refused_generate.2
  · exact (handle_blameless_iff Peer.patient Llama.refusing_documented serializes (small true)
      (.embed { inputs := [[0x61]] }) Impl.refusing).mpr (.inl trivial)

end LlamaService

end Refusing

end Llamad
