import Llamad.Service.Batches
import Llamad.Service.CommandLine
import Llamad.Service.Statelessness

/-!
# What a daemon serves

`main` builds an engine, a chat format where the model has a usable template, and the service over
both. Which calls are answered with `FAILED_PRECONDITION` is settled there: no call depends for
it on what the engine has served, on its client or on the calls beside it, and a call that is
refused never waits for the engine.
-/

namespace Llamad

open Logical Semantics Program

variable {llama : Llama} {common : Common} {registry : Registry}

/-- The chat template of a model, and the reader of templates. -/
structure TemplateReader (common : Common) where
  /-- `llama_model_chat_template` without a name. -/
  template : Option Bytes
  /-- `common_chat_templates_init` without a model. -/
  templatesInit : (source bosToken eosToken : Bytes) → Except Foreign common.Templates
  /-- `common_chat_templates_get_caps`. -/
  caps : common.Templates → List (Bytes × Bool)

/-- What ends the constructor of a chat format. -/
inductive TemplateFailure where
  | noTemplate
  | notParsed (what : Bytes)
  | other
deriving DecidableEq

/-- The text `what()` carries, where the failure is a `std::exception`. -/
def TemplateFailure.what? : TemplateFailure → Option Bytes
  | .noTemplate => some (literal "the model has no chat template")
  | .notParsed what => some (literal "failed to parse the chat template: " ++ what)
  | .other => none

/-- The constructor of a chat format. -/
def ChatFormat.construct (reader : TemplateReader common)
    (templateSource bosToken eosToken : Bytes) : Except TemplateFailure (ChatFormat common) :=
  if templateSource.isEmpty then
    .error .noTemplate
  else
    match reader.templatesInit templateSource bosToken eosToken with
    | .error (.standard what) => .error (.notParsed what)
    | .error .other => .error .other
    | .ok templates =>
        .ok {
          templates := templates
          parallelToolCalls :=
            (reader.caps templates).lookup (literal "supports_parallel_tool_calls") == some true }

/-- A chat template with the texts of the tokens it refers to. -/
structure ChatTemplateInfo where
  source : Bytes
  bosToken : Bytes
  eosToken : Bytes

variable (llama) in
/-- The text of a token that a vocabulary may lack. -/
def tokenText : Option Token → Except Exception Bytes
  | none => .ok []
  | some token => tokenToPiece llama token true

/-- The built-in chat template of a model. -/
def Engine.chatTemplate (loader : Loader llama registry) (reader : TemplateReader common) :
    Except Exception ChatTemplateInfo := do
  let bosToken ← tokenText llama loader.bos
  let eosToken ← tokenText llama loader.eos
  return ⟨reader.template.getD [], bosToken, eosToken⟩

/-- The part of `main` between the engine and the service: nothing where an exception leaves it. -/
def assemble (loader : Loader llama registry) (reader : TemplateReader common)
    (config : EngineConfig) : Option (LlamaService common) :=
  if config.embeddings then
    some { config := config, chatFormat := none }
  else
    match Engine.chatTemplate loader reader with
    | .error _ => none
    | .ok template =>
        if template.source.isEmpty then
          some { config := config, chatFormat := none }
        else
          match ChatFormat.construct reader template.source template.bosToken
            template.eosToken with
          | .ok format => some { config := config, chatFormat := some format }
          | .error failure => failure.what?.map fun what =>
              { config := config
                chatFormat := none
                chatUnavailableReason :=
                  literal "the model's chat template could not be parsed: " ++ what }

/-- What becomes of a daemon: it exits, is ended by an exception that nothing catches, or listens
for calls of its service. -/
inductive Daemon (llama : Llama) (common : Common) where
  | exits (status : Nat)
  | aborts
  | listens (service : LlamaService common) (engine : Construction llama)

/-- `main`, over what becomes of its signals and its socket path: whether they can be prepared, and
whether the path can be listened on. -/
def Daemon.main (parseFloat : Bytes → Option Rat) (loader : Loader llama registry)
    (reader : TemplateReader common) (prepared listened : Option Bytes → Bool)
    (host : llama.Host) (logits : Token → llama.Logit) (arguments : List Bytes) :
    Daemon llama common :=
  match Cli.launch parseFloat arguments with
  | .error _ => .exits 2
  | .ok (.serve config socket) =>
      if prepared socket then
        match Engine.construct loader config { host := host, logits := logits } with
        | (.error (.foreign .other), _) => .aborts
        | (.error _, _) => .exits 1
        | (.ok settled, engine) =>
            match assemble loader reader settled with
            | none => .aborts
            | some service => if listened socket then .listens service engine else .exits 1
      else
        .exits 1
  | .ok _ => .exits 0

/-- The calls that a model cannot serve, with the reason: one that pools serves Embed and nothing
else, and Chat lacks what it needs where `lacks` says why. -/
inductive Unavailable (pools : Prop) (lacks : Bytes → Prop) :
    LlamaService.Rpc llama common → Bytes → Prop where
  | generate {entropy : llama.Entropy} {request : V1.GenerateRequest} (embeds : pools) :
      Unavailable pools lacks (.generate entropy request) kEmbeddingModel
  | chat {entropy : llama.Entropy} {rng : common.Rng} {request : V1.ChatRequest}
      (said : request.messages ≠ []) (embeds : pools) :
      Unavailable pools lacks (.chat entropy rng request) kEmbeddingModel
  | chatFormat {entropy : llama.Entropy} {rng : common.Rng} {request : V1.ChatRequest}
      {reason : Bytes} (said : request.messages ≠ []) (generates : ¬ pools)
      (lacking : lacks reason) : Unavailable pools lacks (.chat entropy rng request) reason
  | embed {request : V1.EmbedRequest} (given : request.inputs ≠ []) (generates : ¬ pools) :
      Unavailable pools lacks (.embed request)
        (literal "the model is not an embedding model: its GGUF declares no pooling type")

section Unavailable

variable {pools others : Prop} {lacks misses : Bytes → Prop}
  {rpc : LlamaService.Rpc llama common} {reason : Bytes}

theorem Unavailable.imp (same : pools ↔ others)
    (covers : ¬ pools → ∀ reason, lacks reason → misses reason)
    (unavailable : Unavailable pools lacks rpc reason) : Unavailable others misses rpc reason := by
  cases unavailable with
  | generate embeds => exact .generate (same.mp embeds)
  | chat said embeds => exact .chat said (same.mp embeds)
  | chatFormat said generates lacking =>
      exact .chatFormat said (mt same.mpr generates) (covers generates _ lacking)
  | embed given generates => exact .embed given (mt same.mpr generates)

/-- What is unavailable depends on what the model does, and on what Chat lacks where it
generates. -/
theorem Unavailable.congr (same : pools ↔ others)
    (agree : ¬ pools → ∀ reason, lacks reason ↔ misses reason) :
    Unavailable pools lacks rpc reason ↔ Unavailable others misses rpc reason :=
  ⟨.imp same fun generates reason => (agree generates reason).mp,
    .imp same.symm fun generates reason => (agree (mt same.mp generates) reason).mpr⟩

end Unavailable

namespace LlamaService

variable (service : LlamaService common) {peer : Peer} {rpc : Rpc llama common} {reason : Bytes}

/-- The calls that a service refuses, with the reason it gives. -/
def Refuses (rpc : Rpc llama common) (reason : Bytes) : Prop :=
  Unavailable (service.config.embeddings = true)
    (fun reason => service.chatFormat = none ∧ reason = service.chatUnavailableReason) rpc reason

/-- A refused call is answered before the context mutex, and nothing is written to its client. -/
theorem prepare_refused (refuses : service.Refuses rpc reason) :
    service.prepare peer rpc = .inl (⟨.failedPrecondition, reason⟩, ⟨{}, []⟩) := by
  cases refuses with
  | generate embeds => rw [prepare, if_pos embeds]
  | chat said embeds => rw [prepare, if_neg (by simpa using said), if_pos embeds]
  | chatFormat said generates lacking =>
      obtain ⟨unavailable, rfl⟩ := lacking
      rw [prepare, if_neg (by simpa using said), if_neg generates, unavailable]
  | embed given generates =>
      rw [prepare, if_neg (by simpa using given), if_pos (by simpa using generates)]

/-- No exception is turned into a refusal. -/
theorem status_ne_failedPrecondition (error : Exception) :
    error.status.code ≠ .failedPrecondition := by
  obtain code | code := error.status_code <;> simp [code]

/-- A call that has been in its section is not refused, whatever came of it. -/
theorem concludeBody_ne_failedPrecondition (outcome : Except Exception (Product llama))
    (receiver : Receiver (Call llama common)) :
    (guarded (concludeBody peer outcome) receiver).1.code ≠ .failedPrecondition := by
  rcases outcome with error | result | ⟨request, result⟩
  · exact status_ne_failedPrecondition error
  · rcases ran : onCall (Call.conclude peer result) receiver with ⟨error | done, after⟩
    · rw [concludeBody, guarded_of_error ran]
      exact status_ne_failedPrecondition error
    · rw [concludeBody, guarded_of_ok ran]
      intro refused
      cases refused
  · rw [concludeBody]
    split
    · intro refused
      cases refused
    · intro refused
      cases refused

theorem prepare_of_not_refused (serves : ∀ reason, ¬ service.Refuses rpc reason)
    {answer : Answer llama common} (answered : service.prepare peer rpc = .inl answer) :
    answer.1.code ≠ .failedPrecondition := by
  cases rpc with
  | generate entropy request =>
      have generates : ¬ service.config.embeddings = true := fun embeds =>
        serves _ (.generate embeds)
      rw [prepare, if_neg generates] at answered
      cases answered
  | chat entropy rng request =>
      rw [prepare] at answered
      split at answered
      · cases answered
        intro refused
        cases refused
      rename_i nonempty
      have said : request.messages ≠ [] := by simpa using nonempty
      have generates : ¬ service.config.embeddings = true := fun embeds =>
        serves _ (.chat said embeds)
      rw [if_neg generates] at answered
      cases available : service.chatFormat with
      | none => exact absurd (.chatFormat said generates ⟨available, rfl⟩) (serves _)
      | some format =>
          simp only [available] at answered
          split at answered
          · rename_i error failed
            cases answered
            exact status_ne_failedPrecondition error
          · cases answered
  | embed request =>
      rw [prepare] at answered
      split at answered
      · cases answered
        intro refused
        cases refused
      rename_i nonempty
      have given : request.inputs ≠ [] := by simpa using nonempty
      have embeds : ¬ (!service.config.embeddings) = true := fun generates =>
        serves _ (.embed given (by simpa using generates))
      rw [if_neg embeds] at answered
      split at answered
      · rename_i error failed
        cases answered
        exact status_ne_failedPrecondition error
      · cases answered

/-- A handler answers `FAILED_PRECONDITION` to the calls that its service refuses, for the reason
it refuses them, and to no others. -/
theorem handle_refuses_iff (impl : Impl llama) :
    (service.handle peer rpc impl).1 = ⟨.failedPrecondition, reason⟩ ↔
      service.Refuses rpc reason := by
  have handled := service.handle_eq_resume (fun _ : Unit => (peer, rpc)) () impl
  rw [handled]
  constructor
  · intro refused
    by_cases refuses : ∃ other, service.Refuses rpc other
    · obtain ⟨other, refuses⟩ := refuses
      rw [service.prepare_refused refuses] at refused
      cases refused
      exact refuses
    · have code := congrArg Status.code refused
      rcases prepared : service.prepare peer rpc with answer | ⟨control, receiver⟩
      · rw [prepared] at code
        exact absurd code (service.prepare_of_not_refused (not_exists.mp refuses) prepared)
      · rw [prepared] at code
        exact absurd code (concludeBody_ne_failedPrecondition _ _)
  · intro refuses
    rw [service.prepare_refused refuses]
    rfl

section Interleaved

variable {Thread : Type} [DecidableEq Thread] (calls : Thread → Peer × Rpc llama common)

/-- However the calls of a service are interleaved: one is answered with `FAILED_PRECONDITION`
exactly when the service refuses it, and it has then not waited for the engine and its client got
nothing but the reason. -/
theorem answered_refuses_iff {impl : Impl llama} {schedule : List Thread} {thread : Thread}
    {answer : Answer llama common}
    (answered : ((service.system calls).run { shared := impl } schedule).phase thread =
      .answered answer) :
    (answer.1 = ⟨.failedPrecondition, reason⟩ ↔ service.Refuses (calls thread).2 reason) ∧
      (service.Refuses (calls thread).2 reason →
        thread ∉ ((service.system calls).run { shared := impl } schedule).order ∧
        answer.2 = ⟨{}, []⟩) := by
  have found := service.answered_found calls answered
  refine ⟨?_, fun refuses => ⟨fun entered => ?_, ?_⟩⟩
  · rw [found]
    exact service.handle_refuses_iff _
  · obtain ⟨entry, entering⟩ := (service.consistent_run calls impl schedule).entered thread entered
    change service.prepare (calls thread).1 (calls thread).2 = .inr entry at entering
    rw [service.prepare_refused refuses] at entering
    cases entering
  · rw [found, service.handle_eq_resume calls, service.prepare_refused refuses]
    rfl

end Interleaved

end LlamaService

section Assembled

variable (loader : Loader llama registry) (reader : TemplateReader common)

/-- What the reader makes of the template of a model, with the texts of its tokens. -/
structure TemplateReader.Reads (source bosToken eosToken : Bytes)
    (result : Except Foreign common.Templates) : Prop where
  template : reader.template = some source
  nonempty : source ≠ []
  bos : tokenText llama loader.bos = .ok bosToken
  eos : tokenText llama loader.eos = .ok eosToken
  result : reader.templatesInit source bosToken eosToken = result

/-- Why a model that generates has no Chat: it has no template, or the reader complains of it. -/
inductive TemplateReader.Lacks : Bytes → Prop where
  | template (missing : reader.template = none ∨ reader.template = some []) :
      Lacks (literal "the model has no built-in chat template")
  | notParsed {source bosToken eosToken what : Bytes}
      (reads : reader.Reads loader source bosToken eosToken (.error (.standard what))) :
      Lacks (literal "the model's chat template could not be parsed: " ++
        (literal "failed to parse the chat template: " ++ what))

variable {loader reader} {config : EngineConfig} {service : LlamaService common}

/-- A model with a template lacks a Chat only where the reader complains. -/
theorem TemplateReader.lacks_iff {source bosToken eosToken reason : Bytes}
    (template : reader.template = some source) (nonempty : source ≠ [])
    (bos : tokenText llama loader.bos = .ok bosToken)
    (eos : tokenText llama loader.eos = .ok eosToken) :
    reader.Lacks loader reason ↔
      ∃ what, reader.templatesInit source bosToken eosToken = .error (.standard what) ∧
        reason = literal "the model's chat template could not be parsed: " ++
          (literal "failed to parse the chat template: " ++ what) := by
  constructor
  · intro lacks
    cases lacks with
    | template missing => simp [template, nonempty] at missing
    | notParsed reads =>
        obtain ⟨same, _, sameBos, sameEos, result⟩ := reads
        cases template.symm.trans same
        cases bos.symm.trans sameBos
        cases eos.symm.trans sameEos
        exact ⟨_, result, rfl⟩
  · rintro ⟨what, result, rfl⟩
    exact .notParsed ⟨template, nonempty, bos, eos, result⟩

/-- What `main` assembles serves the model that was loaded; where that generates, it has a chat
format, or says what the model lacks. -/
theorem assemble_spec (assembled : assemble loader reader config = some service) :
    service.config = config ∧ (¬ config.embeddings = true → ∀ reason,
      (service.chatFormat = none ∧ reason = service.chatUnavailableReason ↔
        reader.Lacks loader reason)) := by
  rw [assemble] at assembled
  split at assembled
  · rename_i embeds
    cases assembled
    exact ⟨rfl, fun generates => absurd embeds generates⟩
  rcases reading : Engine.chatTemplate loader reader with error | template
  · rw [reading] at assembled
    cases assembled
  rw [reading] at assembled
  obtain ⟨bosToken, bos, reading⟩ := except_bind_eq_ok_iff.mp reading
  obtain ⟨eosToken, eos, reading⟩ := except_bind_eq_ok_iff.mp reading
  cases reading
  dsimp only at assembled
  by_cases missing : reader.template = none ∨ reader.template = some []
  · have blank : (reader.template.getD []).isEmpty = true := by
      obtain missing | missing := missing <;> simp [missing]
    rw [if_pos blank] at assembled
    cases assembled
    refine ⟨rfl, fun _ reason => ⟨?_, fun lacks => ⟨rfl, ?_⟩⟩⟩
    · rintro ⟨_, rfl⟩
      exact .template missing
    · cases lacks with
      | template => rfl
      | notParsed reads => simp [reads.template, reads.nonempty] at missing
  · obtain ⟨source, template, nonempty⟩ : ∃ source, reader.template = some source ∧
        source ≠ [] := by
      cases template : reader.template with
      | none => exact absurd (.inl template) missing
      | some source => exact ⟨source, rfl, fun blank => missing (.inr (blank ▸ template))⟩
    have filled : ¬ source.isEmpty = true := by simpa using nonempty
    have lacks : ∀ reason, reader.Lacks loader reason ↔ _ :=
      fun _ => TemplateReader.lacks_iff template nonempty bos eos
    rw [template, Option.getD_some, if_neg filled] at assembled
    rw [ChatFormat.construct, if_neg filled] at assembled
    rcases result : reader.templatesInit source bosToken eosToken with (what | _) | templates
    · rw [result] at assembled
      cases assembled
      refine ⟨rfl, fun _ reason => ?_⟩
      rw [lacks, result]
      simp
    · rw [result] at assembled
      cases assembled
    · rw [result] at assembled
      cases assembled
      refine ⟨rfl, fun _ reason => ?_⟩
      rw [lacks, result]
      simp

end Assembled

namespace Daemon

variable {parseFloat : Bytes → Option Rat} {loader : Loader llama registry}
  {reader : TemplateReader common} {prepared listened : Option Bytes → Bool} {host : llama.Host}
  {logits : Token → llama.Logit} {arguments : List Bytes} {service : LlamaService common}
  {engine : Construction llama}

/-- A daemon listens once it has read its command line, constructed its engine and assembled its
service. -/
theorem main_listens
    (ran : main parseFloat loader reader prepared listened host logits arguments =
      .listens service engine) :
    ∃ config socket settled, Cli.launch parseFloat arguments = .ok (.serve config socket) ∧
      Engine.construct loader config { host := host, logits := logits } = (.ok settled, engine) ∧
      assemble loader reader settled = some service := by
  rw [main] at ran
  split at ran
  · cases ran
  · rename_i config socket launched
    split at ran
    · split at ran
      · cases ran
      · cases ran
      · rename_i settled constructed built
        split at ran
        · cases ran
        · rename_i assembled
          split at ran
          · cases ran
            exact ⟨config, socket, settled, launched, built, assembled⟩
          · cases ran
    · cases ran
  · cases ran

/-- Whatever a listening daemon has served and however its calls are interleaved: a call is
answered with `FAILED_PRECONDITION` exactly when the model that was loaded cannot serve it, with
the reason; it has then not waited for the engine, and nothing was written to its client. -/
theorem listening_refuses_iff
    (ran : main parseFloat loader reader prepared listened host logits arguments =
      .listens service engine) {Thread : Type} [DecidableEq Thread]
    (calls : Thread → Peer × LlamaService.Rpc llama common) (schedule : List Thread)
    (thread : Thread) (answer : LlamaService.Answer llama common)
    (answered : ((service.system calls).run { shared := engine.impl } schedule).phase thread =
      .answered answer) :
    ∃ opened, engine.context = some opened ∧ ∀ reason,
      (answer.1 = ⟨.failedPrecondition, reason⟩ ↔
        Unavailable (opened.shape.pooling ≠ .none) (reader.Lacks loader) (calls thread).2 reason) ∧
      (answer.1 = ⟨.failedPrecondition, reason⟩ →
        thread ∉ ((service.system calls).run { shared := engine.impl } schedule).order ∧
        answer.2 = ⟨{}, []⟩) := by
  obtain ⟨config, socket, settled, launched, constructed, assembled⟩ := main_listens ran
  obtain ⟨_, _, opened, same, _, _, _, pools, _⟩ := Engine.construct_opens constructed
  obtain ⟨rfl, lacks⟩ := assemble_spec assembled
  refine ⟨opened, same, fun reason => ?_⟩
  obtain ⟨refuses, quiet⟩ := @LlamaService.answered_refuses_iff _ _ service reason _ _ calls _ _ _ _
    answered
  refine ⟨refuses.trans ?_, fun refused => quiet (refuses.mp refused)⟩
  exact Unavailable.congr pools lacks

/-- A model without a template. -/
def templateless : TemplateReader Common.silent := ⟨none, fun _ _ _ => .ok (), fun _ => []⟩

/-- A daemon over an embedding model refuses a Generate. -/
theorem listening_refuses_iff_pooling :
    ∃ service engine answer,
      main (fun _ => none) Loader.pooling templateless (fun _ => true) (fun _ => true) ()
        (fun _ => (0 : Int)) [literal "--model", [0x6D]] = .listens service engine ∧
      ((service.system fun _ : Unit => (Peer.patient, .generate () { prompt := [0x61] })).run
        { shared := engine.impl } [()]).phase () = .answered answer ∧
      answer.1 = ⟨.failedPrecondition, kEmbeddingModel⟩ := by
  have ran : main (fun _ => none) Loader.pooling templateless (fun _ => true) (fun _ => true) ()
      (fun _ => (0 : Int)) [literal "--model", [0x6D]] =
        .listens { config := .pooling, chatFormat := none } Engine.pooling.2 := by
    unfold main
    rw [Cli.launch_model]
    rfl
  refine ⟨_, _, (⟨.failedPrecondition, kEmbeddingModel⟩, ⟨{}, []⟩), ran, rfl, ?_⟩
  obtain ⟨opened, same, refuses⟩ := listening_refuses_iff ran
    (fun _ : Unit => (Peer.patient, .generate () { prompt := [0x61] })) [()] ()
    (⟨.failedPrecondition, kEmbeddingModel⟩, ⟨{}, []⟩) rfl
  cases same
  exact (refuses _).1.mpr (.generate (by decide))

end Daemon

end Llamad
