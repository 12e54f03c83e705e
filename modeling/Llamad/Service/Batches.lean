import Llamad.Engine.Budgets
import Llamad.Engine.Loading
import Llamad.Service.Statelessness

/-!
# What a daemon decodes

The batches that llama.cpp is given over the life of a daemon: from the model it loaded,
whatever that reported about its context, to any interleaving of any calls. None is empty and
none is larger than the context takes; an input to embed also fits what the model was
trained on.
-/

namespace Llamad

open Logical Semantics Program Session

variable {llama : Llama} {Client : Type} {config : EngineConfig} {limit : Nat}

/-- No batch of the request that runs is empty, and none is larger than this. -/
def Impl.Sized (limit : Nat) (impl : Impl llama) : Prop :=
  ∀ batch ∈ batches impl.log, batch ≠ [] ∧ batch.length ≤ limit

namespace Impl.Sized

variable {impl other : Impl llama}

theorem unlogged (impl : Impl llama) : Impl.Sized limit { impl with log := [] } := by
  simp [Impl.Sized, batches]

/-- A step that decodes nothing adds no batch. -/
theorem record (sized : impl.Sized limit) (same : other.log = impl.log) {step : Step llama}
    (silent : step.batch? = none) : (Impl.record step other).Sized limit := by
  simpa [Impl.Sized, Impl.record, batches, silent, same] using sized

theorem emptied (sized : impl.Sized limit) (host : llama.Host) :
    (Impl.emptied host impl).Sized limit :=
  sized.record (by rfl) (by rfl)

/-- A batch that is neither empty nor too large may be decoded. -/
theorem decoded (sized : impl.Sized limit) (same : other.log = impl.log) {batch : List Token}
    (full : batch ≠ []) (fits : batch.length ≤ limit) (answer : Decoded llama.Logit) :
    (Impl.record (.decoded batch answer) other).Sized limit := by
  intro found member
  rw [Impl.record, same, batches_append, List.mem_append] at member
  obtain earlier | here := member
  · exact sized found earlier
  · simp only [batches, List.filterMap_cons, Step.batch?, List.filterMap_nil,
      List.mem_singleton] at here
    exact here ▸ ⟨full, fits⟩

theorem keepPrefix (prompt : List Token) :
    Preserves (Impl.Sized limit : Impl llama → Prop) (Impl.keepPrefix prompt) := by
  intro impl sized
  obtain ⟨host, ran⟩ | ⟨host, _, _, ran⟩ := Impl.keepPrefix_cases prompt impl
  · rw [ran]
    exact (sized.emptied host).record (by rfl) (by rfl)
  · rw [ran]
    exact sized.record (by rfl) (by rfl)

theorem decode {batch : List Token} (full : batch ≠ []) (fits : batch.length ≤ limit) :
    Preserves (Impl.Sized limit : Impl llama → Prop) (Impl.decode batch) := by
  intro impl sized
  obtain ⟨host, _, _, _, ran⟩ | ⟨host, _, _, _, _, ran⟩ | ⟨host, _, _, _, ran⟩ :=
    Impl.decode_cases batch impl
  · rw [ran]
    exact sized.decoded (by rfl) full fits _
  · rw [ran]
    exact (sized.emptied host).decoded rfl full fits _
  · rw [ran]
    exact (sized.emptied host).decoded rfl full fits _

theorem promptRound (tokens : List Token) (off : Nat) :
    Preserves (Impl.Sized config.nBatch : Impl llama → Prop) (promptRound config tokens off) := by
  have positive := config.nBatch_pos
  by_cases inside : off < tokens.length
  · rw [Llamad.promptRound, if_pos inside]
    have length : (promptBatch config tokens off).length =
        min config.nBatch (tokens.length - off) := promptBatch_length
    have full : promptBatch config tokens off ≠ [] := by
      rw [← List.length_pos_iff, length]
      omega
    have fits : (promptBatch config tokens off).length ≤ config.nBatch := by omega
    exact .bind (decode full fits) fun ret => .bind .throwIf fun _ => .pure
  · rw [Llamad.promptRound, if_neg inside]
    exact .pure

theorem draw (sampler : SamplerChain llama) :
    Preserves (Impl.Sized limit : Impl llama → Prop) (draw sampler) := by
  refine .bind .get fun impl => .bind .attempt fun drawn => ?_
  exact .bind (.modify fun state sized => sized.record rfl rfl) fun _ => .pure

theorem decodeNext (token : Token) :
    Preserves (Impl.Sized config.nBatch : Impl llama → Prop) (decodeNext config token) := by
  have single : [token].length ≤ config.nBatch := config.nBatch_pos
  refine .bind .get fun impl => .ite .pure ?_
  exact .bind (decode (List.cons_ne_nil _ _) single) fun ret => .ite .pure (.ite .pure .throw)

/-- A generation decodes batches of the context's size. -/
theorem generateStep (request : Request llama Client) (control : GenerateControl llama) :
    Preserves (fun session => session.impl.Sized config.nBatch)
      (Llamad.generateStep config request control) :=
  generateStep_preserves (fun impl _ => unlogged impl) keepPrefix promptRound draw decodeNext
    control

/-- An input is decoded in one batch. -/
theorem pool {tokens : List Token} (full : tokens ≠ []) (fits : tokens.length ≤ limit) :
    Preserves (Impl.Sized limit : Impl llama → Prop) (Impl.pool tokens) := by
  refine .bind (.modify fun impl sized => Impl.Sized.record sized (by rfl) (by rfl)) fun _ =>
    .bind .get fun impl => ?_
  rcases llama.decode impl.context.host impl.context.memory tokens with ⟨answer, host⟩
  have recorded (answer : Decoded llama.Logit) :
      Preserves (Impl.Sized limit : Impl llama → Prop)
        (modify (Impl.record (.decoded tokens answer)) : Program _ Exception _) :=
    .modify fun impl sized => sized.decoded rfl full fits answer
  cases answer with
  | done evicted logits =>
      refine .bind (.modify fun impl sized => sized) fun _ => .bind (recorded _) fun _ => ?_
      cases llama.embeddingsSeq host with
      | none => exact .throw
      | some pooled => exact .pure
  | code ret nonzero leftover =>
      exact .bind (.modify fun impl sized => sized) fun _ => .bind (recorded _) fun _ => .throw
  | threw error leftover =>
      exact .bind (.modify fun impl sized => sized) fun _ => .bind (recorded _) fun _ => .throw

end Impl.Sized

/-- The inputs an embedding still has to decode. -/
def EmbedControl.inputs : EmbedControl llama → List (List Token)
  | .entering tokenized => tokenized
  | .asking tokenized _ => tokenized
  | .pooling tokens rest _ => tokens :: rest

variable (config) in
/-- Every input is one that a decode takes. -/
def EmbedControl.Measured (control : EmbedControl llama) : Prop :=
  ∀ tokens ∈ control.inputs, tokens ≠ [] ∧ tokens.length ≤ config.maxEmbedTokens

theorem goOn_preserves (holds : Impl llama → Prop) (keepGoing : KeepGoing Client) :
    Preserves (fun session : Session llama Client => holds session.impl) (goOn keepGoing) := by
  cases keepGoing with
  | none => exact .pure
  | some ask => exact onClient_preserves holds ask

/-- An embedding decodes inputs that were measured. -/
theorem Impl.Sized.embedStep {keepGoing : KeepGoing Client} {control : EmbedControl llama}
    (measured : control.Measured config) :
    Preserves (fun session => session.impl.Sized config.maxEmbedTokens)
      (embedStep keepGoing control) := by
  cases control with
  | entering tokenized =>
      exact .bind (.zoom (.modify fun impl _ => unlogged impl) fun _ _ => rfl) fun _ => .pure
  | asking tokenized result =>
      cases tokenized with
      | nil => exact .pure
      | cons tokens rest => exact .bind (goOn_preserves _ keepGoing) fun going => .ite .pure .pure
  | pooling tokens rest result =>
      obtain ⟨full, fits⟩ := measured tokens List.mem_cons_self
      exact .bind (.zoom (pool full fits) fun _ _ => rfl) fun embedding => .pure

/-- The inputs that are left are among those there were. -/
theorem EmbedControl.Measured.step {keepGoing : KeepGoing Client}
    {control next : EmbedControl llama} {session after : Session llama Client}
    (measured : control.Measured config)
    (stepped : embedStep keepGoing control session = (.ok (.inl next), after)) :
    next.Measured config := by
  cases control with
  | entering tokenized =>
      obtain ⟨_, _, _, ends⟩ := bind_eq_ok_iff.mp stepped
      cases ends
      exact measured
  | asking tokenized result =>
      cases tokenized with
      | nil => cases stepped
      | cons tokens rest =>
          obtain ⟨going, _, _, ends⟩ := bind_eq_ok_iff.mp stepped
          cases going with
          | true =>
              cases ends
              exact measured
          | false => cases ends
  | pooling tokens rest result =>
      obtain ⟨_, _, _, ends⟩ := bind_eq_ok_iff.mp stepped
      cases ends
      exact fun other member => measured other (List.mem_cons_of_mem _ member)

namespace LlamaService

variable {common : Common} (service : LlamaService common)

/-- The largest batch that llama.cpp is given. -/
def batchLimit : Nat :=
  if service.config.embeddings then service.config.maxEmbedTokens else service.config.nBatch

/-- What a call may be doing, with an engine that generates and with one that embeds. -/
def Allowed : Control llama common → Prop
  | .generating _ _ => service.config.embeddings = false
  | .embedding _ control => service.config.embeddings = true ∧ control.Measured service.config

variable {service} {Thread : Type} (calls : Thread → Peer × Rpc llama common)

/-- The engine of a service that embeds is only asked to embed inputs that it measured. -/
theorem prepare_embedding (embeds : service.config.embeddings = true) {peer : Peer}
    {rpc : Rpc llama common} {control : Control llama common}
    {receiver : Receiver (Call llama common)}
    (prepared : service.prepare peer rpc = .inr (control, receiver)) :
    ∃ request tokenized, control = .embedding request (.entering tokenized) ∧
      (EmbedControl.entering tokenized : EmbedControl llama).Measured service.config := by
  cases rpc with
  | generate entropy request =>
      simp only [prepare, embeds, if_true] at prepared
      cases prepared
  | chat entropy rng request =>
      simp only [prepare, embeds, if_true] at prepared
      split at prepared
      · cases prepared
      · cases prepared
  | embed request =>
      simp only [prepare, embeds, Bool.not_true, Bool.false_eq_true, if_false] at prepared
      split at prepared
      · cases prepared
      split at prepared
      · cases prepared
      · rename_i tokenized measured
        cases prepared
        refine ⟨request, tokenized, rfl, fun tokens member => ?_⟩
        obtain ⟨fits, rfl⟩ := measure_eq_ok_iff.mp measured
        obtain ⟨input, present, rfl⟩ := List.mem_map.mp member
        exact ⟨(fits input present).nonempty, (fits input present).within⟩

/-- Every step of every call decodes only batches that fit. -/
theorem keeps_sized :
    (service.system calls).Keeps (Impl.Sized service.batchLimit)
      fun _ control => service.Allowed control where
  starts := by
    intro thread control own prepared
    cases kind : service.config.embeddings with
    | false =>
        obtain ⟨request, rfl, _⟩ := prepare_generating kind prepared
        exact kind
    | true =>
        obtain ⟨request, tokenized, rfl, measured⟩ := prepare_embedding kind prepared
        exact ⟨kind, measured⟩
  steps := by
    intro thread control impl receiver allowed sized
    cases control with
    | generating request place =>
        have generates : service.config.embeddings = false := allowed
        have limit : service.batchLimit = service.config.nBatch := if_neg (by simp [generates])
        rw [limit] at sized ⊢
        exact (Preserves.bind (Impl.Sized.generateStep request place) (fun _ => .pure)
          ⟨impl, receiver⟩ sized).final
    | embedding request place =>
        obtain ⟨embeds, measured⟩ := allowed
        have limit : service.batchLimit = service.config.maxEmbedTokens := if_pos embeds
        rw [limit] at sized ⊢
        exact (Preserves.bind (Impl.Sized.embedStep measured) (fun _ => .pure)
          ⟨impl, receiver⟩ sized).final
  stays := by
    intro thread control next state after allowed stepped
    cases control with
    | generating request place =>
        obtain ⟨result, _, _, ends⟩ := bind_eq_ok_iff.mp stepped
        cases result with
        | inl place =>
            cases ends
            exact allowed
        | inr result => cases ends
    | embedding request place =>
        obtain ⟨result, _, ran, ends⟩ := bind_eq_ok_iff.mp stepped
        cases result with
        | inl place =>
            cases ends
            exact ⟨allowed.1, allowed.2.step ran⟩
        | inr result => cases ends

variable [DecidableEq Thread]

/-- From the construction of the engine on, whatever llama.cpp reported about the context, and
under every interleaving of the calls of a service: no batch that a call decodes is empty. A
batch of a generation is no larger than the context's batch; an input to embed fits the
micro-batch and the context, and what the model was trained on. -/
theorem loaded_batches {registry : Registry} {loader : Loader llama registry}
    {config : LoadConfig} {host : llama.Host} {logits : Token → llama.Logit}
    {state : Construction llama}
    (constructed : Engine.construct loader config { host := host, logits := logits } =
      (.ok service.config, state)) (schedule : List Thread) :
    ∃ opened, state.context = some opened ∧
      ∀ batch ∈ batches ((service.system calls).run { shared := state.impl } schedule).shared.log,
        batch ≠ [] ∧
        (opened.shape.pooling = .none → batch.length ≤ opened.shape.nBatch) ∧
        (opened.shape.pooling ≠ .none → batch.length ≤ opened.shape.nUbatch ∧
          batch.length ≤ opened.shape.nCtxSeq ∧
          (0 < loader.nCtxTrain → batch.length ≤ loader.nCtxTrain)) := by
  obtain ⟨_, _, opened, same, _, nBatch, _, kind, limits⟩ := Engine.construct_opens constructed
  have started : (Impl.Sized service.batchLimit state.impl) := by
    simp [Impl.Sized, Construction.impl, batches]
  have sized : ((service.system calls).run { shared := state.impl } schedule).shared.Sized
      service.batchLimit :=
    ((keeps_sized calls).run ⟨started, by rintro _ _ ⟨⟩⟩ schedule).shared
  refine ⟨opened, same, fun batch member => ?_⟩
  obtain ⟨full, fits⟩ := sized batch member
  refine ⟨full, fun generates => ?_, fun pools => ?_⟩
  · have generating : ¬ service.config.embeddings = true := fun embeds => kind.mp embeds generates
    rwa [batchLimit, if_neg generating, nBatch] at fits
  · obtain ⟨_, inMicroBatch, inContext, inTraining⟩ := limits (kind.mpr pools)
    rw [batchLimit, if_pos (kind.mpr pools)] at fits
    exact ⟨fits.trans inMicroBatch, fits.trans inContext,
      fun trained => (Int.ofNat_le.mpr fits).trans (inTraining trained)⟩

/-- A service over an embedding model that was loaded. -/
abbrev pooling : LlamaService Common.silent := { config := .pooling, chatFormat := none }

/-- It embeds an input of two tokens. -/
theorem loaded_batches_pooling :
    ∃ opened, Engine.pooling.2.context = some opened ∧
      ∀ batch ∈ batches ((pooling.system fun _ : Unit =>
          (Peer.patient, .embed { inputs := [literal "ab"] })).run
            { shared := Engine.pooling.2.impl } [(), (), (), ()]).shared.log,
        batch ≠ [] ∧ batch.length ≤ opened.shape.nUbatch ∧ batch.length ≤ 64 := by
  obtain ⟨opened, same, fits⟩ := pooling.loaded_batches (fun _ : Unit =>
    (Peer.patient, .embed { inputs := [literal "ab"] })) Engine.pooling_eq [(), (), (), ()]
  refine ⟨opened, same, fun batch member => ?_⟩
  cases same
  obtain ⟨full, _, embeds⟩ := fits batch member
  obtain ⟨inMicroBatch, _, inTraining⟩ := embeds (by decide)
  exact ⟨full, inMicroBatch, Int.ofNat_le.mp (inTraining (by decide))⟩

end LlamaService

end Llamad
