import Llamad.Engine.Devices
import Llamad.Engine.EmbedAlone
import Llamad.Semantics.Ownership

/-!
# Loading a model

The constructor of an engine over a llama.cpp that may refuse anything it is asked for. It
fills in the model and the context of `Engine::Impl` one after the other, and what it has
filled in is released when it throws. The record of a construction says which pointers were
gained, used and freed.
-/

namespace Llamad

open Logical Semantics Program

/-- A pointer, `none` the null pointer. No address is given out twice. -/
abbrev Pointer := Option Nat

/-- What `llama_model_load_from_file` is asked for. -/
structure ModelParams (registry : Registry) where
  nGpuLayers : Int
  devices : Option (List registry.Device)
  tensorSplit : Option (List Rat)

/-- What `llama_init_from_model` is asked for. -/
structure ContextParams where
  nCtx : Nat
  nBatch : Nat
  nUbatch : Nat
  nOutputsMax : Nat
  nThreads : Int
  nThreadsBatch : Int
  noPerf : Bool
deriving DecidableEq

/-- `llama_pooling_type`. -/
inductive PoolingType where
  | unspecified | none | mean | cls | last | rank
deriving DecidableEq, Repr

/-- What a context reports about itself. -/
structure ContextShape where
  nCtxSeq : Nat
  nBatch : Nat
  nUbatch : Nat
  pooling : PoolingType
deriving DecidableEq

/-- A context, and what it was created with. -/
structure OpenContext where
  address : Nat
  params : ContextParams
  shape : ContextShape
deriving DecidableEq

/-- llama.cpp while it loads the model of a path. -/
structure Loader (llama : Llama) (registry : Registry) where
  modelDefaultParams : ModelParams registry
  contextDefaultParams : ContextParams
  /-- `std::thread::hardware_concurrency()`, zero where it is not known. -/
  hardwareConcurrency : Nat
  /-- `llama_model_load_from_file`: whether it returned a model. -/
  loadModel : llama.Host → Bytes → ModelParams registry → Bool × llama.Host
  hasVocab : Bool
  nCtxTrain : Int
  bos : Option Token
  eos : Option Token
  initFromModel : llama.Host → ContextParams → Option ContextShape × llama.Host
  setEmbeddings : llama.Host → llama.Host
  freeContext : llama.Host → llama.Host
  freeModel : llama.Host → llama.Host

/-- What ends a construction: a check of it, or an exception from llama.cpp. -/
inductive LoadFailure where
  | engine (error : LoadError)
  | foreign (error : Foreign)
deriving DecidableEq

/-- `Engine::Impl` while it is filled in. -/
structure Construction (llama : Llama) where
  host : llama.Host
  memory : Memory := {}
  logits : Token → llama.Logit
  model : Pointer := none
  context : Option OpenContext := none
  /-- What was done with pointers so far. -/
  record : List (Act Pointer) := []
  /-- The next address. -/
  fresh : Nat := 0

section Requests

variable {llama : Llama} {registry : Registry} (loader : Loader llama registry)
  (config : LoadConfig)

/-- The parameters of the model: devices only when the caller named some. -/
def modelParams (offload : List registry.Device) (tensorSplit : List Rat) :
    ModelParams registry :=
  { nGpuLayers := config.nGpuLayers
    devices :=
      if config.devices.isEmpty then loader.modelDefaultParams.devices else some offload
    tensorSplit :=
      if tensorSplit.isEmpty then loader.modelDefaultParams.tensorSplit else some tensorSplit }

/-- How many hardware threads there are, at least one. -/
def Loader.hardware : Int := max 1 loader.hardwareConcurrency

/-- llama.cpp's defaults, with half the hardware threads for a generation and all of them
for a prompt unless a number is given. -/
def contextParams : ContextParams :=
  { loader.contextDefaultParams with
    nCtx := config.nCtx
    noPerf := true
    nThreads := if 0 < config.nThreads then config.nThreads else max 1 (loader.hardware / 2)
    nThreadsBatch := if 0 < config.nThreads then config.nThreads else loader.hardware }

/-- The same, shaped for generations: one output, and a micro-batch as large as the batch. -/
def generationParams : ContextParams :=
  { contextParams loader config with
    nOutputsMax := 1
    nUbatch := (contextParams loader config).nBatch }

/-- The most tokens one input may have: what the micro-batch, the context and the training of
the model leave room for. -/
def maxEmbedTokens (shape : ContextShape) : Nat :=
  let fitting := min shape.nUbatch shape.nCtxSeq
  if 0 < loader.nCtxTrain then min fitting loader.nCtxTrain.toNat else fitting

end Requests

namespace Construction

variable {llama : Llama} {registry : Registry}

/-- The context's pointer. -/
def contextPointer (state : Construction llama) : Pointer :=
  state.context.map OpenContext.address

/-- Something is done with a pointer. -/
def act (act : Act Pointer) (state : Construction llama) : Construction llama :=
  { state with record := state.record ++ [act] }

/-- A model that was loaded. -/
def gainModel (host : llama.Host) (state : Construction llama) : Construction llama :=
  { state.act (.gain (some state.fresh) none) with
    host := host
    model := some state.fresh
    fresh := state.fresh + 1 }

/-- A context that was created from the model. -/
def gainContext (host : llama.Host) (params : ContextParams) (shape : ContextShape)
    (state : Construction llama) : Construction llama :=
  { state.act (.gain (some state.fresh) (some state.model)) with
    host := host
    memory := {}
    context := some ⟨state.fresh, params, shape⟩
    fresh := state.fresh + 1 }

variable (loader : Loader llama registry)

/-- `llama_free(ctx)`. -/
def dropContext (state : Construction llama) : Construction llama :=
  { state.act (.free state.contextPointer) with
    host := loader.freeContext state.host
    context := none }

/-- `llama_model_free(model)`. -/
def dropModel (state : Construction llama) : Construction llama :=
  { state.act (.free state.model) with
    host := loader.freeModel state.host
    model := none }

/-- `~Impl`: the context before the model it borrows. -/
def destroy (state : Construction llama) : Construction llama :=
  let closed := if state.context.isSome then state.dropContext loader else state
  if closed.model.isSome then closed.dropModel loader else closed

/-- The part of a constructed engine that generations change. -/
def impl (state : Construction llama) : Impl llama :=
  { context := ⟨state.host, state.memory, state.logits⟩ }

end Construction

namespace Engine

variable {llama : Llama} {registry : Registry} (loader : Loader llama registry)
  (config : LoadConfig)

/-- The model is used. -/
def useModel : Program (Construction llama) LoadFailure Unit :=
  modify fun state => state.act (.use state.model)

/-- The context is used. -/
def useContext : Program (Construction llama) LoadFailure Unit :=
  modify fun state => state.act (.use state.contextPointer)

/-- The model of the path, loaded to the devices, and its vocabulary. -/
def openModel (offload : List registry.Device) (tensorSplit : List Rat) :
    Program (Construction llama) LoadFailure Unit := do
  let state ← get
  match loader.loadModel state.host config.modelPath
      (modelParams loader config offload tensorSplit) with
  | (false, host) => do
      modify fun state => { state with host := host }
      throw (.engine (.modelUnloadable config.modelPath))
  | (true, host) => do
      modify (Construction.gainModel host)
      useModel
      throwIf (¬ loader.hasVocab) (.engine (.noVocabulary config.modelPath))

/-- `impl_->ctx = llama_init_from_model(impl_->model, params)`. -/
def initContext (params : ContextParams) : Program (Construction llama) LoadFailure Unit := do
  useModel
  let state ← get
  match loader.initFromModel state.host params with
  | (none, host) => modify fun state => { state with host := host }
  | (some shape, host) => modify (Construction.gainContext host params shape)

/-- A context that pools is given up. -/
def closePooling : Program (Construction llama) LoadFailure Unit := do
  let state ← get
  match state.context with
  | none => pure ()
  | some opened => do
      useContext
      if opened.shape.pooling ≠ .none then modify (Construction.dropContext loader)

/-- Where there is no context, one with llama.cpp's defaults. -/
def initDefault : Program (Construction llama) LoadFailure Unit := do
  let state ← get
  if state.context.isNone then initContext loader (contextParams loader config)

/-- A context shaped for generations, or one with llama.cpp's defaults where that cannot be had
or pools. -/
def openContext : Program (Construction llama) LoadFailure OpenContext := do
  initContext loader (generationParams loader config)
  closePooling loader
  initDefault loader config
  let state ← get
  match state.context with
  | none => throw (.engine (.noContext config.modelPath))
  | some opened => return opened

/-- What the context reports, unless it has no room or the model is a reranker. -/
def settle (opened : OpenContext) : Program (Construction llama) LoadFailure EngineConfig := do
  useContext
  if room : 0 < opened.shape.nCtxSeq ∧ 0 < opened.shape.nBatch then
    useContext
    throwIf (opened.shape.pooling = .rank) (.engine (.reranker config.modelPath))
    if opened.shape.pooling = .none then
      return {
        nCtxSeq := opened.shape.nCtxSeq
        nBatch := opened.shape.nBatch
        embeddings := false
        maxEmbedTokens := 0
        nCtxSeq_pos := room.1
        nBatch_pos := room.2 }
    else
      useContext
      modify fun state => { state with host := loader.setEmbeddings state.host }
      useModel
      return {
        nCtxSeq := opened.shape.nCtxSeq
        nBatch := opened.shape.nBatch
        embeddings := true
        maxEmbedTokens := maxEmbedTokens loader opened.shape
        nCtxSeq_pos := room.1
        nBatch_pos := room.2 }
  else throw (.engine .zeroContext)

/-- A decode whose answer is not looked at. -/
def warmDecode (batch : List Token) : Program (Construction llama) LoadFailure Unit := do
  useContext
  let state ← get
  match llama.decode state.host state.memory batch with
  | (.done evicted logits, host) =>
      modify fun state =>
        { state with host := host, memory := state.memory.extend batch evicted, logits := logits }
  | (.code _ _ leftover, host) =>
      modify fun state => { state with host := host, memory := leftover }
  | (.threw error leftover, host) => do
      modify fun state => { state with host := host, memory := leftover }
      throw (.foreign error)

/-- A small batch and a single token are decoded and forgotten. -/
def warmUp (settled : EngineConfig) : Program (Construction llama) LoadFailure Unit := do
  useModel
  match loader.bos.or loader.eos with
  | none => pure ()
  | some warm => do
      warmDecode (List.replicate (min 32 settled.nBatch) warm)
      warmDecode [warm]
      useContext
      modify fun state => { state with memory := {} }

/-- The constructor of an engine. -/
def construct : Program (Construction llama) LoadFailure EngineConfig := do
  throwIf (config.modelPath = []) (.engine .noModelPath)
  let offload ← attempt ((selectOffloadDevices config (allDevices registry)).mapError .engine)
  let tensorSplit ← attempt
    ((paddedTensorSplit config offload.length registry.maxDevices).mapError .engine)
  openModel loader config offload tensorSplit
  let opened ← openContext loader config
  let settled ← settle loader config opened
  warmUp loader settled
  return settled

/-- What a method of an engine touches. -/
inductive Touch where
  | model | context
deriving DecidableEq, Repr

/-- A method touches the model, with the vocabulary that is part of it, or the context. -/
def Touch.apply (state : Construction llama) : Touch → Construction llama
  | .model => state.act (.use state.model)
  | .context => state.act (.use state.contextPointer)

/-- An engine from its construction to its end, with whatever its methods touch in between. -/
def lifetime (touches : List Touch) (state : Construction llama) :
    Except LoadFailure EngineConfig × Construction llama :=
  match construct loader config state with
  | (.ok settled, state) => (.ok settled, (touches.foldl Touch.apply state).destroy loader)
  | (.error error, state) => (.error error, state.destroy loader)

end Engine

namespace Construction

variable {llama : Llama} {registry : Registry} {loader : Loader llama registry}
  {state : Construction llama} {address : Nat} {model : Pointer} {context : Option OpenContext}
  {opened : OpenContext}

/-- The pointers that are alive in an engine that holds this model and this context. -/
def ledger (model : Pointer) (context : Option OpenContext) : Ledger Pointer :=
  (context.toList.map fun opened => (some opened.address, some model)) ++
    if model.isSome then [(model, none)] else []

/-- The engine holds exactly this model and this context, and they are all that is alive. -/
structure Owned (model : Pointer) (context : Option OpenContext) (state : Construction llama) :
    Prop where
  model_eq : state.model = model
  context_eq : state.context = context
  alive : Alive state.record (ledger model context)
  below : ∀ pointer ∈ Act.gained state.record, ∃ address < state.fresh, pointer = some address

namespace Owned

theorem start (host : llama.Host) (logits : Token → llama.Logit) :
    Owned none none { host := host, logits := logits } :=
  ⟨rfl, rfl, .start, by simp⟩

theorem fresh (owned : state.Owned model context) :
    some state.fresh ∉ Act.gained state.record := by
  intro member
  obtain ⟨address, below, same⟩ := owned.below _ member
  cases same
  exact Nat.lt_irrefl _ below

/-- The address that is gained is the next one. -/
theorem below_gain (owned : state.Owned model context) {lender : Option Pointer}
    {pointer : Pointer}
    (member : pointer ∈ Act.gained (state.record ++ [.gain (some state.fresh) lender])) :
    ∃ address < state.fresh + 1, pointer = some address := by
  rw [Act.gained_append, Act.gained_gain, List.mem_append, List.mem_singleton] at member
  obtain earlier | rfl := member
  · obtain ⟨address, below, same⟩ := owned.below pointer earlier
    exact ⟨address, Nat.lt_succ_of_lt below, same⟩
  · exact ⟨state.fresh, Nat.lt_succ_self _, rfl⟩

/-- A pointer that is alive may be used. -/
theorem use {pointer : Pointer} (owned : state.Owned model context)
    (held : pointer ∈ (ledger model context).map Prod.fst) :
    (state.act (.use pointer)).Owned model context :=
  ⟨owned.model_eq, owned.context_eq, owned.alive.use held, by simpa [act] using owned.below⟩

theorem useModel (owned : state.Owned (some address) context) :
    (state.act (.use state.model)).Owned (some address) context := by
  refine owned.use ?_
  rw [owned.model_eq, ledger]
  simp

theorem useContext (owned : state.Owned model (some opened)) :
    (state.act (.use state.contextPointer)).Owned model (some opened) := by
  refine owned.use ?_
  rw [contextPointer, owned.context_eq, ledger]
  simp

theorem gainModel (owned : state.Owned none none) (host : llama.Host) :
    (state.gainModel host).Owned (some state.fresh) none :=
  ⟨rfl, owned.context_eq, owned.alive.gain owned.fresh (by simp), fun _ => owned.below_gain⟩

theorem gainContext (owned : state.Owned (some address) none) (host : llama.Host)
    (params : ContextParams) (shape : ContextShape) :
    (state.gainContext host params shape).Owned (some address)
      (some ⟨state.fresh, params, shape⟩) := by
  refine ⟨owned.model_eq, rfl, ?_, fun _ => owned.below_gain⟩
  have lent : ∀ owner ∈ some (some address), owner ∈ (ledger (some address) none).map Prod.fst := by
    simp [ledger]
  rw [Construction.gainContext, owned.model_eq]
  exact owned.alive.gain owned.fresh lent

theorem dropContext (owned : state.Owned (some address) (some opened)) :
    (state.dropContext loader).Owned (some address) none := by
  have apart : opened.address ≠ address := by
    simpa [ledger] using owned.alive.keys_nodup
  have held : some opened.address ∈ (ledger (some address) (some opened)).map Prod.fst := by
    simp [ledger]
  have idle : some (some opened.address) ∉ (ledger (some address) (some opened)).map Prod.snd := by
    simp [ledger, apart]
  refine ⟨owned.model_eq, rfl, ?_, by simpa [Construction.dropContext, act] using owned.below⟩
  simpa [Construction.dropContext, act, contextPointer, owned.context_eq, ledger, apart.symm]
    using owned.alive.free held idle

theorem dropModel (owned : state.Owned (some address) none) :
    (state.dropModel loader).Owned none none := by
  have held : some address ∈ (ledger (some address) none).map Prod.fst := by simp [ledger]
  have idle : some (some address) ∉ (ledger (some address) none).map Prod.snd := by simp [ledger]
  refine ⟨rfl, owned.context_eq, ?_, by simpa [Construction.dropModel, act] using owned.below⟩
  simpa [Construction.dropModel, act, owned.model_eq, ledger] using owned.alive.free held idle

/-- What the record and the pointers do not depend on may change. -/
theorem congr {other : Construction llama} (owned : state.Owned model context)
    (sameModel : other.model = state.model) (sameContext : other.context = state.context)
    (sameRecord : other.record = state.record) (sameFresh : other.fresh = state.fresh) :
    other.Owned model context := by
  refine ⟨sameModel.trans owned.model_eq, sameContext.trans owned.context_eq, ?_, ?_⟩
  · rw [sameRecord]
    exact owned.alive
  · rw [sameRecord, sameFresh]
    exact owned.below

/-- The destructor leaves nothing. -/
theorem destroy (owned : state.Owned model context) (based : context.isSome → model.isSome) :
    (state.destroy loader).Owned none none := by
  have close {state : Construction llama} {model : Pointer} (owned : state.Owned model none) :
      (if state.model.isSome then state.dropModel loader else state).Owned none none := by
    rw [owned.model_eq]
    cases model with
    | none => exact owned
    | some address => exact owned.dropModel
  rw [Construction.destroy, owned.context_eq]
  cases context with
  | none => exact close owned
  | some opened =>
      obtain ⟨address, rfl⟩ := Option.isSome_iff_exists.mp (based rfl)
      exact close owned.dropContext

end Owned

end Construction

namespace Engine

open Construction

variable {llama : Llama} {registry : Registry} {loader : Loader llama registry}
  {config : LoadConfig} {opened : OpenContext} {address : Nat}
  {fail : LoadFailure → Construction llama → Prop}

/-- A model is held, and with it at most a context of this kind that holds nothing yet. -/
def Holding (address : Nat) (kind : OpenContext → Prop) (state : Construction llama) : Prop :=
  ∃ context, state.Owned (some address) context ∧
    ∀ opened ∈ context, kind opened ∧ state.memory = {}

/-- A model and a context are held, and the context holds nothing. -/
structure Ready (address : Nat) (opened : OpenContext) (state : Construction llama) : Prop where
  owned : state.Owned (some address) (some opened)
  memory_eq : state.memory = {}

/-- A context is shaped for generations and does not pool, or it has llama.cpp's defaults. -/
def Chosen (loader : Loader llama registry) (config : LoadConfig) (opened : OpenContext) : Prop :=
  opened.params = generationParams loader config ∧ opened.shape.pooling = .none ∨
    opened.params = contextParams loader config

theorem openModel_spec (offload : List registry.Device) (tensorSplit : List Rat) :
    Triple (Owned none none) (openModel loader config offload tensorSplit)
      (fun _ state => ∃ address, state.Owned (some address) none)
      (fun _ state => ∃ model, state.Owned model none) := by
  intro state owned
  rw [openModel, bind_of_ok (get_apply state)]
  rcases loader.loadModel state.host config.modelPath
      (modelParams loader config offload tensorSplit) with ⟨loaded, host⟩
  cases loaded with
  | false => exact ⟨none, owned.congr rfl rfl rfl rfl⟩
  | true =>
      have gained : Owned (some state.fresh) none ((state.gainModel host).act
          (.use (state.gainModel host).model)) :=
        (owned.gainModel host).useModel
      by_cases vocab : loader.hasVocab = true
      · simpa [bind_apply, useModel, vocab] using ⟨_, gained⟩
      · simpa [bind_apply, useModel, vocab] using ⟨_, gained⟩

theorem initContext_spec (params : ContextParams) :
    Triple (Owned (some address) none) (initContext loader params)
      (fun _ => Holding address (·.params = params)) fail := by
  intro state owned
  have used := owned.useModel
  rw [initContext, useModel, bind_of_ok (modify_apply _ state), bind_of_ok (get_apply _)]
  rcases loader.initFromModel (state.act (.use state.model)).host params with ⟨shape, host⟩
  cases shape with
  | none => exact ⟨none, used.congr rfl rfl rfl rfl, by simp⟩
  | some shape =>
      refine ⟨_, used.gainContext host params shape, ?_⟩
      rintro opened ⟨⟩
      exact ⟨rfl, rfl⟩

theorem closePooling_spec (kind : OpenContext → Prop) :
    Triple (Holding address kind) (closePooling loader)
      (fun _ => Holding address fun opened => kind opened ∧ opened.shape.pooling = .none)
      fail := by
  rintro state ⟨context, owned, holds⟩
  rw [closePooling, bind_of_ok (get_apply state), owned.context_eq]
  cases context with
  | none => exact ⟨none, owned, by simp⟩
  | some opened =>
      have used := owned.useContext
      by_cases pools : opened.shape.pooling = .none
      · simp only [useContext, bind_apply, modify_apply, pools, ne_eq, not_true_eq_false, if_false,
          pure_apply, meets_ok]
        refine ⟨_, used, ?_⟩
        rintro _ ⟨⟩
        exact ⟨⟨(holds opened rfl).1, pools⟩, (holds opened rfl).2⟩
      · simp only [useContext, bind_apply, modify_apply, pools, ne_eq, not_false_eq_true, if_true,
          meets_ok]
        exact ⟨none, used.dropContext, by simp⟩

theorem initDefault_spec (kind : OpenContext → Prop) :
    Triple (Holding address kind) (initDefault loader config)
      (fun _ => Holding address fun opened =>
        kind opened ∨ opened.params = contextParams loader config) fail := by
  rintro state ⟨context, owned, holds⟩
  rw [initDefault, bind_of_ok (get_apply state), owned.context_eq]
  cases context with
  | none =>
      refine (initContext_spec (contextParams loader config) state owned).imp ?_
        fun _ _ _ failed => failed
      rintro _ after _ ⟨context, owned, holds⟩
      exact ⟨context, owned, fun opened member => (holds opened member).imp .inr id⟩
  | some opened =>
      exact ⟨_, owned, fun opened member => (holds opened member).imp .inl id⟩

theorem openContext_spec :
    Triple (Owned (some address) none) (openContext loader config)
      (fun opened state => Ready address opened state ∧ Chosen loader config opened)
      (fun _ => Owned (some address) none) := by
  refine Triple.bind (initContext_spec _) fun _ => Triple.bind (closePooling_spec _) fun _ =>
    Triple.bind (initDefault_spec _) fun _ => ?_
  rintro state ⟨context, owned, holds⟩
  rw [bind_of_ok (get_apply state), owned.context_eq]
  cases context with
  | none => exact owned
  | some opened => exact ⟨⟨owned, (holds opened rfl).2⟩, (holds opened rfl).1⟩

/-- What the constructor settles is what the context reports. -/
structure Settled (loader : Loader llama registry) (opened : OpenContext) (settled : EngineConfig) :
    Prop where
  nCtxSeq : settled.nCtxSeq = opened.shape.nCtxSeq
  nBatch : settled.nBatch = opened.shape.nBatch
  served : opened.shape.pooling ≠ .rank
  embeddings : settled.embeddings = true ↔ opened.shape.pooling ≠ .none
  maxEmbedTokens : settled.maxEmbedTokens =
    if settled.embeddings then maxEmbedTokens loader opened.shape else 0

theorem settle_spec :
    Triple (Ready address opened) (settle loader config opened)
      (fun settled state => Ready address opened state ∧ Settled loader opened settled)
      (fun _ => Ready address opened) := by
  rintro state ⟨owned, empty⟩
  have once : Ready address opened (state.act (.use state.contextPointer)) :=
    ⟨owned.useContext, empty⟩
  by_cases room : 0 < opened.shape.nCtxSeq ∧ 0 < opened.shape.nBatch
  · have twice : Ready address opened _ := ⟨once.owned.useContext, empty⟩
    simp only [settle, useContext, useModel, bind_apply, modify_apply, room, and_self, dif_pos]
    by_cases reranker : opened.shape.pooling = .rank
    · simpa only [throwIf_pos reranker, meets_error] using twice
    by_cases generates : opened.shape.pooling = .none
    · simp only [generates, if_true, pure_apply]
      exact ⟨twice, rfl, rfl, reranker, by simp [generates], rfl⟩
    · simp only [throwIf_neg reranker, generates, if_false, bind_apply, modify_apply, pure_apply,
        meets_ok]
      have used := twice.owned.useContext.useModel
      exact ⟨⟨used.congr rfl rfl rfl rfl, empty⟩, rfl, rfl, reranker, by simp [generates], rfl⟩
  · simp only [settle, useContext, bind_apply, modify_apply, room, dif_neg, not_false_eq_true]
    exact once

theorem warmDecode_spec (batch : List Token) :
    Triple (Owned (some address) (some opened)) (warmDecode batch)
      (fun _ => (Owned (some address) (some opened) : Construction llama → Prop))
      (fun _ => Owned (some address) (some opened)) := by
  intro state owned
  have used := owned.useContext
  rw [warmDecode, useContext, bind_of_ok (modify_apply _ state), bind_of_ok (get_apply _)]
  rcases llama.decode (state.act (.use state.contextPointer)).host
    (state.act (.use state.contextPointer)).memory batch with ⟨answer, host⟩
  cases answer with
  | done evicted logits => exact used.congr rfl rfl rfl rfl
  | code ret nonzero leftover => exact used.congr rfl rfl rfl rfl
  | threw error leftover => exact used.congr rfl rfl rfl rfl

theorem warmUp_spec (settled : EngineConfig) :
    Triple (Ready address opened) (warmUp loader settled)
      (fun _ => (Ready address opened : Construction llama → Prop))
      (fun _ => Owned (some address) (some opened)) := by
  rintro state ⟨owned, empty⟩
  rw [warmUp, useModel, bind_of_ok (modify_apply _ state)]
  cases loader.bos.or loader.eos with
  | none => exact ⟨owned.useModel, empty⟩
  | some warm =>
      refine Triple.bind (warmDecode_spec _)
        (fun _ => Triple.bind (warmDecode_spec _) fun _ => ?_) _ owned.useModel
      intro state owned
      exact ⟨owned.useContext.congr rfl rfl rfl rfl, rfl⟩

/-- A model is held wherever a context is. -/
def Based (state : Construction llama) : Prop :=
  ∃ model context, state.Owned model context ∧ (context.isSome → model.isSome)

/-- However a construction ends, what it holds is all that is alive; if it returns it holds a
model and a context, as it settled them, and the context is empty. -/
theorem construct_spec :
    Triple (Owned none none) (construct loader config)
      (fun settled state => ∃ address opened, Ready address opened state ∧
        Chosen loader config opened ∧ Settled loader opened settled)
      (fun _ => Based) := by
  have based {state : Construction llama} {address : Nat} {context : Option OpenContext}
      (owned : state.Owned (some address) context) : Based state :=
    ⟨some address, context, owned, fun _ => rfl⟩
  have start {state : Construction llama} (owned : state.Owned none none) : Based state :=
    ⟨none, none, owned, id⟩
  have checked {Value : Type} (result : Except LoadFailure Value) :
      Triple (Owned none none : Construction llama → Prop) (attempt result)
        (fun _ => Owned none none) (fun _ => Based) :=
    Triple.attempt (fun _ _ owned _ => owned) fun _ _ owned _ => start owned
  have named : Triple (Owned none none : Construction llama → Prop)
      (throwIf (config.modelPath = []) (LoadFailure.engine .noModelPath))
      (fun _ => Owned none none) (fun _ => Based) :=
    Triple.throwIf (fun _ _ => start) fun _ _ owned => owned
  refine Triple.bind named fun _ => Triple.bind (checked _) fun offload =>
    Triple.bind (checked _) fun tensorSplit => ?_
  refine Triple.bind ((openModel_spec offload tensorSplit).consequence (fun _ _ holds => holds)
    fun _ state failed => ?_) fun _ => ?_
  · obtain ⟨model, owned⟩ := failed
    exact ⟨model, none, owned, by simp⟩
  · rintro state ⟨address, owned⟩
    refine Triple.bind (openContext_spec.consequence (fun _ _ holds => holds) fun _ _ => based)
      (fun opened => ?_) state owned
    rintro state ⟨ready, chosen⟩
    refine Triple.bind (settle_spec.consequence (fun _ _ holds => holds)
      fun _ _ failed => based failed.owned) (fun settled => ?_) state ready
    rintro state ⟨ready, settles⟩
    refine Triple.bind ((warmUp_spec settled).consequence (fun _ _ holds => holds)
      fun _ _ => based) (fun _ => ?_) state ready
    exact fun state ready => ⟨address, opened, ready, chosen, settles⟩

/-- What fails from the loading of the model on. -/
def Late : LoadFailure → Prop
  | .engine (.modelUnloadable _) | .engine (.noVocabulary _) | .engine (.noContext _)
  | .engine .zeroContext | .engine (.reranker _) | .foreign _ => True
  | _ => False

theorem initContext_throws (params : ContextParams) : Throws Late (initContext loader params) := by
  refine .bind .modify fun _ => .bind .get fun state => ?_
  split
  · exact .modify
  · exact .modify

theorem openModel_throws (offload : List registry.Device) (tensorSplit : List Rat) :
    Throws Late (openModel loader config offload tensorSplit) := by
  refine .bind .get fun state => ?_
  split
  · exact .bind .modify fun _ => .throw trivial
  · exact .bind .modify fun _ => .bind .modify fun _ => .throwIf fun _ => trivial

theorem closePooling_throws : Throws Late (closePooling loader) := by
  refine .bind .get fun state => ?_
  split
  · exact .pure
  · refine .bind .modify fun _ => ?_
    split
    · exact .modify
    · exact .pure

theorem openContext_throws : Throws Late (openContext loader config) := by
  refine .bind (initContext_throws _) fun _ => .bind closePooling_throws fun _ => .bind ?_ fun _ =>
    .bind .get fun state => ?_
  · refine .bind .get fun state => ?_
    split
    · exact initContext_throws _
    · exact .pure
  · split
    · exact .throw trivial
    · exact .pure

theorem settle_throws : Throws Late (settle loader config opened) := by
  refine .bind .modify fun _ => ?_
  split
  · refine .bind .modify fun _ => .bind (.throwIf fun _ => trivial) fun _ => ?_
    split
    · exact .pure
    · exact .bind .modify fun _ => .bind .modify fun _ => .bind .modify fun _ => .pure
  · exact .throw trivial

theorem warmDecode_throws (batch : List Token) :
    Throws Late (warmDecode batch : Program (Construction llama) LoadFailure Unit) := by
  refine .bind .modify fun _ => .bind .get fun state => ?_
  split
  · exact .modify
  · exact .modify
  · exact .bind .modify fun _ => .throw trivial

theorem warmUp_throws (settled : EngineConfig) : Throws Late (warmUp loader settled) := by
  refine .bind .modify fun _ => ?_
  split
  · exact .pure
  · exact .bind (warmDecode_throws _) fun _ => .bind (warmDecode_throws _) fun _ =>
      .bind .modify fun _ => .modify

variable (registry config) in
/-- Why a construction fails: no path, the devices, the tensor split, or something later. -/
inductive Fails : LoadFailure → Prop
  | noModelPath (none : config.modelPath = []) : Fails (.engine .noModelPath)
  | devices {refused : LoadError}
      (failed : selectOffloadDevices config (allDevices registry) = .error refused) :
      Fails (.engine refused)
  | tensorSplit {offload : List registry.Device} {refused : LoadError}
      (failed : paddedTensorSplit config offload.length registry.maxDevices = .error refused) :
      Fails (.engine refused)
  | late {failure : LoadFailure} (failed : Late failure) : Fails failure

theorem construct_throws : Throws (Fails registry config) (construct loader config) := by
  have late {Value : Type} {program : Program (Construction llama) LoadFailure Value}
      (throws : Throws Late program) : Throws (Fails registry config) program :=
    throws.mono fun _ failed => .late failed
  have wrapped {Value : Type} {result : Except LoadError Value}
      (fails : ∀ refused, result = .error refused → Fails registry config (.engine refused))
      (failure : LoadFailure) (failed : result.mapError .engine = .error failure) :
      Fails registry config failure := by
    cases result with
    | ok value => cases failed
    | error refused =>
        cases failed
        exact fails refused rfl
  refine .bind (.throwIf .noModelPath) fun _ => ?_
  refine .attempt_bind (wrapped fun _ failed => .devices failed) fun offload _ => ?_
  refine .attempt_bind (wrapped fun _ failed => .tensorSplit failed) fun tensorSplit _ => ?_
  refine .bind (late (openModel_throws _ _)) fun _ => .bind (late openContext_throws) fun opened =>
    .bind (late settle_throws) fun settled => ?_
  exact .bind (late (warmUp_throws settled)) fun _ => .pure

/-- What methods touch is held. -/
theorem owned_of_touches {state : Construction llama} (touches : List Touch)
    (owned : state.Owned (some address) (some opened)) :
    (touches.foldl Touch.apply state).Owned (some address) (some opened) := by
  induction touches generalizing state with
  | nil => exact owned
  | cons touch touches inductionHypothesis =>
      cases touch with
      | model => exact inductionHypothesis owned.useModel
      | context => exact inductionHypothesis owned.useContext

variable (loader config)

/-- Whatever llama.cpp answers, and whichever way a construction ends: every model and every
context is freed exactly once, a context before its model, none is used or freed before it was
gained or after it was freed, and no null pointer is used. -/
theorem lifetime_tidy (touches : List Touch) (host : llama.Host)
    (logits : Token → llama.Logit) :
    let ended := (lifetime loader config touches { host := host, logits := logits }).2
    Tidy ended.record ∧ none ∉ Act.gained ended.record ∧ ended.model = none ∧
      ended.context = none := by
  have left {state : Construction llama} (owned : state.Owned none none) :
      Tidy state.record ∧ none ∉ Act.gained state.record ∧ state.model = none ∧
        state.context = none := by
    refine ⟨owned.alive.tidy, fun member => ?_, owned.model_eq, owned.context_eq⟩
    obtain ⟨address, _, same⟩ := owned.below none member
    cases same
  have built : Meets _ _ (construct loader config { host := host, logits := logits }) :=
    construct_spec _ (Owned.start host logits)
  rcases ran : construct loader config { host := host, logits := logits } with
    ⟨error | settled, state⟩
  · rw [ran] at built
    obtain ⟨model, context, owned, based⟩ := built
    simp only [lifetime, ran]
    exact left (owned.destroy based)
  · rw [ran] at built
    obtain ⟨address, opened, ready, _⟩ := built
    simp only [lifetime, ran]
    exact left ((owned_of_touches touches ready.owned).destroy fun _ => rfl)

variable {loader config}

/-- A constructed engine has served nothing, and holds a model and a context with room in it. A
context that pools has llama.cpp's own parameters, and bounds what is taken to embed. -/
theorem construct_opens {host : llama.Host} {logits : Token → llama.Logit}
    {settled : EngineConfig} {state : Construction llama}
    (returned : construct loader config { host := host, logits := logits } =
      (.ok settled, state)) :
    state.impl = Impl.fresh state.host state.logits ∧ state.model.isSome ∧
    ∃ opened, state.context = some opened ∧
      settled.nCtxSeq = opened.shape.nCtxSeq ∧ settled.nBatch = opened.shape.nBatch ∧
      opened.shape.pooling ≠ .rank ∧
      (settled.embeddings = true ↔ opened.shape.pooling ≠ .none) ∧
      (settled.embeddings = true → opened.params = contextParams loader config ∧
        settled.maxEmbedTokens ≤ opened.shape.nUbatch ∧
        settled.maxEmbedTokens ≤ opened.shape.nCtxSeq ∧
        (0 < loader.nCtxTrain → settled.maxEmbedTokens ≤ loader.nCtxTrain)) := by
  have built : Meets _ _ (construct loader config { host := host, logits := logits }) :=
    construct_spec _ (Owned.start host logits)
  rw [returned] at built
  obtain ⟨address, opened, ready, chosen, settles⟩ := built
  refine ⟨?_, ?_, opened, ready.owned.context_eq, settles.nCtxSeq, settles.nBatch,
    settles.served, settles.embeddings, fun embeds => ?_⟩
  · rw [impl, ready.memory_eq]
    rfl
  · rw [ready.owned.model_eq]
    rfl
  · have limit := settles.maxEmbedTokens
    rw [if_pos embeds] at limit
    refine ⟨?_, ?_⟩
    · obtain ⟨_, generates⟩ | same := chosen
      · exact absurd generates (settles.embeddings.mp embeds)
      · exact same
    · rw [limit, maxEmbedTokens]
      split
      · exact ⟨by omega, by omega, by omega⟩
      · exact ⟨by omega, by omega, by omega⟩

/-- A constructed engine is as its first request expects it: it has served nothing, it holds a
model and a context with room in it, and no reranker. A context that pools has llama.cpp's
own parameters, and an input that is taken then fits its micro-batch, its sequence and what the
model was trained on. -/
theorem construct_ready {host : llama.Host} {logits : Token → llama.Logit}
    {settled : EngineConfig} {state : Construction llama}
    (returned : construct loader config { host := host, logits := logits } =
      (.ok settled, state)) :
    state.impl = Impl.fresh state.host state.logits ∧ state.model.isSome ∧
    ∃ opened, state.context = some opened ∧
      settled.nCtxSeq = opened.shape.nCtxSeq ∧ settled.nBatch = opened.shape.nBatch ∧
      opened.shape.pooling ≠ .rank ∧
      (settled.embeddings = true ↔ opened.shape.pooling ≠ .none) ∧
      (settled.embeddings = true → opened.params = contextParams loader config ∧
        (settled.maxEmbedTokens ≤ opened.shape.nUbatch ∧
          settled.maxEmbedTokens ≤ opened.shape.nCtxSeq ∧
          (0 < loader.nCtxTrain → settled.maxEmbedTokens ≤ loader.nCtxTrain)) ∧
        ∀ index input tokens, measureInput settled llama index input = .ok tokens →
          tokens.length ≤ opened.shape.nUbatch ∧ tokens.length ≤ opened.shape.nCtxSeq ∧
          (0 < loader.nCtxTrain → tokens.length ≤ loader.nCtxTrain)) := by
  obtain ⟨fresh, model, opened, context, nCtxSeq, nBatch, ranks, kind, limits⟩ :=
    construct_opens returned
  refine ⟨fresh, model, opened, context, nCtxSeq, nBatch, ranks, kind, fun embeds => ?_⟩
  obtain ⟨params, micro, sequence, trained⟩ := limits embeds
  refine ⟨params, ⟨micro, sequence, trained⟩, fun index input tokens measured => ?_⟩
  have within := (measureInput_eq_ok_iff.mp measured).within
  exact ⟨within.trans micro, within.trans sequence, fun known =>
    (Int.ofNat_le.mpr within).trans (trained known)⟩

end Engine

/-- An embedding model of 64 training tokens, on a machine with two GPUs. -/
abbrev Loader.pooling : Loader (Llama.bytes fun _ => 256) Registry.twoGpus where
  modelDefaultParams := ⟨0, none, none⟩
  contextDefaultParams := ⟨512, 2048, 512, 0, 4, 4, false⟩
  hardwareConcurrency := 8
  loadModel host _ _ := (true, host)
  hasVocab := true
  nCtxTrain := 64
  bos := none
  eos := some 256
  initFromModel host params := (some ⟨params.nCtx, params.nBatch, params.nUbatch, .mean⟩, host)
  setEmbeddings := id
  freeContext := id
  freeModel := id

/-- What becomes of it. -/
abbrev Engine.pooling : Except LoadFailure EngineConfig × Construction (Llama.bytes fun _ => 256) :=
  Engine.construct Loader.pooling { modelPath := [0x6D] }
    { host := (), logits := fun _ => (0 : Int) }

/-- Its engine embeds, and takes inputs of up to 64 tokens. -/
def EngineConfig.pooling : EngineConfig := ⟨4096, 2048, true, 64, by decide, by decide⟩

theorem Engine.pooling_eq : Engine.pooling = (.ok .pooling, Engine.pooling.2) := rfl

/-- It has a context, and never takes an input of more than 64 tokens. -/
theorem Engine.construct_ready_pooling :
    Engine.pooling.2.impl = Impl.fresh Engine.pooling.2.host Engine.pooling.2.logits ∧
      Engine.pooling.2.model.isSome ∧ Engine.pooling.2.context.isSome ∧
      ∀ index input tokens, measureInput .pooling (Llama.bytes fun _ => 256) index input =
        .ok tokens → tokens.length ≤ 64 := by
  obtain ⟨fresh, model, opened, context, _, _, _, _, embeds⟩ :=
    Engine.construct_ready Engine.pooling_eq
  obtain ⟨_, _, fits⟩ := embeds rfl
  refine ⟨fresh, model, by rw [context]; rfl, fun index input tokens measured => ?_⟩
  exact Int.ofNat_le.mp ((fits index input tokens measured).2.2 (by decide))

end Llamad
