import Llamad.Engine.Generate
import Mathlib.Algebra.BigOperators.Ring.List
import Mathlib.Algebra.Order.BigOperators.Group.List
import Mathlib.Algebra.Order.Field.Basic
import Mathlib.Tactic.Ring

/-!
# Embedding

`Engine::embed` measures every input before it decodes one, and decodes each on its own
from a cleared memory. It keeps no record of what the memory holds: a context that
pools serves no generation.
-/

namespace Llamad

open Logical Semantics Program Session

variable {llama : Llama} {Client : Type}

/-- The vectors of a batch of inputs and the tokens it took. -/
structure EmbedResult (Value : Type) where
  embeddings : List (List Value) := []
  inputTokens : Nat := 0
deriving DecidableEq

/-- The first loop of `l2_normalized`. -/
def sumSquares (llama : Llama) (values : List llama.Logit) : llama.double.Value :=
  values.foldl (fun sum value => llama.double.add sum
    (llama.double.mul (llama.double.ofFloat value) (llama.double.ofFloat value)))
    llama.double.zero

/-- The vector scaled to unit length; a zero vector stays zero. -/
def Llama.l2Normalized (llama : Llama) (values : List llama.Logit) : List llama.Logit :=
  let sum := sumSquares llama values
  let scale :=
    if llama.double.less llama.double.zero sum then
      llama.double.div llama.double.one (llama.double.sqrt sum)
    else llama.double.zero
  values.map fun value => llama.double.toFloat (llama.double.mul (llama.double.ofFloat value) scale)

section Exact

/-- A `double` that does not round: `read` takes its operations to those of a field. -/
structure Double.Exact {Float K : Type} [Field K] [LinearOrder K] (double : Double Float)
    (read : double.Value → K) : Prop where
  zero : read double.zero = 0
  one : read double.one = 1
  less : ∀ left right, double.less left right = true ↔ read left < read right
  add : ∀ left right, read (double.add left right) = read left + read right
  mul : ∀ left right, read (double.mul left right) = read left * read right
  div : ∀ left right, read (double.div left right) = read left / read right
  sqrt_nonneg : ∀ value, 0 ≤ read (double.sqrt value)
  sqrt_sq : ∀ value, 0 ≤ read value → read (double.sqrt value) ^ 2 = read value
  toFloat : ∀ value, read (double.ofFloat (double.toFloat value)) = read value

variable {K : Type} [Field K] {read : llama.double.Value → K}

/-- The vector in the field. -/
def entries (read : llama.double.Value → K) (values : List llama.Logit) : List K :=
  values.map fun value => read (llama.double.ofFloat value)

/-- The square of the length of a vector. -/
def normSq (vector : List K) : K := (vector.map (· ^ 2)).sum

theorem normSq_scaled (vector : List K) (scale : K) :
    normSq (vector.map (· * scale)) = normSq vector * scale ^ 2 := by
  simp only [normSq, List.map_map, ← List.sum_map_mul_right]
  congr 1
  exact List.map_congr_left fun entry _ => mul_pow entry scale 2

variable [LinearOrder K]

theorem read_sumSquares (exact : llama.double.Exact read) (values : List llama.Logit) :
    read (sumSquares llama values) = normSq (entries read values) := by
  have sums (start : llama.double.Value) :
      read (values.foldl (fun sum value => llama.double.add sum
        (llama.double.mul (llama.double.ofFloat value) (llama.double.ofFloat value))) start) =
        read start + normSq (entries read values) := by
    induction values generalizing start with
    | nil => simp [normSq, entries]
    | cons value rest inductionHypothesis =>
        rw [List.foldl_cons, inductionHypothesis, exact.add, exact.mul, add_assoc]
        simp [normSq, entries, pow_two]
  rw [sumSquares, sums, exact.zero, zero_add]

/-- Where nothing is rounded the vector keeps its direction, and its length becomes 1 unless
it is 0. -/
theorem Llama.l2Normalized_unit [IsStrictOrderedRing K] (exact : llama.double.Exact read)
    (values : List llama.Logit) :
    (∃ scale, 0 ≤ scale ∧
        entries read (llama.l2Normalized values) = (entries read values).map (· * scale)) ∧
      normSq (entries read (llama.l2Normalized values)) =
        if normSq (entries read values) = 0 then 0 else 1 := by
  have scaled (scale : llama.double.Value) :
      entries read (values.map fun value =>
          llama.double.toFloat (llama.double.mul (llama.double.ofFloat value) scale)) =
        (entries read values).map (· * read scale) := by
    simp [entries, exact.toFloat, exact.mul]
  have nonneg : 0 ≤ normSq (entries read values) :=
    List.sum_nonneg fun _ member => by
      obtain ⟨entry, _, rfl⟩ := List.mem_map.mp member
      exact sq_nonneg entry
  have square := exact.sqrt_sq (sumSquares llama values)
  rw [read_sumSquares exact] at square
  rw [Llama.l2Normalized, scaled, normSq_scaled]
  refine ⟨⟨_, ?_, rfl⟩, ?_⟩
  · split
    · rw [exact.div, exact.one]
      exact one_div_nonneg.mpr (exact.sqrt_nonneg _)
    · exact exact.zero.ge
  · by_cases null : normSq (entries read values) = 0
    · rw [null, zero_mul, if_pos rfl]
    · have positive := lt_of_le_of_ne nonneg (Ne.symm null)
      rw [if_pos ((exact.less _ _).mpr (by rwa [exact.zero, read_sumSquares exact])), exact.div,
        exact.one, div_pow, square nonneg, one_pow, mul_one_div_cancel null, if_neg null]

end Exact

variable (config : EngineConfig)

/-- The tokens of one input, when there are some and they fit one decode. -/
def measureInput (llama : Llama) (index : Nat) (input : Bytes) : Except Exception (List Token) := do
  let tokens ← tokenize llama input true true
  if tokens.isEmpty then .error (.engine (.emptyInput index))
  else if config.maxEmbedTokens < tokens.length then
    .error (.engine (.inputTooLong index tokens.length config.maxEmbedTokens))
  else .ok tokens

/-- Every input measured, the first one being number `index`. -/
def measure (llama : Llama) : (index : Nat) → List Bytes → Except Exception (List (List Token))
  | _, [] => .ok []
  | index, input :: rest => do
      let tokens ← measureInput config llama index input
      let more ← measure llama (index + 1) rest
      return tokens :: more

namespace Impl

/-- One input decoded as sequence 0 from position 0, and its pooled vector. -/
def pool (tokens : List Token) : Program (Impl llama) Exception (List llama.Logit) := do
  modify fun impl => record .cleared (withContext impl.context.host {} impl)
  let impl ← get
  match llama.decode impl.context.host impl.context.memory tokens with
  | (.done evicted logits, host) => do
      modify fun impl =>
        { impl with context := ⟨host, impl.context.memory.extend tokens evicted, logits⟩ }
      modify (record (.decoded tokens (.done evicted logits)))
      match llama.embeddingsSeq host with
      | none => throw (.runtime .noPooledEmbedding)
      | some pooled => return llama.l2Normalized pooled
  | (.code ret nonzero leftover, host) => do
      modify (withContext host leftover)
      modify (record (.decoded tokens (.code ret nonzero leftover)))
      throw (.runtime (.embeddingDecode ret))
  | (.threw error leftover, host) => do
      modify (withContext host leftover)
      modify (record (.decoded tokens (.threw error leftover)))
      throw (.foreign error)

end Impl

/-- Asked before each input; `none` is the empty `std::function`. -/
abbrev KeepGoing (Client : Type) := Option (Program Client Exception Bool)

/-- Run a program of the client of a session. -/
def onClient {Value : Type} (program : Program Client Exception Value) :
    Program (Session llama Client) Exception Value :=
  onReceiver (zoom Receiver.client (fun client receiver => { receiver with client := client })
    program)

@[simp] theorem onClient_apply {Value : Type} (program : Program Client Exception Value)
    (session : Session llama Client) :
    onClient program session =
      ((program session.receiver.client).1,
        { session with receiver :=
            { session.receiver with client := (program session.receiver.client).2 } }) := rfl

/-- The client's part of a session leaves the engine alone. -/
theorem onClient_preserves {Value : Type} (holds : Impl llama → Prop)
    (program : Program Client Exception Value) :
    Preserves (fun session : Session llama Client => holds session.impl) (onClient program) := by
  intro session kept
  rw [onClient_apply]
  match program session.receiver.client with
  | (.ok value, client) => exact kept
  | (.error error, client) => exact kept

/-- The answer of `keep_going`. -/
def goOn (keepGoing : KeepGoing Client) : Program (Session llama Client) Exception Bool :=
  match keepGoing with
  | none => pure true
  | some ask => onClient ask

/-- The inputs decoded in order until the client has gone. -/
def embedInputs (keepGoing : KeepGoing Client) : List (List Token) → EmbedResult llama.Logit →
    Program (Session llama Client) Exception (EmbedResult llama.Logit)
  | [], result => return result
  | tokens :: rest, result => do
      if ← goOn keepGoing then
        let embedding ← onImpl (Impl.pool tokens)
        embedInputs keepGoing rest {
          embeddings := result.embeddings ++ [embedding]
          inputTokens := result.inputTokens + tokens.length }
      else
        return result

/-- Embeds each input. -/
def embed (inputs : List Bytes) (keepGoing : KeepGoing Client) :
    Program (Session llama Client) Exception (EmbedResult llama.Logit) :=
  if config.embeddings then do
    let tokenized ← attempt (measure config llama 0 inputs)
    embedInputs keepGoing tokenized {}
  else
    throw (.engine .notEmbeddingModel)

end Llamad
