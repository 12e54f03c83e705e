import Llamad.Engine.Contract

/-!
# What the engine is built on

`Llama` collects the llama.cpp calls the engine makes, over types the engine never
looks into. The memory of sequence 0 is the one part the engine keeps a record of,
so it is a type of its own. Every answer may depend on everything the backend
holds, and nothing is assumed of one here; a result that needs documented behaviour
of a call takes it as a hypothesis.
-/

namespace Llamad

open Logical

/-- One entry of `llama_token_data`. -/
structure Candidate (Logit : Type) where
  id : Token
  logit : Logit
  p : Logit

/-- The `llama_token_data_array` the samplers work on. -/
structure Candidates (Logit : Type) where
  data : List (Candidate Logit)
  selected : Int
  sorted : Bool

/-- The samplers a chain is built from. -/
inductive Stage where
  | greedy
  | topK (k : Int)
  | topP (p : Rat) (minKeep : Nat)
  | minP (p : Rat) (minKeep : Nat)
  | temp (temperature : Rat)
  | dist (seed : UInt32)
deriving DecidableEq

/-- Sequence 0 of the llama memory: the tokens at the positions up to its end, of which
those below `lo` have been let go. -/
@[ext] structure Memory where
  tokens : List Token := []
  lo : Nat := 0
deriving DecidableEq

namespace Memory

/-- The position after the last one. -/
def hi (memory : Memory) : Nat := memory.tokens.length

/-- The memory holds `token` at `position`. -/
def Holds (memory : Memory) (position : Nat) (token : Token) : Prop :=
  memory.lo ≤ position ∧ memory.tokens[position]? = some token

/-- The tokens at the positions held, in order. -/
def held (memory : Memory) : List Token := memory.tokens.drop memory.lo

/-- `llama_memory_seq_pos_min`: the smallest position held, or -1. -/
def posMin (memory : Memory) : Int :=
  if memory.lo < memory.hi then memory.lo else -1

/-- `batch` appended at the end while `evicted` positions are let go at the low end. -/
def extend (memory : Memory) (batch : List Token) (evicted : Nat) : Memory :=
  { tokens := memory.tokens ++ batch, lo := memory.lo + evicted }

/-- All positions from `keep` on dropped. -/
def truncate (memory : Memory) (keep : Nat) : Memory :=
  { memory with tokens := memory.tokens.take keep }

end Memory

/-- The answer of `llama_memory_seq_rm`; a refusal may leave anything. -/
inductive Removed where
  | dropped
  | refused (leftover : Memory)

/-- How a `llama_decode` ends; one that fails may leave any part of its batch. -/
inductive Decoded (Logit : Type) where
  | done (evicted : Nat) (logits : Token → Logit)
  | code (ret : Int) (nonzero : ret ≠ 0) (leftover : Memory)
  | threw (error : Foreign) (leftover : Memory)

/-- `double`, with its conversions from and to `float` and what the engine computes in it. -/
structure Double (Float : Type) where
  Value : Type
  ofFloat : Float → Value
  toFloat : Value → Float
  zero : Value
  one : Value
  less : Value → Value → Bool
  add : Value → Value → Value
  mul : Value → Value → Value
  div : Value → Value → Value
  sqrt : Value → Value

/-- Integers for both, each quotient and root rounded down. -/
def Double.whole : Double Int where
  Value := Int
  ofFloat := id
  toFloat := id
  zero := 0
  one := 1
  less left right := left < right
  add := (· + ·)
  mul := (· * ·)
  div := (· / ·)
  sqrt value := value.toNat.sqrt

/-- llama.cpp with one model loaded, as the engine uses it. -/
structure Llama where
  /-- What the backend holds besides the memory of sequence 0. -/
  Host : Type
  /-- `float`, as far as the engine computes with it. -/
  Logit : Type
  [decidableEq : DecidableEq Logit]
  less : Logit → Logit → Bool
  zero : Logit
  one : Logit
  negInfinity : Logit
  double : Double Logit
  seqRm : Host → Memory → Nat → Removed × Host
  decode : Host → Memory → List Token → Decoded Logit × Host
  nVocab : Nat
  isEog : Token → Bool
  /-- `llama_tokenize` into a buffer of the given capacity: its return value and what it
  wrote. -/
  tokenize : Bytes → Nat → (addSpecial parseSpecial : Bool) → Int × List Token
  /-- `llama_token_to_piece` into a buffer of the given capacity. -/
  tokenToPiece : Token → Nat → (special : Bool) → Int × Bytes
  Chain : Type
  Grammar : Type
  /-- Where `llama_sampler_init_dist` takes a fresh seed from. -/
  Entropy : Type
  chainInit : Option Chain
  chainAdd : Entropy → Chain → Stage → Chain
  chainApply : Chain → Candidates Logit → Candidates Logit × Chain
  chainAccept : Chain → Token → Chain
  grammarInit : (grammar root : Bytes) → Option Grammar
  grammarInitLazyPatterns : (grammar root : Bytes) → (patterns : List Bytes) →
    (triggers : List Token) → Option Grammar
  grammarApply : Grammar → Candidates Logit → Candidates Logit
  grammarAccept : Grammar → Token → Except Foreign Grammar
  /-- `std::ranges::partial_sort_copy` by descending logit, which leaves the order of
  equal logits open. -/
  partialSortCopy : List (Candidate Logit) → Nat → List (Candidate Logit)
  /-- The pooled embedding of sequence 0 after a decode, when there is one. -/
  embeddingsSeq : Host → Option (List Logit)

attribute [instance] Llama.decidableEq

/-- A backend over single bytes that never fails: `next` says which token follows a
sequence, and 256 ends a generation. -/
def Llama.bytes (next : List Token → Token) : Llama where
  Host := Unit
  Logit := Int
  less left right := left < right
  zero := 0
  one := 1
  negInfinity := -1
  double := .whole
  seqRm host _ _ := (.dropped, host)
  decode host memory batch :=
    (.done 0 fun token => if token = next (memory.tokens ++ batch) then 1 else 0, host)
  nVocab := 257
  isEog token := token = 256
  tokenize text capacity _ _ :=
    if text.length ≤ capacity then (text.length, text.map UInt8.toNat) else (-text.length, [])
  tokenToPiece token _ _ := if token < 256 then (1, [UInt8.ofNat token]) else (0, [])
  Chain := Unit
  Grammar := Unit
  Entropy := Unit
  chainInit := some ()
  chainAdd _ _ _ := ()
  chainApply _ array :=
    ({ array with selected := array.data.findIdx fun candidate =>
        array.data.all fun other => other.logit ≤ candidate.logit }, ())
  chainAccept _ _ := ()
  grammarInit _ _ := some ()
  grammarInitLazyPatterns _ _ _ _ := some ()
  grammarApply _ array := array
  grammarAccept _ _ := .ok ()
  partialSortCopy data count :=
    (data.mergeSort fun left right => right.logit ≤ left.logit).take count
  embeddingsSeq _ := some [1]

/-- The `llama_context` of an engine. -/
structure Context (llama : Llama) where
  host : llama.Host
  memory : Memory := {}
  /-- What `llama_get_logits_ith` returns for the last position decoded. -/
  logits : Token → llama.Logit

/-- What the constructor of an engine settles; it refuses a context without room. -/
structure EngineConfig where
  nCtxSeq : Nat
  nBatch : Nat
  embeddings : Bool
  maxEmbedTokens : Nat
  nCtxSeq_pos : 0 < nCtxSeq
  nBatch_pos : 0 < nBatch

end Llamad
