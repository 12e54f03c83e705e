import Llamad.Engine.Sampler

/-!
# The KV cache and its record

`cached` is the engine's record of what the memory of sequence 0 holds. Three
operations change the two together; each leaves a `Step` in the log of the request
that runs, with what the record and the memory are right after it.
-/

namespace Llamad

open Semantics Program

variable (llama : Llama)

/-- What a request does with the context. -/
inductive Step where
  | cleared
  | keptPrefix (prompt : List Token) (kept : Nat)
  | decoded (batch : List Token) (answer : Decoded llama.Logit)
  | sampled (logits : Token → llama.Logit) (token : Token)

/-- A step, and the record and the memory it leaves. -/
structure Entry where
  step : Step llama
  cached : List Token
  memory : Memory

/-- The part of `Engine::Impl` a generation changes. -/
structure Impl where
  cached : List Token := []
  context : Context llama
  /-- The steps of the request that runs, oldest first. -/
  log : List (Entry llama) := []

variable {llama}

namespace Impl

/-- Append a step to the log. -/
def record (step : Step llama) (impl : Impl llama) : Impl llama :=
  { impl with log := impl.log ++ [⟨step, impl.cached, impl.context.memory⟩] }

/-- The context with another memory and host. -/
def withContext (host : llama.Host) (memory : Memory) (impl : Impl llama) : Impl llama :=
  { impl with context := { impl.context with host := host, memory := memory } }

/-- Empty the KV cache and its record. -/
def clearCache : Program (Impl llama) Exception Unit :=
  modify fun impl =>
    record .cleared (withContext impl.context.host {} { impl with cached := [] })

end Impl

/-- How many leading tokens two sequences share, looking at no more than `limit`. -/
def reusablePrefix.scan : List Token → List Token → (limit : Nat) → Nat
  | c :: cached, p :: prompt, limit + 1 => if c = p then scan cached prompt limit + 1 else 0
  | _, _, _ => 0

/-- How many leading tokens of `prompt` a generation keeps from a cache holding `cached`. -/
def reusablePrefix (cached prompt : List Token) : Nat :=
  if prompt.isEmpty then 0
  else reusablePrefix.scan cached prompt (min cached.length (prompt.length - 1))

namespace Impl

/-- Drop the positions from `keep` on; whether the memory did so and still holds
position 0. -/
def dropFrom (keep : Nat) : Program (Impl llama) Exception Bool := do
  let impl ← get
  match llama.seqRm impl.context.host impl.context.memory keep with
  | (.refused leftover, host) => do
      modify (withContext host leftover)
      return false
  | (.dropped, host) => do
      let memory := impl.context.memory.truncate keep
      modify (withContext host memory)
      return decide (memory.posMin = 0)

/-- Trims the cache to the part of it `prompt` starts with and returns that part's length. -/
def keepPrefix (prompt : List Token) : Program (Impl llama) Exception Nat := do
  let impl ← get
  let keep := reusablePrefix impl.cached prompt
  let vouched ← if keep = 0 then pure false else dropFrom keep
  if vouched then
    modify fun impl => record (.keptPrefix prompt keep) { impl with cached := impl.cached.take keep }
    return keep
  else
    clearCache
    modify (record (.keptPrefix prompt 0))
    return 0

/-- Decodes tokens after the cached ones and records them; a failed decode empties the
cache. -/
def decode (tokens : List Token) : Program (Impl llama) Exception Int := do
  let impl ← get
  match llama.decode impl.context.host impl.context.memory tokens with
  | (.done evicted logits, host) => do
      modify fun impl =>
        { impl with
          cached := impl.cached ++ tokens
          context := ⟨host, impl.context.memory.extend tokens evicted, logits⟩ }
      modify (record (.decoded tokens (.done evicted logits)))
      return 0
  | (.code ret nonzero leftover, host) => do
      modify (withContext host leftover)
      clearCache
      modify (record (.decoded tokens (.code ret nonzero leftover)))
      return ret
  | (.threw error leftover, host) => do
      modify (withContext host leftover)
      clearCache
      modify (record (.decoded tokens (.threw error leftover)))
      throw (.foreign error)

end Impl

section ReusablePrefix

theorem reusablePrefix.scan_spec (cached prompt : List Token) (limit : Nat) :
    let shared := reusablePrefix.scan cached prompt limit
    shared ≤ limit ∧ shared ≤ cached.length ∧ shared ≤ prompt.length ∧
      cached.take shared = prompt.take shared := by
  induction cached generalizing prompt limit with
  | nil => simp [reusablePrefix.scan]
  | cons c cached inductionHypothesis =>
      cases prompt with
      | nil => simp [reusablePrefix.scan]
      | cons p prompt =>
          cases limit with
          | zero => simp [reusablePrefix.scan]
          | succ limit =>
              by_cases same : c = p
              · obtain ⟨inLimit, inCached, inPrompt, shared⟩ := inductionHypothesis prompt limit
                simp only [reusablePrefix.scan, same, if_true, List.length_cons,
                  List.take_succ_cons, shared]
                exact ⟨by omega, by omega, by omega, trivial⟩
              · simp [reusablePrefix.scan, same]

/-- What is reused is a common front part of the record and the prompt, and leaves a
token of the prompt to decode. -/
theorem reusablePrefix_spec (cached prompt : List Token) :
    let keep := reusablePrefix cached prompt
    keep ≤ cached.length ∧ keep ≤ prompt.length - 1 ∧
      cached.take keep = prompt.take keep := by
  cases prompt with
  | nil => simp [reusablePrefix]
  | cons first prompt =>
      obtain ⟨inLimit, inCached, _, same⟩ := reusablePrefix.scan_spec cached (first :: prompt)
        (min cached.length ((first :: prompt).length - 1))
      simp only [reusablePrefix, List.isEmpty_cons, Bool.false_eq_true, if_false]
      exact ⟨inCached, by omega, same⟩

end ReusablePrefix

namespace Impl

/-- The cache emptied, whatever the backend went through. -/
def emptied (host : llama.Host) (impl : Impl llama) : Impl llama :=
  record .cleared { impl with cached := [], context := ⟨host, {}, impl.context.logits⟩ }

/-- The cache trimmed to a front part of the prompt. -/
def trimmed (host : llama.Host) (prompt : List Token) (keep : Nat) (impl : Impl llama) :
    Impl llama :=
  record (.keptPrefix prompt keep)
    { impl with
      cached := impl.cached.take keep
      context := ⟨host, impl.context.memory.truncate keep, impl.context.logits⟩ }

/-- The cache extended by a decoded batch. -/
def extended (host : llama.Host) (batch : List Token) (evicted : Nat)
    (logits : Token → llama.Logit) (impl : Impl llama) : Impl llama :=
  record (.decoded batch (.done evicted logits))
    { impl with
      cached := impl.cached ++ batch
      context := ⟨host, impl.context.memory.extend batch evicted, logits⟩ }

/-- Everything `keep_prefix` can do. -/
theorem keepPrefix_cases (prompt : List Token) (impl : Impl llama) :
    (∃ host, keepPrefix prompt impl = (.ok 0, record (.keptPrefix prompt 0) (emptied host impl))) ∨
    ∃ host, 0 < reusablePrefix impl.cached prompt ∧
      (impl.context.memory.truncate (reusablePrefix impl.cached prompt)).posMin = 0 ∧
      keepPrefix prompt impl = (.ok (reusablePrefix impl.cached prompt),
        trimmed host prompt (reusablePrefix impl.cached prompt) impl) := by
  by_cases nothing : reusablePrefix impl.cached prompt = 0
  · left
    refine ⟨impl.context.host, ?_⟩
    simp only [keepPrefix, bind_apply, get_apply, nothing, if_true, pure_apply]
    rfl
  · match answer :
        llama.seqRm impl.context.host impl.context.memory (reusablePrefix impl.cached prompt) with
    | (.refused leftover, host) =>
        left
        refine ⟨host, ?_⟩
        simp only [keepPrefix, dropFrom, bind_apply, get_apply, nothing, if_false, answer]
        rfl
    | (.dropped, host) =>
        by_cases whole : (impl.context.memory.truncate
            (reusablePrefix impl.cached prompt)).posMin = 0
        · right
          refine ⟨host, by omega, whole, ?_⟩
          simp only [keepPrefix, dropFrom, bind_apply, get_apply, nothing, if_false, answer,
            modify_apply, whole, decide_true]
          rfl
        · left
          refine ⟨host, ?_⟩
          simp only [keepPrefix, dropFrom, bind_apply, get_apply, nothing, if_false, answer,
            modify_apply, whole, decide_false]
          rfl

/-- Everything `decode` can do. -/
theorem decode_cases (batch : List Token) (impl : Impl llama) :
    (∃ host evicted logits,
      llama.decode impl.context.host impl.context.memory batch = (.done evicted logits, host) ∧
      decode batch impl = (.ok 0, extended host batch evicted logits impl)) ∨
    (∃ host ret nonzero leftover,
      llama.decode impl.context.host impl.context.memory batch =
        (.code ret nonzero leftover, host) ∧
      decode batch impl = (.ok ret,
        record (.decoded batch (.code ret nonzero leftover)) (emptied host impl))) ∨
    ∃ host error leftover,
      llama.decode impl.context.host impl.context.memory batch = (.threw error leftover, host) ∧
      decode batch impl = (.error (.foreign error),
        record (.decoded batch (.threw error leftover)) (emptied host impl)) := by
  match answer : llama.decode impl.context.host impl.context.memory batch with
  | (.done evicted logits, host) =>
      left
      refine ⟨host, evicted, logits, rfl, ?_⟩
      simp only [decode, bind_apply, get_apply, answer]
      rfl
  | (.code ret nonzero leftover, host) =>
      right
      left
      refine ⟨host, ret, nonzero, leftover, rfl, ?_⟩
      simp only [decode, bind_apply, get_apply, answer]
      rfl
  | (.threw error leftover, host) =>
      right
      right
      refine ⟨host, error, leftover, rfl, ?_⟩
      simp only [decode, bind_apply, get_apply, answer]
      rfl

end Impl

end Llamad
