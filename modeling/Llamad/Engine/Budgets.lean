import Llamad.Engine.SampleFreshness
import Mathlib.Data.List.TakeWhile

/-!
# The budgets of a generation

How much a request decodes and samples, read off its log: the prompt loop decodes what
follows the kept part of the prompt in batches, no decode takes the cache past the
context, and the generation loop, whose measure is the room left in the cache, samples at
most once more than that room. The token budget and the reasons to stop are counted along
the same invariant (`AtHead`).
-/

namespace Llamad

open Logical Semantics Program Session Impl

variable {llama : Llama} {Client : Type}

/-- The batch of a decode. -/
def Step.batch? : Step llama → Option (List Token)
  | .decoded batch _ => some batch
  | _ => none

/-- The step clears the cache, as a part of the step that follows it. -/
def Step.isCleared : Step llama → Bool
  | .cleared => true
  | _ => false

/-- The step samples a token. -/
def Step.isSample : Step llama → Bool
  | .sampled _ _ => true
  | _ => false

/-- The step is a decode that did not succeed. -/
def Step.Fails (step : Step llama) : Prop :=
  ∃ batch answer, step = .decoded batch answer ∧ ∀ evicted logits, answer ≠ .done evicted logits

/-- The batches decoded in a log, in order. -/
def batches (log : List (Entry llama)) : List (List Token) :=
  log.filterMap fun entry => entry.step.batch?

/-- What the record holds after a log. -/
def recordAfter (log : List (Entry llama)) : List Token :=
  ((log.filter fun entry => !entry.step.isCleared).getLast?.map Entry.cached).getD []

/-- The steps in front of the first sample. -/
def promptPart (log : List (Entry llama)) : List (Entry llama) :=
  log.takeWhile fun entry => !entry.step.isSample

variable (config : EngineConfig)

/-- The record never holds more than the context, and no decode would take it there. -/
def WithinContext (log : List (Entry llama)) : Prop :=
  Throughout (fun before entry => entry.cached.length ≤ config.nCtxSeq ∧
    ∀ batch answer, entry.step = .decoded batch answer →
      (recordAfter before).length + batch.length ≤ config.nCtxSeq) log

/-- A prompt loop went in order through the tokens behind the kept part of the prompt, in
batches that are not empty and not too long, to the end unless a decode failed. -/
structure PromptLoop (tokens : List Token) (kept : Nat) (log : List (Entry llama)) : Prop where
  left : kept < tokens.length
  keeps : ∃ entry ∈ log, entry.step = .keptPrefix tokens kept
  inOrder : (batches log).flatten <+: tokens.drop kept
  whole : (batches log).flatten = tokens.drop kept ∨ ∃ last ∈ log.getLast?, last.step.Fails
  sized : ∀ batch ∈ batches log, batch ≠ [] ∧ batch.length ≤ config.nBatch

/-- What a request with a prompt of `tokens` keeps to, wherever it stands. -/
structure Budgeted (params : SamplingParams) (tokens : List Token) (impl : Impl llama) : Prop where
  within : WithinContext config impl.log
  record : recordAfter impl.log = impl.cached
  short : impl.cached.length ≤ config.nCtxSeq
  samples : (drawn impl.log).length + tokens.length ≤ config.nCtxSeq + 1
  budget : 0 ≤ params.maxTokens → (drawn impl.log).length ≤ params.maxTokens
  prompt : ∃ kept, PromptLoop config tokens kept (promptPart impl.log)

section Log

variable {log : List (Entry llama)} {step : Step llama} {cached : List Token} {memory : Memory}

@[simp] theorem batches_append (first second : List (Entry llama)) :
    batches (first ++ second) = batches first ++ batches second :=
  List.filterMap_append

theorem recordAfter_snoc (kept : step.isCleared = false) :
    recordAfter (log ++ [⟨step, cached, memory⟩]) = cached := by
  simp [recordAfter, kept]

theorem recordAfter_snoc_cleared :
    recordAfter (log ++ [⟨.cleared, cached, memory⟩]) = recordAfter log := by
  simp [recordAfter, Step.isCleared]

/-- Nothing that follows a sample belongs to the prompt. -/
theorem promptPart_append_sample (logits : Token → llama.Logit) (token : Token)
    (after : List (Entry llama)) :
    promptPart (log ++ ⟨.sampled logits token, cached, memory⟩ :: after) = promptPart log := by
  induction log with
  | nil => simp [promptPart, Step.isSample]
  | cons entry log inductionHypothesis =>
      simp only [promptPart, List.cons_append, List.takeWhile_cons] at inductionHypothesis ⊢
      rw [inductionHypothesis]

/-- Without a sample everything belongs to the prompt. -/
theorem promptPart_of_unsampled (unsampled : drawn log = []) : promptPart log = log := by
  rw [promptPart, List.takeWhile_eq_self_iff]
  intro entry member
  cases isStep : entry.step with
  | sampled logits token =>
      have sampled : token ∈ drawn log := by
        rw [drawn, List.mem_filterMap]
        exact ⟨entry, member, by rw [isStep]⟩
      rw [unsampled] at sampled
      cases sampled
  | cleared => rfl
  | keptPrefix prompt kept => rfl
  | decoded batch answer => rfl

variable {config}

/-- A step that decodes nothing is within the context as long as the record is. -/
theorem WithinContext.snoc (within : WithinContext config log)
    (short : cached.length ≤ config.nCtxSeq) (undecoded : step.batch? = none) :
    WithinContext config (log ++ [⟨step, cached, memory⟩]) := by
  refine Throughout.snoc within ⟨short, fun batch answer same => ?_⟩
  rw [show step = .decoded batch answer from same] at undecoded
  cases undecoded

/-- A decode the context has room for is within it. -/
theorem WithinContext.snoc_decoded (within : WithinContext config log)
    (short : cached.length ≤ config.nCtxSeq) {batch : List Token} {answer : Decoded llama.Logit}
    (room : (recordAfter log).length + batch.length ≤ config.nCtxSeq) :
    WithinContext config (log ++ [⟨.decoded batch answer, cached, memory⟩]) := by
  refine Throughout.snoc within ⟨short, ?_⟩
  rintro _ _ ⟨⟩
  exact room

/-- A failed decode for which there was room is within the context. -/
theorem WithinContext.snoc_failed (within : WithinContext config log) {batch : List Token}
    {answer : Decoded llama.Logit} {first second : Memory}
    (room : (recordAfter log).length + batch.length ≤ config.nCtxSeq) :
    WithinContext config (log ++ [⟨.cleared, [], first⟩] ++ [⟨.decoded batch answer, [], second⟩]) := by
  have cleared : WithinContext config (log ++ [⟨.cleared, [], first⟩]) :=
    within.snoc (Nat.zero_le _) rfl
  refine cleared.snoc_decoded (Nat.zero_le _) ?_
  rwa [recordAfter_snoc_cleared]

end Log

/-- The prompt of a request was decoded behind its kept part, in order and whole. -/
structure Prompted (tokens : List Token) (kept : Nat) (log : List (Entry llama)) : Prop where
  loop : PromptLoop config tokens kept (promptPart log)
  whole : (batches (promptPart log)).flatten = tokens.drop kept

/-- The generation loop is about to begin its round number `completion`. -/
structure AtHead (params : SamplingParams) (tokens : List Token) (kept completion : Nat)
    (impl : Impl llama) : Prop where
  within : WithinContext config impl.log
  record : recordAfter impl.log = impl.cached
  cached : impl.cached.length = tokens.length + completion
  short : impl.cached.length ≤ config.nCtxSeq
  samples : (drawn impl.log).length = completion
  budget : 0 ≤ params.maxTokens → completion ≤ params.maxTokens
  prompted : Prompted config tokens kept impl.log

/-- The last step was a decode that reported a positive code. -/
def EndsWithoutSlot (log : List (Entry llama)) : Prop :=
  ∃ last ∈ log.getLast?, ∃ batch ret nonzero leftover,
    last.step = .decoded batch (.code ret nonzero leftover) ∧ 0 < ret

/-- The generation loop ended within its budgets, and for length only where one of them was
used up. -/
structure EndsWithin (params : SamplingParams) (tokens : List Token) (kept : Nat)
    (reason : FinishReason) (completion : Nat) (impl : Impl llama) : Prop where
  budgeted : Budgeted config params tokens impl
  prompted : Prompted config tokens kept impl.log
  completion_le : completion ≤ (drawn impl.log).length
  length : reason = .length → completion = params.maxTokens ∨
    impl.cached.length = config.nCtxSeq ∨ EndsWithoutSlot impl.log

variable {config} {params : SamplingParams} {tokens : List Token} {kept completion : Nat}
  {impl : Impl llama}

theorem budgetSpent_eq_true_iff :
    budgetSpent params completion = true ↔ 0 ≤ params.maxTokens ∧ params.maxTokens ≤ completion := by
  rw [budgetSpent, Bool.and_eq_true, decide_eq_true_eq, decide_eq_true_eq]

theorem budgetSpent_eq_false_iff :
    budgetSpent params completion = false ↔
      (0 ≤ params.maxTokens → completion < params.maxTokens) := by
  rw [← Bool.not_eq_true, budgetSpent_eq_true_iff]
  omega

namespace AtHead

variable (head : AtHead config params tokens kept completion impl)
include head

theorem budgeted : Budgeted config params tokens impl where
  within := head.within
  record := head.record
  short := head.short
  samples := by
    have cached := head.cached
    have short := head.short
    rw [head.samples]
    omega
  budget := by
    rw [head.samples]
    exact head.budget
  prompt := ⟨kept, head.prompted.loop⟩

/-- A round whose budget is not spent may sample. -/
theorem sampled (spare : budgetSpent params completion = false) (token : Token) :
    Budgeted config params tokens (impl.sampled token) ∧
      Prompted config tokens kept (impl.sampled token).log ∧
      (drawn (impl.sampled token).log).length = completion + 1 := by
  have prompt : promptPart (impl.sampled token).log = promptPart impl.log :=
    promptPart_append_sample _ _ []
  have samples : (drawn (impl.sampled token).log).length = completion + 1 := by
    rw [drawn_sampled, List.length_append, head.samples, List.length_singleton]
  refine ⟨⟨head.within.snoc head.short rfl, recordAfter_snoc rfl, head.short, ?_, ?_, ?_⟩, ?_,
    samples⟩
  · have cached := head.cached
    have short := head.short
    omega
  · have under := budgetSpent_eq_false_iff.mp spare
    rw [samples]
    push_cast
    omega
  · rw [prompt]
    exact ⟨kept, head.prompted.loop⟩
  · exact ⟨prompt.symm ▸ head.prompted.loop, prompt.symm ▸ head.prompted.whole⟩

/-- A round that decodes its token comes to the head of the loop again. -/
theorem extended {token : Token} (spare : budgetSpent params completion = false)
    (room : impl.cached.length + 1 ≤ config.nCtxSeq) (host : llama.Host) (evicted : Nat)
    (logits : Token → llama.Logit) :
    AtHead config params tokens kept (completion + 1)
      (Impl.extended host [token] evicted logits (impl.sampled token)) := by
  obtain ⟨budgeted, prompted, samples⟩ := head.sampled spare token
  have prompt : promptPart (Impl.extended host [token] evicted logits (impl.sampled token)).log =
      promptPart (impl.sampled token).log := by
    simp only [Impl.extended, Impl.sampled, Impl.record, List.append_assoc, List.singleton_append,
      promptPart_append_sample]
  have longer : (impl.cached ++ [token]).length ≤ config.nCtxSeq := by
    rwa [List.length_append, List.length_singleton]
  refine ⟨budgeted.within.snoc_decoded longer ?_, recordAfter_snoc rfl, ?_, longer, ?_, ?_, ?_⟩
  · rw [budgeted.record]
    exact room
  · have cached := head.cached
    simp only [Impl.extended, Impl.sampled, Impl.record, List.length_append, List.length_singleton]
    omega
  · rw [drawn_extended, samples]
  · have under := budgetSpent_eq_false_iff.mp spare
    push_cast
    omega
  · exact ⟨prompt.symm ▸ prompted.loop, prompt.symm ▸ prompted.whole⟩

/-- A round whose decode fails leaves an empty cache. -/
theorem emptied {token : Token} (spare : budgetSpent params completion = false)
    (room : impl.cached.length + 1 ≤ config.nCtxSeq) (host : llama.Host)
    (answer : Decoded llama.Logit) :
    let after := Impl.record (.decoded [token] answer) (Impl.emptied host (impl.sampled token))
    Budgeted config params tokens after ∧ Prompted config tokens kept after.log ∧
      (drawn after.log).length = completion + 1 := by
  intro after
  obtain ⟨budgeted, prompted, samples⟩ := head.sampled spare token
  have prompt : promptPart after.log = promptPart (impl.sampled token).log := by
    simp only [after, Impl.emptied, Impl.sampled, Impl.record, List.append_assoc,
      List.cons_append, List.nil_append, promptPart_append_sample]
  have sameSamples : drawn after.log = drawn (impl.sampled token).log := by
    rw [drawn_decoded, drawn_emptied]
  have roomAfter : (recordAfter (impl.sampled token).log).length + [token].length ≤
      config.nCtxSeq := by
    rw [budgeted.record]
    exact room
  refine ⟨⟨budgeted.within.snoc_failed roomAfter, recordAfter_snoc rfl, Nat.zero_le _, ?_, ?_, ?_⟩,
    ?_, ?_⟩
  · rw [sameSamples]
    exact budgeted.samples
  · rw [sameSamples]
    exact budgeted.budget
  · rw [prompt]
    exact budgeted.prompt
  · exact ⟨prompt.symm ▸ prompted.loop, prompt.symm ▸ prompted.whole⟩
  · rw [sameSamples, samples]

end AtHead

/-- A round ends within the budgets or comes to the head of the loop again. -/
theorem generationRound_within {resolved : ResolvedTokens} {onChunk : ChunkCallback Client}
    (locals : Locals llama) :
    Triple (fun session => AtHead config params tokens kept locals.completionTokens session.impl)
      (generationRound config params resolved onChunk locals)
      (fun result after => Sum.elim
        (fun next => AtHead config params tokens kept next.completionTokens after.impl)
        (fun ending => EndsWithin config params tokens kept ending.reason
          ending.locals.completionTokens after.impl) result)
      (fun _ after => Budgeted config params tokens after.impl) := by
  intro session head
  have outcome := generationRound_outcome config params resolved onChunk locals session
  generalize generationRound config params resolved onChunk locals session = result at outcome ⊢
  cases outcome with
  | spent exhausted =>
      refine ⟨head.budgeted, head.prompted, head.samples.ge, fun _ => .inl ?_⟩
      have under := budgetSpent_eq_true_iff.mp exhausted
      exact le_antisymm (head.budget under.1) under.2
  | unsampled _ _ => exact head.budgeted
  | @eog token _ samples _ =>
      obtain ⟨budgeted, prompted, count⟩ := head.sampled samples.spare token
      exact ⟨budgeted, prompted, by rw [count]; exact Nat.le_succ _, nofun⟩
  | @unrendered token _ _ samples _ _ => exact (head.sampled samples.spare token).1
  | @undelivered token _ _ _ _ samples _ _ _ => exact (head.sampled samples.spare token).1
  | @ends token sampler piece status filter receiver ending pushes finishes =>
      obtain ⟨budgeted, prompted, count⟩ := head.sampled pushes.spare token
      cases status with
      | stopped =>
          cases finishes
          exact ⟨budgeted, prompted, count.ge, nofun⟩
      | cancelled =>
          cases finishes
          exact ⟨budgeted, prompted, count.ge, nofun⟩
      | «continue» =>
          rw [ended] at finishes
          split at finishes
          · rename_i spent
            cases finishes
            refine ⟨budgeted, prompted, count.ge, fun _ => .inl ?_⟩
            have budget := budgeted.budget (budgetSpent_eq_true_iff.mp spent).1
            rw [count] at budget
            exact le_antisymm budget (budgetSpent_eq_true_iff.mp spent).2
          · cases finishes
  | @full token sampler piece status filter receiver goesOn noRoom =>
      obtain ⟨budgeted, prompted, count⟩ := head.sampled goesOn.spare token
      refine ⟨budgeted, prompted, count.ge, fun _ => .inr (.inl ?_)⟩
      have short := head.short
      exact Nat.le_antisymm short (Nat.le_of_lt_succ noRoom)
  | decoded goesOn room _ => exact head.extended goesOn.spare room _ _ _
  | noSlot goesOn room answer positive =>
      obtain ⟨budgeted, prompted, count⟩ := head.emptied goesOn.spare room _ _
      refine ⟨budgeted, prompted, count.ge, fun _ => .inr (.inr ?_)⟩
      exact ⟨_, List.getLast?_concat .., _, _, _, _, rfl, positive⟩
  | failed goesOn room _ _ => exact (head.emptied goesOn.spare room _ _).1
  | threw goesOn room _ => exact (head.emptied goesOn.spare room _ _).1

section Prompt

variable (config) in
/-- The prompt loop stands at `off`. -/
structure PromptAt (tokens : List Token) (kept off : Nat) (impl : Impl llama) : Prop where
  behind : kept ≤ off
  inside : off ≤ tokens.length
  cached : impl.cached = tokens.take off
  unsampled : drawn impl.log = []
  within : WithinContext config impl.log
  record : recordAfter impl.log = impl.cached
  keeps : ∃ entry ∈ impl.log, entry.step = .keptPrefix tokens kept
  inOrder : (batches impl.log).flatten = (tokens.drop kept).take (off - kept)
  sized : ∀ batch ∈ batches impl.log, batch ≠ [] ∧ batch.length ≤ config.nBatch

variable (config) in
/-- The batch the prompt loop decodes at `off`. -/
def promptBatch (tokens : List Token) (off : Nat) : List Token :=
  (tokens.drop off).take (min config.nBatch (tokens.length - off))

variable {off : Nat}

theorem promptBatch_length :
    (promptBatch config tokens off).length = min config.nBatch (tokens.length - off) := by
  rw [promptBatch, List.length_take, List.length_drop]
  omega

/-- The batch at `off` continues what was decoded in front of it. -/
theorem take_append_promptBatch (behind : kept ≤ off) :
    (tokens.drop kept).take (off - kept) ++ promptBatch config tokens off =
      (tokens.drop kept).take (off + min config.nBatch (tokens.length - off) - kept) := by
  rw [promptBatch, show off + min config.nBatch (tokens.length - off) - kept =
    (off - kept) + min config.nBatch (tokens.length - off) by omega, List.take_add, List.drop_drop,
    Nat.add_sub_cancel' behind]

namespace PromptAt

variable (standing : PromptAt config tokens kept off impl)
include standing

theorem sized_batch (inside : off < tokens.length) :
    ∀ batch ∈ batches impl.log ++ [promptBatch config tokens off],
      batch ≠ [] ∧ batch.length ≤ config.nBatch := by
  have positive := config.nBatch_pos
  intro batch member
  rw [List.mem_append, List.mem_singleton] at member
  obtain member | rfl := member
  · exact standing.sized batch member
  · rw [← List.length_pos_iff, promptBatch_length]
    omega

/-- There is room for the next batch of a prompt that fits. -/
theorem room (inside : off < tokens.length) (fits : tokens.length < config.nCtxSeq) :
    (recordAfter impl.log).length + (promptBatch config tokens off).length ≤ config.nCtxSeq := by
  rw [standing.record, standing.cached, promptBatch_length, List.length_take]
  omega

/-- The next batch decoded. -/
theorem extended (inside : off < tokens.length) (fits : tokens.length < config.nCtxSeq)
    (host : llama.Host) (evicted : Nat) (logits : Token → llama.Logit) :
    PromptAt config tokens kept (off + min config.nBatch (tokens.length - off))
      (Impl.extended host (promptBatch config tokens off) evicted logits impl) := by
  have joined : impl.cached ++ promptBatch config tokens off =
      tokens.take (off + min config.nBatch (tokens.length - off)) := by
    rw [standing.cached]
    exact List.take_add.symm
  have behind := standing.behind
  have decoded : batches (Impl.extended host (promptBatch config tokens off) evicted logits
      impl).log = batches impl.log ++ [promptBatch config tokens off] :=
    batches_append _ _
  refine ⟨by omega, by omega, joined, ?_, ?_, recordAfter_snoc rfl, ?_, ?_, ?_⟩
  · rw [drawn_extended, standing.unsampled]
  · refine standing.within.snoc_decoded ?_ (standing.room inside fits)
    rw [joined, List.length_take]
    omega
  · obtain ⟨entry, member, same⟩ := standing.keeps
    exact ⟨entry, List.mem_append_left _ member, same⟩
  · rw [decoded, List.flatten_append, standing.inOrder, List.flatten_singleton,
      take_append_promptBatch behind]
  · rw [decoded]
    exact standing.sized_batch inside

/-- The next batch refused. -/
theorem emptied (left : kept < tokens.length) (inside : off < tokens.length)
    (fits : tokens.length < config.nCtxSeq) (params : SamplingParams) (host : llama.Host)
    {answer : Decoded llama.Logit} (fails : ∀ evicted logits, answer ≠ .done evicted logits) :
    Budgeted config params tokens (Impl.record (.decoded (promptBatch config tokens off) answer)
      (Impl.emptied host impl)) := by
  let after : Impl llama :=
    Impl.record (.decoded (promptBatch config tokens off) answer) (Impl.emptied host impl)
  have unsampled : drawn after.log = [] := by
    rw [drawn_decoded, drawn_emptied, standing.unsampled]
  have decoded : batches after.log = batches impl.log ++ [promptBatch config tokens off] := by
    simp [after, Impl.emptied, Impl.record, batches, Step.batch?]
  refine ⟨standing.within.snoc_failed (standing.room inside fits), recordAfter_snoc rfl,
    Nat.zero_le _, ?_, ?_, kept, ?_⟩
  · rw [unsampled, List.length_nil]
    omega
  · rw [unsampled]
    exact id
  · rw [promptPart_of_unsampled unsampled]
    refine ⟨left, ?_, ?_, .inr ⟨_, List.getLast?_concat .., _, _, rfl, fails⟩, ?_⟩
    · obtain ⟨entry, member, same⟩ := standing.keeps
      exact ⟨entry, List.mem_append_left _ (List.mem_append_left _ member), same⟩
    · rw [decoded, List.flatten_append, standing.inOrder, List.flatten_singleton,
        take_append_promptBatch standing.behind]
      exact List.take_prefix _ _
    · rw [decoded]
      exact standing.sized_batch inside

/-- A prompt decoded to its end. -/
theorem atHead (left : kept < tokens.length) (ends : tokens.length ≤ off)
    (fits : tokens.length < config.nCtxSeq) (params : SamplingParams) :
    AtHead config params tokens kept 0 impl := by
  have all : off = tokens.length := Nat.le_antisymm standing.inside ends
  have cached := standing.cached
  have whole := standing.inOrder
  rw [all, List.take_length] at cached
  rw [all, List.take_of_length_le (by rw [List.length_drop])] at whole
  have same := promptPart_of_unsampled standing.unsampled
  have loop : PromptLoop config tokens kept (promptPart impl.log) := by
    rw [same]
    exact ⟨left, standing.keeps, whole ▸ List.prefix_rfl, .inl whole, standing.sized⟩
  refine ⟨standing.within, standing.record, by rw [cached]; rfl, ?_, ?_, id, loop, ?_⟩
  · rw [cached]
    exact fits.le
  · rw [standing.unsampled, List.length_nil]
  · rw [same, whole]

end PromptAt

/-- Trimming the cache leaves a token of the prompt to decode. -/
theorem keepPrefix_promptAt (nonempty : tokens ≠ []) (fits : tokens.length < config.nCtxSeq)
    (started : impl.log = []) :
    Meets (fun kept after => kept < tokens.length ∧ PromptAt config tokens kept kept after)
      (fun _ _ => False) (keepPrefix tokens impl) := by
  have positive := List.length_pos_iff.mpr nonempty
  have nothing : WithinContext config impl.log := by
    rw [started]
    exact .nil
  obtain ⟨host, ran⟩ | ⟨host, _, _, ran⟩ := keepPrefix_cases tokens impl
  · rw [ran]
    have cleared : WithinContext config (Impl.emptied host impl).log :=
      nothing.snoc (Nat.zero_le _) rfl
    refine ⟨positive, le_rfl, Nat.zero_le _, rfl, ?_, cleared.snoc (Nat.zero_le _) rfl,
      recordAfter_snoc rfl, ⟨_, List.mem_append_right _ (List.mem_singleton_self _), rfl⟩, ?_, ?_⟩
    · simp [Impl.emptied, Impl.record, drawn, started]
    · simp [Impl.emptied, Impl.record, batches, started, Step.batch?]
    · simp [Impl.emptied, Impl.record, batches, started, Step.batch?]
  · rw [ran]
    obtain ⟨_, short, same⟩ := reusablePrefix_spec impl.cached tokens
    refine ⟨by omega, le_rfl, by omega, same, ?_, nothing.snoc ?_ rfl, recordAfter_snoc rfl,
      ⟨_, List.mem_append_right _ (List.mem_singleton_self _), rfl⟩, ?_, ?_⟩
    · simp [trimmed, Impl.record, drawn, started]
    · rw [same, List.length_take]
      omega
    · simp [trimmed, Impl.record, batches, started, Step.batch?]
    · simp [trimmed, Impl.record, batches, started, Step.batch?]

/-- The prompt loop decodes the rest of the prompt in batches. -/
theorem decodePrompt_within (left : kept < tokens.length) (fits : tokens.length < config.nCtxSeq)
    (params : SamplingParams) :
    Triple (PromptAt config tokens kept kept : Impl llama → Prop)
      (decodePrompt config tokens kept) (fun _ => AtHead config params tokens kept 0)
      (fun _ => Budgeted config params tokens) := by
  have rounds : ∀ off, Triple (PromptAt config tokens kept off : Impl llama → Prop)
      (promptRound config tokens off)
      (fun result after => Sum.elim (PromptAt config tokens kept · after)
        (fun _ => AtHead config params tokens kept 0 after) result)
      (fun _ => Budgeted config params tokens) := by
    intro off impl standing
    obtain ⟨past, ran⟩ | ⟨inside, ⟨host, evicted, logits, _, ran⟩ |
      ⟨host, ret, nonzero, leftover, _, ran⟩ | ⟨host, error, leftover, _, ran⟩⟩ :=
        promptRound_cases config tokens off impl
    · rw [ran]
      exact standing.atHead left past fits params
    · rw [ran]
      exact standing.extended inside fits host evicted logits
    · rw [ran]
      exact standing.emptied left inside fits params host nofun
    · rw [ran]
      exact standing.emptied left inside fits params host nofun
  exact Triple.loop rounds kept

end Prompt

section Run

variable (config) in
/-- What a request that returned did within its budgets. -/
structure ReturnsWithin (params : SamplingParams) (tokens : List Token) (result : GenerateResult)
    (impl : Impl llama) : Prop where
  promptTokens : result.stats.promptTokens = tokens.length
  completion : result.stats.completionTokens ≤ config.nCtxSeq - tokens.length + 1
  budget : 0 ≤ params.maxTokens → result.stats.completionTokens ≤ params.maxTokens
  ends : EndsWithin config params tokens result.stats.cachedPromptTokens result.reason
    result.stats.completionTokens impl

theorem ReturnsWithin.of_ends {result : GenerateResult}
    (promptTokens : result.stats.promptTokens = tokens.length)
    (ends : EndsWithin config params tokens result.stats.cachedPromptTokens result.reason
      result.stats.completionTokens impl) :
    ReturnsWithin config params tokens result impl := by
  have counted := ends.completion_le
  have samples := ends.budgeted.samples
  refine ⟨promptTokens, by omega, fun bounded => ?_, ends⟩
  exact (Int.ofNat_le.mpr counted).trans (ends.budgeted.budget bounded)

/-- The generation loop keeps to the budgets. -/
theorem generation_within {resolved : ResolvedTokens} {onChunk : ChunkCallback Client}
    (locals : Locals llama) :
    Triple (fun session => AtHead config params tokens kept locals.completionTokens session.impl)
      (generation config params resolved onChunk locals)
      (fun ending after => EndsWithin config params tokens kept ending.reason
        ending.locals.completionTokens after.impl)
      (fun _ after => Budgeted config params tokens after.impl) :=
  Triple.loop generationRound_within locals

/-- Everything behind the prompt keeps to the budgets. -/
theorem respond_within {onChunk : ChunkCallback Client} (admitted : Admitted llama) :
    Triple (fun session => AtHead config params tokens kept 0 session.impl)
      (respond config params onChunk admitted kept)
      (fun result after => result.stats.promptTokens = admitted.tokens.length ∧
        EndsWithin config params tokens result.stats.cachedPromptTokens result.reason
          result.stats.completionTokens after.impl)
      (fun _ after => Budgeted config params tokens after.impl) := by
  refine .bind (generation_within
    { sampler := admitted.sampler, filter := { stops := params.stop }, completionTokens := 0 })
    fun ending => ?_
  have flushing : Triple
      (fun session : Session llama Client => EndsWithin config params tokens kept ending.reason
        ending.locals.completionTokens session.impl)
      (flushEnding onChunk ending)
      (fun _ after => EndsWithin config params tokens kept ending.reason
        ending.locals.completionTokens after.impl)
      (fun _ after => Budgeted config params tokens after.impl) :=
    (flushEnding_preserves (EndsWithin config params tokens kept ending.reason
      ending.locals.completionTokens) onChunk ending).consequence (fun _ _ ends => ends)
      fun _ _ ends => ends.budgeted
  exact .bind flushing fun _ => .pure fun _ ends => ⟨rfl, ends⟩

/-- A generation that was admitted keeps to its budgets, however it ends. -/
theorem generate_within {entropy : llama.Entropy} {prompt : Bytes} {admitted : Admitted llama}
    (passed : admission config entropy prompt params = .ok admitted)
    (onChunk : ChunkCallback Client) :
    Triple (fun session : Session llama Client => session.impl.log = [])
      (generate config entropy prompt params onChunk)
      (fun result after => ReturnsWithin config params admitted.tokens result after.impl)
      (fun _ after => Budgeted config params admitted.tokens after.impl) := by
  obtain ⟨_, nonempty, fits⟩ := admission_ok passed
  have admitting : Triple (fun session : Session llama Client => session.impl.log = [])
      (attempt (admission config entropy prompt params))
      (fun same session => same = admitted ∧ session.impl.log = [])
      (fun _ after => Budgeted config params admitted.tokens after.impl) := by
    rw [passed]
    exact .attempt (fun _ _ started same => ⟨(Except.ok.inj same).symm, started⟩) nofun
  refine .bind admitting fun same => ?_
  let keeps (kept : Nat) (session : Session llama Client) : Prop :=
    same = admitted ∧ kept < admitted.tokens.length ∧
      PromptAt config admitted.tokens kept kept session.impl
  have keeping : Triple (fun session : Session llama Client => same = admitted ∧
        session.impl.log = []) (onImpl (keepPrefix same.tokens)) keeps
      (fun _ after => Budgeted config params admitted.tokens after.impl) := by
    refine .zoom ?_
    rintro session ⟨rfl, started⟩
    exact (keepPrefix_promptAt nonempty fits started).imp
      (fun kept after _ met => ⟨rfl, met.1, met.2⟩) fun _ _ _ never => never.elim
  refine .bind keeping fun kept => ?_
  have prompting : Triple (keeps kept) (onImpl (decodePrompt config same.tokens kept))
      (fun _ after => same = admitted ∧ AtHead config params admitted.tokens kept 0 after.impl)
      (fun _ after => Budgeted config params admitted.tokens after.impl) := by
    refine .zoom ?_
    rintro session ⟨rfl, left, standing⟩
    exact (decodePrompt_within left fits params session.impl standing).imp
      (fun _ _ _ head => ⟨rfl, head⟩) fun _ _ _ budgeted => budgeted
  refine .bind prompting fun _ => ?_
  rintro session ⟨rfl, head⟩
  exact (respond_within same session head).imp (fun _ _ _ met => .of_ends met.1 met.2)
    fun _ _ _ budgeted => budgeted

/-- A request on any cache. Where its prompt fits and its words and its sampler are
accepted it decodes and samples within its budgets, wherever it ends; a refused one does
nothing, and a result that stopped for length has used a budget up. Both loops end in any
case: they are defined by the decrease of what is left of the prompt and of the context. -/
theorem serve_within (request : Request llama Client)
    (tokenized : tokenize llama request.prompt true true = .ok tokens) (impl : Impl llama) :
    let run := serve config request impl
    (∀ resolved sampler, config.embeddings = false → 0 < tokens.length →
      tokens.length < config.nCtxSeq → resolve llama request.params = .ok resolved →
      SamplerChain.build llama request.entropy request.params resolved = .ok sampler →
        Budgeted config request.params tokens run.2.impl) ∧
    (∀ error, admission config request.entropy request.prompt request.params = .error error →
      run.1 = .error error ∧ run.2.impl.log = []) ∧
    ∀ result, run.1 = .ok result →
      ReturnsWithin config request.params tokens result run.2.impl := by
  intro run
  have within {admitted : Admitted llama}
      (passed : admission config request.entropy request.prompt request.params = .ok admitted) :
      Meets (fun result after => ReturnsWithin config request.params tokens result after.impl)
        (fun _ after => Budgeted config request.params tokens after.impl) run := by
    obtain ⟨same, _⟩ := admission_ok passed
    rw [tokenized] at same
    cases same
    exact generate_within passed request.onChunk
      ⟨{ impl with log := [] }, ⟨request.client, []⟩⟩ rfl
  have refused {error : Exception}
      (failed : admission config request.entropy request.prompt request.params = .error error) :
      run = (.error error, ⟨{ impl with log := [] }, ⟨request.client, []⟩⟩) := by
    simp only [run, serve, generate, bind_apply, attempt_apply, failed]
  refine ⟨fun resolved sampler generates nonempty fits resolves built => ?_,
    fun error failed => ?_, fun result returned => ?_⟩
  · have met := within (admission_of_ok generates tokenized (List.ne_nil_of_length_pos nonempty)
      fits resolves built)
    exact (met.imp (fun _ _ _ returns => returns.ends.budgeted) fun _ _ _ keeps => keeps :
      Meets (fun _ after => Budgeted config request.params tokens after.impl)
        (fun _ after => Budgeted config request.params tokens after.impl) run).final
  · rw [refused failed]
    exact ⟨rfl, rfl⟩
  · cases passed : admission config request.entropy request.prompt request.params with
    | error error =>
        rw [refused passed] at returned
        cases returned
    | ok admitted => exact (within passed).returned returned

/-- The prompt `abcde` without a token budget, in a context of eight tokens that has `abx` in
its cache: `ab` is kept, the rest of the prompt decoded two tokens at a time, and the fourth
token sampled finds the context full. -/
theorem serve_within_bytes :
    let backend := Llama.bytes fun sequence => (sequence.getLastD 0 + 1) % 257
    let config : EngineConfig := ⟨8, 2, false, 0, by decide, by decide⟩
    let request : Request backend Unit :=
      ⟨(), literal "abcde", { maxTokens := -1, temperature := 0 }, none, ()⟩
    let impl : Impl backend :=
      ⟨[97, 98, 120], ⟨(), ⟨[97, 98, 120], 0⟩, fun _ => backend.zero⟩, []⟩
    let run := serve config request impl
    Budgeted config request.params [97, 98, 99, 100, 101] run.2.impl ∧
      (∀ result, run.1 = .ok result →
        ReturnsWithin config request.params [97, 98, 99, 100, 101] result run.2.impl) ∧
      batches (promptPart run.2.impl.log) = [[99, 100], [101]] ∧
      batches run.2.impl.log = [[99, 100], [101], [102], [103], [104]] ∧
      drawn run.2.impl.log = [102, 103, 104, 105] ∧
      run.1.toOption.map (fun result => (result.reason, result.stats.completionTokens)) =
        some (.length, 4) := by
  intro backend config request impl run
  obtain ⟨budgeted, _, returns⟩ := @serve_within _ _ config [97, 98, 99, 100, 101] request
    (by decide) impl
  exact ⟨budgeted {} ⟨1, (), none⟩ rfl (by decide) (by decide) rfl rfl, returns,
    by decide +kernel, by decide +kernel, by decide +kernel, by decide +kernel⟩

end Run

end Llamad
