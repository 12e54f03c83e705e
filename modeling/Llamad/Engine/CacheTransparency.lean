import Llamad.Engine.CacheRecord
import Llamad.Engine.SampleFreshness

/-!
# The cache is transparent

`ideal` generates without a cache: it keeps the whole sequence and asks the model for
the logits of all of it. When the logits a decode leaves are a function of the
sequence, a generation from any record that agrees with the memory does what `ideal`
does, so what earlier requests left in the cache cannot be told from its output.

The sequence is everything decoded, not what the memory still holds of it: how much a
memory with a window lets go depends on the batches, and these depend on the cache.
-/

namespace Llamad

open Logical Semantics Program Session Impl

variable {llama : Llama} {Client : Type}

section Ideal

variable (config : EngineConfig) (model : List Token → Token → llama.Logit)

/-- One round of a generation that keeps the whole sequence instead of a cache. -/
def idealRound (params : SamplingParams) (resolved : ResolvedTokens)
    (onChunk : ChunkCallback Client) (state : Locals llama × List Token) :
    Program (Receiver Client) Exception ((Locals llama × List Token) ⊕ Ending llama) := do
  let (locals, sequence) := state
  if budgetSpent params locals.completionTokens then
    return .inr ⟨.length, true, locals⟩
  else
    let (token, sampler) ← attempt (locals.sampler.sample (model sequence))
    if llama.isEog token then
      return .inr ⟨.eog, true, { locals with sampler := sampler }⟩
    else
      let piece ← attempt (tokenToPiece llama token (token ∈ resolved.preserved))
      let (status, filter) ← locals.filter.push onChunk piece
      let locals : Locals llama := ⟨sampler, filter, locals.completionTokens + 1⟩
      match ended params locals status with
      | some ending => return .inr ending
      | none =>
          if config.nCtxSeq < sequence.length + 1 then
            return .inr ⟨.length, true, locals⟩
          else
            return .inl (locals, sequence ++ [token])

variable {config model} in
theorem idealRound_decreases {params : SamplingParams} {resolved : ResolvedTokens}
    {onChunk : ChunkCallback Client} {state next : Locals llama × List Token}
    {receiver after : Receiver Client}
    (round : idealRound config model params resolved onChunk state receiver =
      (.ok (.inl next), after)) :
    config.nCtxSeq - next.2.length < config.nCtxSeq - state.2.length := by
  obtain ⟨locals, sequence⟩ := state
  by_cases spent : budgetSpent params locals.completionTokens
  · simp only [idealRound, if_pos spent, pure_apply] at round
    cases round
  · simp only [idealRound, if_neg spent, bind_eq_ok_iff] at round
    obtain ⟨⟨token, sampler⟩, _, _, round⟩ := round
    by_cases eog : llama.isEog token
    · simp only [if_pos eog, pure_apply] at round
      cases round
    · simp only [if_neg eog, bind_eq_ok_iff] at round
      obtain ⟨_, _, _, ⟨status, filter⟩, _, _, round⟩ := round
      cases finishes : ended params ⟨sampler, filter, locals.completionTokens + 1⟩ status with
      | some ending =>
          simp only [finishes, pure_apply] at round
          cases round
      | none =>
          by_cases full : config.nCtxSeq < sequence.length + 1
          · simp only [finishes, if_pos full] at round
            cases round
          · simp only [finishes, if_neg full] at round
            cases round
            simp only [List.length_append, List.length_singleton]
            omega

/-- The rounds of a generation that keeps the whole sequence. -/
def idealGeneration (params : SamplingParams) (resolved : ResolvedTokens)
    (onChunk : ChunkCallback Client) (locals : Locals llama) (sequence : List Token) :
    Program (Receiver Client) Exception (Ending llama) :=
  loop (fun state _ => config.nCtxSeq - state.2.length)
    (idealRound config model params resolved onChunk) idealRound_decreases (locals, sequence)

/-- Everything after admission, without a cache. -/
def idealRespond (params : SamplingParams) (onChunk : ChunkCallback Client)
    (admitted : Admitted llama) :
    Program (Receiver Client) Exception (FinishReason × Nat × Nat) := do
  let ending ← idealGeneration config model params admitted.resolved onChunk
    { sampler := admitted.sampler, filter := { stops := params.stop }, completionTokens := 0 }
    admitted.tokens
  if ending.flushTail then do
    let _ ← ending.locals.filter.flush onChunk
    return (ending.reason, admitted.tokens.length, ending.locals.completionTokens)
  else
    return (ending.reason, admitted.tokens.length, ending.locals.completionTokens)

/-- Generation without a cache: what the caller of `generate` is promised. -/
def ideal (entropy : llama.Entropy) (prompt : Bytes) (params : SamplingParams)
    (onChunk : ChunkCallback Client) :
    Program (Receiver Client) Exception (FinishReason × Nat × Nat) := do
  let admitted ← attempt (admission config entropy prompt params)
  idealRespond config model params onChunk admitted

end Ideal

section Disturbance

/-- A decode that did not succeed. -/
def Step.Failed : Step llama → Prop
  | .decoded _ (.code ..) => True
  | .decoded _ (.threw ..) => True
  | _ => False

theorem Step.failed_code {batch : List Token} {ret : Int} {nonzero : ret ≠ 0}
    {leftover : Memory} :
    (Step.decoded batch (.code ret nonzero leftover) : Step llama).Failed := trivial

theorem Step.failed_threw {batch : List Token} {error : Foreign} {leftover : Memory} :
    (Step.decoded batch (.threw error leftover) : Step llama).Failed := trivial

/-- Some decode of the request did not succeed. -/
def Impl.Disturbed (impl : Impl llama) : Prop := ∃ entry ∈ impl.log, entry.step.Failed

theorem Impl.disturbed_record {step : Step llama} (failed : step.Failed) (impl : Impl llama) :
    (Impl.record step impl).Disturbed :=
  ⟨_, List.mem_append_right _ (List.mem_singleton_self _), failed⟩

/-- A failed decode stays in the log. -/
theorem Impl.Disturbed.invariant : @Impl.Invariant llama Disturbed := by
  have stays (log : List (Entry llama)) (last : Entry llama)
      (disturbed : ∃ entry ∈ log, entry.step.Failed) :
      ∃ entry ∈ log ++ [last], entry.step.Failed := by
    obtain ⟨entry, member, failed⟩ := disturbed
    exact ⟨entry, List.mem_append_left _ member, failed⟩
  exact Impl.Invariant.of_snoc stays

end Disturbance

section Refinement

variable {config : EngineConfig} {model : List Token → Token → llama.Logit}

variable (llama) in
/-- The logits a decode leaves are a function of every token of the sequence, those the
memory has let go included. -/
def Determined (model : List Token → Token → llama.Logit) : Prop :=
  ∀ host memory batch evicted logits after,
    llama.decode host memory batch = (.done evicted logits, after) →
      logits = model (memory.tokens ++ batch)

/-- The engine has decoded exactly `sequence`. -/
structure Impl.Tracks (model : List Token → Token → llama.Logit) (sequence : List Token)
    (impl : Impl llama) : Prop where
  cached : impl.cached = sequence
  memory : impl.context.memory.tokens = sequence
  logits : impl.context.logits = model sequence

theorem Impl.Tracks.extended {sequence batch : List Token} {impl : Impl llama}
    (tracks : impl.Tracks model sequence) {step : Step llama} {host : llama.Host} {evicted : Nat}
    {logits : Token → llama.Logit}
    (left : logits = model ((record step impl).context.memory.tokens ++ batch)) :
    (Impl.extended host batch evicted logits (record step impl)).Tracks model
      (sequence ++ batch) where
  cached := congrArg (· ++ batch) tracks.cached
  memory := congrArg (· ++ batch) tracks.memory
  logits := by
    rw [← tracks.memory]
    exact left

/-- A round with a cache does what a round without one does, or a decode failed. -/
theorem generationRound_refines (determined : Determined llama model) {params : SamplingParams}
    {resolved : ResolvedTokens} {onChunk : ChunkCallback Client} {locals : Locals llama}
    {sequence : List Token} {session : Session llama Client}
    (tracks : session.impl.Tracks model sequence) :
    Meets
      (fun result after => after.impl.Disturbed ∨
        match result with
        | .inr ending =>
            idealRound config model params resolved onChunk (locals, sequence) session.receiver =
              (.ok (.inr ending), after.receiver)
        | .inl next => ∃ token, after.impl.Tracks model (sequence ++ [token]) ∧
            idealRound config model params resolved onChunk (locals, sequence) session.receiver =
              (.ok (.inl (next, sequence ++ [token])), after.receiver))
      (fun error after => after.impl.Disturbed ∨
        idealRound config model params resolved onChunk (locals, sequence) session.receiver =
          (.error error, after.receiver))
      (generationRound config params resolved onChunk locals session) := by
  have drew {token : Token} {sampler : SamplerChain llama}
      (samples : Samples params locals session token sampler) :
      locals.sampler.sample (model sequence) = .ok (token, sampler) :=
    tracks.logits ▸ samples.drew
  have outcome := generationRound_outcome config params resolved onChunk locals session
  generalize generationRound config params resolved onChunk locals session = result at outcome ⊢
  cases outcome with
  | spent exhausted =>
      simp only [idealRound, exhausted, if_true, pure_apply, meets_ok]
      exact .inr trivial
  | unsampled spare failed =>
      rw [tracks.logits] at failed
      simp only [idealRound, spare, Bool.false_eq_true, if_false, bind_apply, attempt_apply, failed,
        meets_error]
      exact .inr trivial
  | eog samples finished =>
      simp only [idealRound, samples.spare, Bool.false_eq_true, if_false, bind_apply, attempt_apply,
        drew samples, finished, if_true, pure_apply, meets_ok]
      exact .inr trivial
  | unrendered samples unfinished failed =>
      simp only [idealRound, samples.spare, Bool.false_eq_true, if_false, bind_apply, attempt_apply,
        drew samples, unfinished, failed, meets_error]
      exact .inr trivial
  | undelivered samples unfinished rendered failed =>
      simp only [idealRound, samples.spare, Bool.false_eq_true, if_false, bind_apply, attempt_apply,
        drew samples, unfinished, rendered, failed, meets_error]
      exact .inr trivial
  | ends pushes finishes =>
      simp only [Locals.next] at finishes
      simp only [idealRound, pushes.spare, Bool.false_eq_true, if_false, bind_apply, attempt_apply,
        drew pushes.toSamples, pushes.unfinished, pushes.rendered, pushes.pushed, finishes, pure_apply,
        meets_ok]
      exact .inr trivial
  | full goesOn noRoom =>
      have unended := goesOn.unended
      rw [tracks.cached] at noRoom
      simp only [Locals.next] at unended
      simp only [idealRound, goesOn.spare, Bool.false_eq_true, if_false, bind_apply, attempt_apply,
        drew goesOn.toSamples, goesOn.unfinished, goesOn.rendered, goesOn.pushed, unended,
        if_pos noRoom, pure_apply, meets_ok]
      exact .inr rfl
  | @decoded token sampler piece status filter receiver host evicted logits goesOn room answer =>
      have unended := goesOn.unended
      rw [tracks.cached] at room
      have notFull : ¬ config.nCtxSeq < sequence.length + 1 := Nat.not_lt.mpr room
      simp only [Locals.next] at unended
      refine .inr ⟨token, tracks.extended (determined _ _ _ _ _ _ answer), ?_⟩
      simp only [idealRound, goesOn.spare, Bool.false_eq_true, if_false, bind_apply, attempt_apply,
        drew goesOn.toSamples, goesOn.unfinished, goesOn.rendered, goesOn.pushed, unended,
        if_neg notFull, pure_apply]
      rfl
  | noSlot _ _ _ _ => exact .inl (disturbed_record Step.failed_code _)
  | failed _ _ _ _ => exact .inl (disturbed_record Step.failed_code _)
  | threw _ _ _ => exact .inl (disturbed_record Step.failed_threw _)

/-- A generation loop with a cache does what the one without does, or a decode failed. -/
theorem generation_refines (determined : Determined llama model) (params : SamplingParams)
    (resolved : ResolvedTokens) (onChunk : ChunkCallback Client) (locals : Locals llama)
    {sequence : List Token} {session : Session llama Client}
    (tracks : session.impl.Tracks model sequence) :
    Meets
      (fun ending after => after.impl.Disturbed ∨
        idealGeneration config model params resolved onChunk locals sequence session.receiver =
          (.ok ending, after.receiver))
      (fun error after => after.impl.Disturbed ∨
        idealGeneration config model params resolved onChunk locals sequence session.receiver =
          (.error error, after.receiver))
      (generation config params resolved onChunk locals session) := by
  generalize target : idealGeneration config model params resolved onChunk locals sequence
    session.receiver = outcome
  -- What the loop without a cache would still do from here never changes.
  let agrees (locals : Locals llama) (session : Session llama Client) : Prop :=
    session.impl.Disturbed ∨ ∃ sequence, session.impl.Tracks model sequence ∧
      idealGeneration config model params resolved onChunk locals sequence session.receiver =
        outcome
  have rounds : ∀ locals, Triple (agrees locals)
      (generationRound config params resolved onChunk locals)
      (fun result after => Sum.elim (agrees · after)
        (fun ending => after.impl.Disturbed ∨ outcome = (.ok ending, after.receiver)) result)
      (fun error after => after.impl.Disturbed ∨ outcome = (.error error, after.receiver)) := by
    rintro locals session (disturbed | ⟨sequence, tracks, same⟩)
    · refine (Impl.Disturbed.invariant.generationRound params resolved onChunk locals session
        disturbed).imp (fun result after _ still => ?_) fun error after _ still => .inl still
      cases result with
      | inl next => exact .inl still
      | inr ending => exact .inl still
    · refine (generationRound_refines determined tracks).imp ?_ ?_
      · rintro (next | ending) after _ (disturbed | met)
        · exact .inl disturbed
        · obtain ⟨token, tracksNext, round⟩ := met
          refine .inr ⟨sequence ++ [token], tracksNext, ?_⟩
          rw [← same]
          exact (loop_of_inl round).symm
        · exact .inl disturbed
        · refine .inr ?_
          rw [← same]
          exact loop_of_inr met
      · rintro error after _ (disturbed | met)
        · exact .inl disturbed
        · refine .inr ?_
          rw [← same]
          exact loop_of_error met
  exact Triple.loop rounds locals session (.inr ⟨sequence, tracks, target⟩)

/-- The prompt loop leaves the engine with exactly the prompt decoded, or a decode failed. -/
theorem decodePrompt_tracks (determined : Determined llama model) {tokens : List Token}
    {kept : Nat} {impl : Impl llama} (left : kept < tokens.length)
    (cached : impl.cached = tokens.take kept)
    (memory : impl.context.memory.tokens = tokens.take kept) :
    Meets (fun _ after => after.Disturbed ∨ after.Tracks model tokens)
      (fun _ after => after.Disturbed) (decodePrompt config tokens kept impl) := by
  let upTo (off : Nat) (impl : Impl llama) : Prop :=
    impl.Disturbed ∨ off ≤ tokens.length ∧ impl.cached = tokens.take off ∧
      impl.context.memory.tokens = tokens.take off ∧
      (off = tokens.length → impl.context.logits = model tokens)
  have rounds : ∀ off, Triple (upTo off) (promptRound config tokens off)
      (fun result after => Sum.elim (upTo · after)
        (fun _ => after.Disturbed ∨ after.Tracks model tokens) result)
      (fun _ after => after.Disturbed) := by
    rintro off impl (disturbed | ⟨short, cached, memory, logits⟩)
    · refine (Impl.Disturbed.invariant.promptRound tokens off impl disturbed).imp
        (fun result after _ still => ?_) fun error after _ still => still
      cases result with
      | inl next => exact .inl still
      | inr ending => exact .inl still
    · obtain ⟨past, ran⟩ | ⟨inside, ⟨host, evicted, fresh, answer, ran⟩ |
        ⟨host, ret, nonzero, leftover, _, ran⟩ | ⟨host, error, leftover, _, ran⟩⟩ :=
          promptRound_cases config tokens off impl
      · have whole : off = tokens.length := Nat.le_antisymm short past
        rw [ran]
        rw [whole, List.take_length] at cached memory
        exact .inr ⟨cached, memory, logits whole⟩
      · have joined : tokens.take off ++
            (tokens.drop off).take (min config.nBatch (tokens.length - off)) =
            tokens.take (off + min config.nBatch (tokens.length - off)) :=
          List.take_add.symm
        rw [ran]
        refine .inr ⟨by omega, ?_, ?_, fun whole => ?_⟩
        · rw [← joined, ← cached]
          rfl
        · rw [← joined, ← memory]
          rfl
        · rw [whole, List.take_length, ← memory] at joined
          rw [← joined]
          exact determined _ _ _ _ _ _ answer
      · rw [ran]
        exact disturbed_record Step.failed_code _
      · rw [ran]
        exact disturbed_record Step.failed_threw _
  exact Triple.loop rounds kept impl
    (.inr ⟨Nat.le_of_lt left, cached, memory, fun whole => absurd whole (Nat.ne_of_lt left)⟩)

/-- What `keep_prefix` keeps is a front part of the prompt, and less than all of it. -/
theorem keepPrefix_tracks {tokens : List Token} {impl : Impl llama} (nonempty : tokens ≠ [])
    (recorded : impl.context.memory.Recorded impl.cached) :
    Meets (fun kept after => kept < tokens.length ∧ after.cached = tokens.take kept ∧
        after.context.memory.tokens = tokens.take kept)
      (fun _ _ => False) (keepPrefix tokens impl) := by
  have positive := List.length_pos_iff.mpr nonempty
  obtain ⟨host, ran⟩ | ⟨host, _, first, ran⟩ := keepPrefix_cases tokens impl
  · rw [ran]
    exact ⟨positive, rfl, rfl⟩
  · rw [ran]
    obtain ⟨_, short, same⟩ := reusablePrefix_spec impl.cached tokens
    refine ⟨by omega, same, ?_⟩
    rw [← same]
    exact (recorded.truncate _).tokens_eq (Memory.lo_eq_zero_of_posMin first)

/-- What follows the prompt is the same with a cache and without one, or a decode
failed. -/
theorem respond_refines (determined : Determined llama model) (params : SamplingParams)
    (onChunk : ChunkCallback Client) (admitted : Admitted llama) (kept : Nat)
    {session : Session llama Client} (tracks : session.impl.Tracks model admitted.tokens) :
    Meets
      (fun result after => after.impl.Disturbed ∨
        idealRespond config model params onChunk admitted session.receiver =
          (.ok (result.reason, result.stats.promptTokens, result.stats.completionTokens),
            after.receiver))
      (fun error after => after.impl.Disturbed ∨
        idealRespond config model params onChunk admitted session.receiver =
          (.error error, after.receiver))
      (respond config params onChunk admitted kept session) := by
  have met : Meets _ _ (generation config params admitted.resolved onChunk
      { sampler := admitted.sampler, filter := { stops := params.stop }, completionTokens := 0 }
      session) :=
    generation_refines determined params admitted.resolved onChunk _ tracks
  rcases ran : generation config params admitted.resolved onChunk
      { sampler := admitted.sampler, filter := { stops := params.stop }, completionTokens := 0 }
      session with ⟨error | ending, after⟩
  · rw [ran] at met
    simp only [respond, bind_apply, ran, meets_error]
    obtain disturbed | same := met
    · exact .inl disturbed
    · simp only [idealRespond, bind_apply, same]
      exact .inr trivial
  · rw [ran] at met
    rw [respond, bind_of_ok ran]
    obtain disturbed | same := met
    · exact Meets.imp (Preserves.bind (flushEnding_preserves Disturbed onChunk ending)
        (fun _ => .pure) after disturbed) (fun _ _ _ still => .inl still) fun _ _ _ still => .inl still
    · by_cases flushes : ending.flushTail
      · rcases flushed : ending.locals.filter.flush onChunk after.receiver with
          ⟨error | filter, receiver⟩
        · simp only [flushEnding, if_pos flushes, bind_apply, onReceiver_apply, flushed,
            meets_error, idealRespond, same]
          exact .inr trivial
        · simp only [flushEnding, if_pos flushes, bind_apply, onReceiver_apply, flushed,
            pure_apply, meets_ok, idealRespond, same]
          exact .inr trivial
      · simp only [flushEnding, if_neg flushes, pure_apply, meets_ok, idealRespond, bind_apply,
          same]
        exact .inr trivial

variable (config) in
/-- Generation from a record that agrees with the memory is generation without a cache,
or a decode failed. -/
theorem generate_refines (determined : Determined llama model) (entropy : llama.Entropy)
    (prompt : Bytes) (params : SamplingParams) (onChunk : ChunkCallback Client)
    {session : Session llama Client}
    (recorded : session.impl.context.memory.Recorded session.impl.cached) :
    Meets
      (fun result after => after.impl.Disturbed ∨
        ideal config model entropy prompt params onChunk session.receiver =
          (.ok (result.reason, result.stats.promptTokens, result.stats.completionTokens),
            after.receiver))
      (fun error after => after.impl.Disturbed ∨
        ideal config model entropy prompt params onChunk session.receiver =
          (.error error, after.receiver))
      (generate config entropy prompt params onChunk session) := by
  cases passed : admission config entropy prompt params with
  | error error =>
      simp only [generate, ideal, bind_apply, attempt_apply, passed, meets_error]
      exact .inr trivial
  | ok admitted =>
      obtain ⟨_, nonempty, _⟩ := admission_ok passed
      have trimmed := keepPrefix_tracks nonempty recorded
      rcases kept : keepPrefix admitted.tokens session.impl with ⟨error | count, impl⟩
      · rw [kept] at trimmed
        exact absurd trimmed id
      rw [kept] at trimmed
      obtain ⟨short, cached, memory⟩ := trimmed
      have met : Meets _ _ (decodePrompt config admitted.tokens count impl) :=
        decodePrompt_tracks determined short cached memory
      rcases decoded : decodePrompt config admitted.tokens count impl with ⟨error | _, after⟩
      · rw [decoded] at met
        simp only [generate, bind_apply, attempt_apply, passed, onImpl_apply, kept, decoded,
          meets_error]
        exact .inl met
      · rw [decoded] at met
        simp only [generate, bind_apply, attempt_apply, passed, onImpl_apply, kept, decoded]
        obtain disturbed | tracks := met
        · exact (Impl.Disturbed.invariant.respond params onChunk admitted count
            { session with impl := after } disturbed).imp (fun _ _ _ still => .inl still)
              fun _ _ _ still => .inl still
        · have told : ideal config model entropy prompt params onChunk session.receiver =
              idealRespond config model params onChunk admitted session.receiver := by
            simp only [ideal, bind_apply, attempt_apply, passed]
          rw [told]
          exact respond_refines determined params onChunk admitted count tracks

end Refinement

section Transparency

variable (config : EngineConfig) {Other : Type}

/-- What a caller can tell of a result: not how much of the prompt was cached. -/
def GenerateResult.observed (result : GenerateResult) : FinishReason × Nat × Nat :=
  (result.reason, result.stats.promptTokens, result.stats.completionTokens)

variable {model : List Token → Token → llama.Logit}

/-- What a served request shows is what `ideal` shows, unless a decode failed. -/
theorem serve_refines (determined : Determined llama model) (request : Request llama Client)
    {impl : Impl llama} (recorded : impl.context.memory.Recorded impl.cached)
    (sound : ¬ (serve config request impl).2.impl.Disturbed) :
    ((serve config request impl).1.map GenerateResult.observed,
        (serve config request impl).2.receiver) =
      ideal config model request.entropy request.prompt request.params request.onChunk
        ⟨request.client, []⟩ := by
  have met := generate_refines config determined request.entropy request.prompt request.params
    request.onChunk (show (Session.mk { impl with log := [] } ⟨request.client, []⟩ :
      Session llama Client).impl.context.memory.Recorded _ from recorded)
  match ran : serve config request impl with
  | (.ok result, after) =>
      rw [ran] at sound
      rw [serve] at ran
      rw [ran] at met
      exact (met.resolve_left sound).symm
  | (.error error, after) =>
      rw [ran] at sound
      rw [serve] at ran
      rw [ran] at met
      exact (met.resolve_left sound).symm

theorem serve_samplesFresh {tokens : List Token} {request : Request llama Client}
    (tokenized : tokenize llama request.prompt true true = .ok tokens) (impl : Impl llama) :
    SamplesFresh tokens (serve config request impl).2.impl.log := by
  have met : Meets (fun _ after => SamplesFresh tokens after.impl.log)
      (fun _ after => SamplesFresh tokens after.impl.log) (serve config request impl) :=
    generate_samplesFresh request.entropy tokenized request.params request.onChunk _ rfl
  exact met.final

/-- Serving after any history of requests and serving on a fresh engine cannot be told
apart, as long as their own decodes succeed; and no request ever samples from anything
but logits it has just decoded. -/
theorem serve_transparent (model : List Token → Token → llama.Logit)
    (determined : Determined llama model) (history : List (Request llama Other))
    (request : Request llama Client) (host freshHost : llama.Host)
    (logits freshLogits : Token → llama.Logit) :
    let warm := serve config request (engineAfter config history (Impl.fresh host logits))
    let cold := serve config request (Impl.fresh freshHost freshLogits)
    (¬ warm.2.impl.Disturbed → ¬ cold.2.impl.Disturbed →
      warm.1.map GenerateResult.observed = cold.1.map GenerateResult.observed ∧
      warm.2.receiver = cold.2.receiver) ∧
    ∀ tokens, tokenize llama request.prompt true true = .ok tokens →
      SamplesFresh tokens warm.2.impl.log ∧ SamplesFresh tokens cold.2.impl.log := by
  intro warm cold
  have unlogged : ∀ impl : Impl llama, impl.Faithful → Impl.Faithful { impl with log := [] } :=
    fun impl faithful => ⟨faithful.recorded, by simp⟩
  have started : ∀ host logits, (Impl.fresh host logits : Impl llama).Faithful :=
    fun host logits => ⟨.empty, by simp [Impl.fresh]⟩
  have left : Impl.Faithful (engineAfter config history (Impl.fresh host logits)) :=
    Impl.Faithful.invariant.engineAfter unlogged history _ (started host logits)
  refine ⟨fun warmSound coldSound => ?_, fun tokens tokenized => ⟨?_, ?_⟩⟩
  · have told := serve_refines config determined request left.recorded warmSound
    have told' := serve_refines config determined request (started freshHost freshLogits).recorded
      coldSound
    exact Prod.mk.inj (told.trans told'.symm)
  · exact serve_samplesFresh config tokenized _
  · exact serve_samplesFresh config tokenized _

/-- Where every decode succeeds no request is disturbed. -/
theorem serve_not_disturbed
    (reliable : ∀ host memory batch, ∃ evicted logits after,
      llama.decode host memory batch = (.done evicted logits, after))
    (request : Request llama Client) (impl : Impl llama) :
    ¬ (serve config request impl).2.impl.Disturbed := by
  let calm (impl : Impl llama) : Prop := ∀ entry ∈ impl.log, ¬ entry.step.Failed
  have recorded : ∀ (step : Step llama) (impl : Impl llama), ¬ step.Failed → calm impl →
      calm (record step impl) := by
    intro step impl succeeded quiet entry member
    obtain member | member := List.mem_append.mp member
    · exact quiet entry member
    · rw [List.mem_singleton.mp member]
      exact succeeded
  have invariant : Impl.Invariant calm := by
    refine ⟨fun prompt impl quiet => ?_, fun batch impl quiet => ?_,
      fun logits token impl => recorded _ impl id⟩
    · obtain ⟨host, ran⟩ | ⟨host, _, _, ran⟩ := keepPrefix_cases prompt impl
      · rw [ran]
        exact recorded _ _ id (recorded .cleared { impl with cached := [], context := _ } id quiet)
      · rw [ran]
        exact recorded _ { impl with cached := _, context := _ } id quiet
    · obtain ⟨evicted, logits, after, answer⟩ :=
        reliable impl.context.host impl.context.memory batch
      obtain ⟨host, _, _, _, ran⟩ | ⟨_, _, _, _, failed, _⟩ | ⟨_, _, _, failed, _⟩ :=
        decode_cases batch impl
      · rw [ran]
        exact recorded _ { impl with cached := _, context := _ } id quiet
      · rw [answer] at failed
        cases failed
      · rw [answer] at failed
        cases failed
  rintro ⟨entry, member, failed⟩
  exact invariant.serve (fun _ _ => by simp [calm]) request { impl with log := [] }
    (by simp [calm]) entry member failed

/-- The second of two requests that share a prefix, on a backend over bytes: four tokens of
its prompt are in the cache, and it shows what it shows on a fresh engine. -/
theorem serve_transparent_bytes :
    let backend := Llama.bytes fun sequence => (sequence.getLastD 0 + 1) % 257
    let config : EngineConfig := ⟨32, 4, false, 0, by decide, by decide⟩
    let first : Request backend Unit :=
      ⟨(), literal "abc", { maxTokens := 3, temperature := 0 }, none, ()⟩
    let second : Request backend Unit :=
      ⟨(), literal "abcde", { stop := [literal "h"], temperature := 0 }, some fun _ => pure true, ()⟩
    let warm := serve config second (engineAfter config [first] (Impl.fresh () fun _ => backend.zero))
    let cold := serve config second (Impl.fresh () fun _ => backend.zero)
    warm.1.map GenerateResult.observed = cold.1.map GenerateResult.observed ∧
      warm.2.receiver = cold.2.receiver ∧
      (warm.1.toOption.map fun result => result.stats.cachedPromptTokens) = some 4 ∧
      warm.1.toOption.map GenerateResult.observed = some (.stop, 5, 3) ∧
      warm.2.receiver.chunks = [literal "f", literal "g"] := by
  intro backend config first second warm cold
  have determined : Determined backend fun sequence token =>
      if token = (sequence.getLastD 0 + 1) % 257 then backend.one else backend.zero := by
    rintro host memory batch evicted logits after ⟨⟩
    rfl
  have reliable : ∀ host memory batch, ∃ evicted logits after,
      backend.decode host memory batch = (.done evicted logits, after) :=
    fun host memory batch => ⟨_, _, _, rfl⟩
  obtain ⟨observed, receiver⟩ := (serve_transparent config _ determined [first] second () () _ _).1
    (serve_not_disturbed config reliable second _) (serve_not_disturbed config reliable second _)
  exact ⟨observed, receiver, by decide +kernel, by decide +kernel, by decide +kernel⟩

end Transparency

section Windowed

variable (llama : Llama) in
/-- The logits a decode leaves are a function of the tokens the memory holds after it. -/
def DeterminedByHeld (model : List Token → Token → llama.Logit) : Prop :=
  ∀ host memory batch evicted logits after,
    llama.decode host memory batch = (.done evicted logits, after) →
      logits = model (memory.extend batch evicted).held

/-- `Llama.bytes` with a memory that keeps the last `width` positions, or a whole longer batch,
and reads its logits off what it holds. -/
def Llama.windowed (width : Nat) (next : List Token → Token) : Llama :=
  { Llama.bytes next with
    decode := fun host memory batch =>
      let evicted := memory.held.length + batch.length - max width batch.length
      (.done evicted fun token => if token = next (memory.extend batch evicted).held
        then (Llama.bytes next).one else (Llama.bytes next).zero, host) }

/-- A window of two positions shows the cache: behind the `ab` of an earlier request `abc` is
decoded as `c` and `a` let go, a fresh engine decodes and holds all of it. -/
theorem serve_not_transparent_windowed :
    let backend := Llama.windowed 2 fun held => held.headD 0
    let config : EngineConfig := ⟨32, 8, false, 0, by decide, by decide⟩
    let first : Request backend Unit :=
      ⟨(), literal "ab", { maxTokens := 0, temperature := 0 }, none, ()⟩
    let second : Request backend Unit :=
      ⟨(), literal "abc", { maxTokens := 1, temperature := 0 }, some fun _ => pure true, ()⟩
    let warm := serve config second (engineAfter config [first] (Impl.fresh () fun _ => backend.zero))
    let cold := serve config second (Impl.fresh () fun _ => backend.zero)
    (∃ model, DeterminedByHeld backend model) ∧ ¬ warm.2.impl.Disturbed ∧ ¬ cold.2.impl.Disturbed ∧
      warm.2.receiver.chunks = [literal "b"] ∧ cold.2.receiver.chunks = [literal "a"] := by
  intro backend config first second warm cold
  have determined : DeterminedByHeld backend fun held token =>
      if token = held.headD 0 then backend.one else backend.zero := by
    rintro host memory batch evicted logits after ⟨⟩
    rfl
  have reliable : ∀ host memory batch, ∃ evicted logits after,
      backend.decode host memory batch = (.done evicted logits, after) :=
    fun host memory batch => ⟨_, _, _, rfl⟩
  exact ⟨⟨_, determined⟩, serve_not_disturbed config reliable second _,
    serve_not_disturbed config reliable second _, by decide +kernel, by decide +kernel⟩

end Windowed

end Llamad
