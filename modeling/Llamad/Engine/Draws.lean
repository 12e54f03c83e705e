import Llamad.Engine.SampleFreshness

/-!
# The draws of a generation

A generation draws its tokens one after the other from the logits it is shown. `chosen`
is that sequence as a function of the sampler and the logits alone; a run of the engine,
whatever its cache, prompt and callback, draws exactly this (`serve_draws`).
-/

namespace Llamad

open Logical Semantics Program Session Impl

variable {llama : Llama} {Client : Type}

namespace SamplerChain

/-- The tokens a sampler chooses from logits shown one after the other, up to one that ends
the generation. -/
def chosen (sampler : SamplerChain llama) : List (Token → llama.Logit) → List Token
  | [] => []
  | logits :: rest =>
      match sampler.sample logits with
      | .error _ => []
      | .ok (token, next) =>
          if llama.isEog token then [token] else token :: chosen next rest

variable {sampler next : SamplerChain llama} {logits : Token → llama.Logit} {token : Token}

theorem chosen_cons (sampled : sampler.sample logits = .ok (token, next))
    (rest : List (Token → llama.Logit)) :
    sampler.chosen (logits :: rest) =
      if llama.isEog token then [token] else token :: next.chosen rest := by
  rw [chosen, sampled]

/-- The first tokens depend on the first logits alone. -/
theorem chosen_take (sampler : SamplerChain llama) (shown : List (Token → llama.Logit))
    (count : Nat) : sampler.chosen (shown.take count) = (sampler.chosen shown).take count := by
  induction shown generalizing sampler count with
  | nil => simp [chosen]
  | cons logits rest inductionHypothesis =>
      cases count with
      | zero => rfl
      | succ count =>
          rw [List.take_succ_cons]
          cases sampled : sampler.sample logits with
          | error error => simp only [chosen, sampled, List.take_nil]
          | ok drawn =>
              obtain ⟨token, next⟩ := drawn
              rw [chosen_cons sampled, chosen_cons sampled, inductionHypothesis]
              by_cases eog : llama.isEog token
              · rw [if_pos eog, if_pos eog, List.take_succ_cons, List.take_nil]
              · rw [if_neg eog, if_neg eog, List.take_succ_cons]

end SamplerChain

/-- The logits a log's samples were drawn from. -/
def shown (log : List (Entry llama)) : List (Token → llama.Logit) :=
  log.filterMap fun entry =>
    match entry.step with
    | .sampled logits _ => some logits
    | _ => none

@[simp] theorem shown_append (first second : List (Entry llama)) :
    shown (first ++ second) = shown first ++ shown second :=
  List.filterMap_append

/-- There is one token for each of the logits shown. -/
theorem length_shown (log : List (Entry llama)) : (shown log).length = (drawn log).length := by
  induction log with
  | nil => rfl
  | cons entry log inductionHypothesis =>
      have front := shown_append [entry] log
      have frontToo := drawn_append [entry] log
      rw [List.singleton_append] at front frontToo
      rw [front, frontToo, List.length_append, List.length_append, inductionHypothesis]
      congr 1
      cases step : entry.step <;> simp [shown, drawn, step]

theorem shown_eq_nil {log : List (Entry llama)} (unsampled : drawn log = []) : shown log = [] := by
  rw [← List.length_eq_zero_iff, length_shown, unsampled, List.length_nil]

theorem shown_emptied (host : llama.Host) (impl : Impl llama) :
    shown (emptied host impl).log = shown impl.log :=
  (shown_append _ _).trans (List.append_nil _)

theorem shown_decoded (batch : List Token) (answer : Decoded llama.Logit) (impl : Impl llama) :
    shown (record (.decoded batch answer) impl).log = shown impl.log :=
  (shown_append _ _).trans (List.append_nil _)

theorem shown_extended (host : llama.Host) (batch : List Token) (evicted : Nat)
    (logits : Token → llama.Logit) (impl : Impl llama) :
    shown (extended host batch evicted logits impl).log = shown impl.log :=
  (shown_append _ _).trans (List.append_nil _)

theorem shown_sampled (token : Token) (impl : Impl llama) :
    shown (impl.sampled token).log = shown impl.log ++ [impl.context.logits] :=
  shown_append _ _

/-- So many tokens are within the budget of a request. -/
def SamplingParams.Affords (params : SamplingParams) (count : Nat) : Prop :=
  0 ≤ params.maxTokens → count ≤ params.maxTokens

/-- Everything was drawn by `first`, which is `sampler` by now, for the tokens counted so
far. -/
structure Impl.Draws (first : SamplerChain llama) (params : SamplingParams)
    (locals : Locals llama) (impl : Impl llama) : Prop where
  draws : ∀ more, first.chosen (shown impl.log ++ more) =
    drawn impl.log ++ locals.sampler.chosen more
  counted : (drawn impl.log).length = locals.completionTokens
  affords : params.Affords locals.completionTokens

/-- Everything was drawn by `first`, and within the budget. -/
structure Impl.Drew (first : SamplerChain llama) (params : SamplingParams) (impl : Impl llama) :
    Prop where
  draws : first.chosen (shown impl.log) = drawn impl.log
  affords : params.Affords (drawn impl.log).length

theorem Impl.Drew.congr {first : SamplerChain llama} {params : SamplingParams}
    {impl after : Impl llama} (drew : impl.Drew first params)
    (sameShown : shown after.log = shown impl.log)
    (sameDrawn : drawn after.log = drawn impl.log) : after.Drew first params := by
  refine ⟨?_, ?_⟩
  · rw [sameShown, sameDrawn]
    exact drew.draws
  · rw [sameDrawn]
    exact drew.affords

section Rounds

variable {config : EngineConfig} {first : SamplerChain llama} {params : SamplingParams}
  {resolved : ResolvedTokens} {onChunk : ChunkCallback Client} {locals : Locals llama}
  {session : Session llama Client} {sampler : SamplerChain llama} {token : Token}

theorem Impl.Draws.drew {impl : Impl llama} (draws : impl.Draws first params locals) :
    impl.Drew first params := by
  refine ⟨?_, draws.counted ▸ draws.affords⟩
  have all := draws.draws []
  rwa [List.append_nil, SamplerChain.chosen, List.append_nil] at all

/-- A sample inside the budget leaves room for its token. -/
theorem affords_succ (spare : budgetSpent params locals.completionTokens = false) :
    params.Affords (locals.completionTokens + 1) := by
  intro limited
  simp only [budgetSpent, Bool.and_eq_false_iff, decide_eq_false_iff_not] at spare
  omega

/-- The sample of a round is the sampler's next choice. -/
theorem Impl.Draws.sampled (draws : session.impl.Draws first params locals)
    (samples : Samples params locals session token sampler) :
    (session.impl.sampled token).Drew first params ∧
      (llama.isEog token = false → ∀ filter,
        (session.impl.sampled token).Draws first params (locals.next sampler filter)) := by
  have grows : ∀ more, first.chosen (shown (session.impl.sampled token).log ++ more) =
      drawn session.impl.log ++
        (if llama.isEog token then [token] else token :: sampler.chosen more) := by
    intro more
    rw [shown_sampled, List.append_assoc, List.singleton_append, draws.draws,
      SamplerChain.chosen_cons samples.drew]
  have counted : (drawn (session.impl.sampled token).log).length = locals.completionTokens + 1 := by
    rw [drawn_sampled, List.length_append, draws.counted, List.length_singleton]
  have affords := affords_succ samples.spare
  refine ⟨⟨?_, counted ▸ affords⟩, fun unfinished filter => ⟨fun more => ?_, counted, affords⟩⟩
  · have last := grows []
    rw [List.append_nil] at last
    rw [last, drawn_sampled, SamplerChain.chosen, ite_self]
  · rw [grows, unfinished, drawn_sampled, List.append_assoc, List.singleton_append]
    rfl

/-- A round draws at most one token, its sampler's choice. -/
theorem generationRound_draws (locals : Locals llama) :
    Triple (fun session => session.impl.Draws first params locals)
      (generationRound config params resolved onChunk locals)
      (fun result after => Sum.elim (fun next => after.impl.Draws first params next)
        (fun _ => after.impl.Drew first params) result)
      (fun _ after => after.impl.Drew first params) := by
  intro session draws
  have outcome := generationRound_outcome config params resolved onChunk locals session
  generalize generationRound config params resolved onChunk locals session = result at outcome ⊢
  have failed {token : Token} {sampler : SamplerChain llama} {host : llama.Host}
      {answer : Decoded llama.Logit} (samples : Samples params locals session token sampler) :
      (record (.decoded [token] answer) (emptied host (session.impl.sampled token))).Drew
        first params := by
    refine (draws.sampled samples).1.congr ?_ ?_
    · rw [shown_decoded, shown_emptied]
    · rw [drawn_decoded, drawn_emptied]
  cases outcome with
  | spent _ => exact draws.drew
  | unsampled _ _ => exact draws.drew
  | eog samples _ => exact (draws.sampled samples).1
  | unrendered samples _ _ => exact (draws.sampled samples).1
  | undelivered samples _ _ _ => exact (draws.sampled samples).1
  | ends pushes _ => exact (draws.sampled pushes.toSamples).1
  | full goesOn _ => exact (draws.sampled goesOn.toSamples).1
  | decoded goesOn _ _ =>
      obtain ⟨grows, counted, affords⟩ :=
        (draws.sampled goesOn.toSamples).2 goesOn.unfinished _
      refine ⟨?_, ?_, affords⟩
      · rwa [shown_extended, drawn_extended]
      · rwa [drawn_extended]
  | noSlot goesOn _ _ _ => exact failed goesOn.toSamples
  | failed goesOn _ _ _ => exact failed goesOn.toSamples
  | threw goesOn _ _ => exact failed goesOn.toSamples

/-- Everything behind the prompt draws what the sampler chooses. -/
theorem respond_draws (admitted : Admitted llama) (kept : Nat) :
    Triple (fun session => drawn session.impl.log = [])
      (respond config params onChunk admitted kept)
      (fun _ after => after.impl.Drew admitted.sampler params)
      (fun _ after => after.impl.Drew admitted.sampler params) := by
  refine Triple.strengthen (.bind (.loop generationRound_draws
    { sampler := admitted.sampler, filter := { stops := params.stop }, completionTokens := 0 })
    fun ending => ?_) ?_
  · exact .bind (flushEnding_preserves (Impl.Drew admitted.sampler params) onChunk ending)
      fun _ => .pure fun _ drew => drew
  · intro session unsampled
    refine ⟨fun more => ?_, by rw [unsampled, List.length_nil], fun limited => limited⟩
    rw [shown_eq_nil unsampled, unsampled]
    rfl

end Rounds

/-- A generation that has not sampled yet drew what any sampler chooses from nothing. -/
theorem Impl.Drew.of_unsampled {first : SamplerChain llama} {params : SamplingParams}
    {impl : Impl llama} (unsampled : drawn impl.log = []) : impl.Drew first params := by
  refine ⟨by rw [shown_eq_nil unsampled, unsampled, SamplerChain.chosen], fun limited => ?_⟩
  rwa [unsampled]

/-- A generation, however it goes, draws what the sampler built for it chooses from the
logits it is shown, and no more than its budget. -/
theorem generate_draws {config : EngineConfig} (entropy : llama.Entropy) (prompt : Bytes)
    {params : SamplingParams} (onChunk : ChunkCallback Client) {resolved : ResolvedTokens}
    (resolves : resolve llama params = .ok resolved) {sampler : SamplerChain llama}
    (built : SamplerChain.build llama entropy params resolved = .ok sampler) :
    Triple (fun session : Session llama Client => drawn session.impl.log = [])
      (generate config entropy prompt params onChunk)
      (fun _ after => after.impl.Drew sampler params)
      (fun _ after => after.impl.Drew sampler params) := by
  let admits (admitted : Admitted llama) (session : Session llama Client) : Prop :=
    drawn session.impl.log = [] ∧ admitted.sampler = sampler
  have admitting : Triple (fun session : Session llama Client => drawn session.impl.log = [])
      (attempt (admission config entropy prompt params)) admits
      (fun _ after => after.impl.Drew sampler params) := by
    refine .attempt (fun session admitted unsampled passed => ⟨unsampled, ?_⟩)
      fun session _ unsampled _ => .of_unsampled unsampled
    obtain ⟨looked, builtToo⟩ := admission_built passed
    rw [resolves] at looked
    cases looked
    rw [built] at builtToo
    cases builtToo
    rfl
  refine .bind admitting fun admitted => ?_
  have prompts {Value : Type} {program : Program (Impl llama) Exception Value}
      (undrawn : Preserves (fun impl => drawn impl.log = []) program) :
      Triple (admits admitted) (onImpl program) (fun _ => admits admitted)
        (fun _ after => after.impl.Drew sampler params) := by
    refine .zoom ?_
    rintro session ⟨unsampled, same⟩
    exact (undrawn session.impl unsampled).imp (fun _ _ _ still => ⟨still, same⟩)
      fun _ _ _ still => .of_unsampled still
  refine .bind (prompts (keepPrefix_drawn _ [])) fun kept => ?_
  refine .bind (prompts (decodePrompt_drawn config _ [] kept)) fun _ => ?_
  intro session
  rintro ⟨unsampled, rfl⟩
  exact respond_draws admitted kept session unsampled

/-- A request, however it goes, draws what the sampler built for it chooses from the logits
it is shown, and no more than its budget. -/
theorem serve_draws (config : EngineConfig) (request : Request llama Client)
    {resolved : ResolvedTokens} (resolves : resolve llama request.params = .ok resolved)
    {sampler : SamplerChain llama}
    (built : SamplerChain.build llama request.entropy request.params resolved = .ok sampler)
    (impl : Impl llama) :
    (serve config request impl).2.impl.Drew sampler request.params :=
  Meets.final (generate_draws request.entropy request.prompt request.onChunk resolves built
    ⟨{ impl with log := [] }, ⟨request.client, []⟩⟩ rfl)

end Llamad
