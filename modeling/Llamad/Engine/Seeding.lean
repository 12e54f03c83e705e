import Llamad.Engine.Draws
import Llamad.Engine.GreedySampling
import Mathlib.Algebra.Order.Ring.Rat
import Mathlib.Tactic.Linarith

/-!
# Chains that draw

Where chance enters a chain of samplers: at a draw, whose generator is seeded when the
sampler is made. Everything in front of a draw is a function of the candidates, so chance
has a say only where the filters leave it more than one of them (`Narrow`).

Two samplers are twins when they cannot be told apart by what they choose. That is a
relation between their chains (`Alike`), and every draw keeps it.
-/

namespace Llamad

open Logical Semantics Program

/-- A sampler of a chain: a stage that only looks at the candidates, or a draw and the state
of its generator. -/
inductive Sampler (Rng : Type) where
  | filter (stage : Stage)
  | dist (rng : Rng)

/-- What the samplers of a backend do. -/
structure Samplers (Logit Entropy : Type) where
  Rng : Type
  filter : Stage → Candidates Logit → Candidates Logit
  /-- The generator of `llama_sampler_init_dist`. -/
  initDist : Entropy → UInt32 → Rng
  pick : Rng → Candidates Logit → Candidates Logit × Rng

namespace Samplers

variable {Logit Entropy : Type} (samplers : Samplers Logit Entropy)

/-- The sampler of a stage. -/
def create (entropy : Entropy) : Stage → Sampler samplers.Rng
  | .dist seed => .dist (samplers.initDist entropy seed)
  | stage => .filter stage

/-- Candidates go through the samplers of a chain in order. -/
def run : List (Sampler samplers.Rng) → Candidates Logit →
    Candidates Logit × List (Sampler samplers.Rng)
  | [], array => (array, [])
  | .filter stage :: rest, array =>
      let (array, rest) := run rest (samplers.filter stage array)
      (array, .filter stage :: rest)
  | .dist rng :: rest, array =>
      let (array, rng) := samplers.pick rng array
      let (array, rest) := run rest array
      (array, .dist rng :: rest)

/-- What a list of stages without a draw leaves of the candidates. -/
def filtered (stages : List Stage) (array : Candidates Logit) : Candidates Logit :=
  stages.foldl (fun array stage => samplers.filter stage array) array

/-- Whatever the candidates, the stages leave no choice. -/
def Narrow (stages : List Stage) : Prop :=
  ∀ array, (samplers.filtered stages array).data.length ≤ 1

/-- The law of a draw: its generator depends on the entropy for the one seed only that stands
for none, and where there is no choice there is no chance. -/
structure Seeded : Prop where
  seeded : ∀ entropy other seed, seed ≠ SamplerChain.defaultSeed →
    samplers.initDist entropy seed = samplers.initDist other seed
  single : ∀ rng other array, array.data.length ≤ 1 →
    (samplers.pick rng array).1 = (samplers.pick other array).1

/-- The laws of the filters, as far as they bound how many candidates are left: none adds
one, top-k leaves `k`, and top-p leaves one of so few that the most likely has a share of
`p`. Of min-p nothing is said: it keeps every candidate whose logit is not below a bound, and
for logits that are large the bound of any `p` is the highest logit itself. -/
structure Narrowing : Prop where
  shrinks : ∀ stage array, (samplers.filter stage array).data.length ≤ array.data.length
  topK : ∀ (k : Int) array, 0 < k → ((samplers.filter (.topK k) array).data.length : Int) ≤ k
  topP : ∀ (p : Rat) minKeep array, p * array.data.length ≤ 1 → minKeep ≤ 1 →
    (samplers.filter (.topP p minKeep) array).data.length ≤ 1

variable {samplers}

theorem run_filters (stages : List Stage) (rng : samplers.Rng) (array : Candidates Logit) :
    samplers.run (stages.map .filter ++ [.dist rng]) array =
      ((samplers.pick rng (samplers.filtered stages array)).1,
        stages.map .filter ++ [.dist (samplers.pick rng (samplers.filtered stages array)).2]) := by
  induction stages generalizing array with
  | nil => rfl
  | cons stage stages inductionHypothesis =>
      rw [List.map_cons, List.cons_append, run, inductionHypothesis]
      rfl

theorem filtered_append (first second : List Stage) (array : Candidates Logit) :
    samplers.filtered (first ++ second) array =
      samplers.filtered second (samplers.filtered first array) :=
  List.foldl_append

theorem Narrowing.length_filtered_le (narrowing : samplers.Narrowing) (stages : List Stage)
    (array : Candidates Logit) :
    (samplers.filtered stages array).data.length ≤ array.data.length := by
  induction stages generalizing array with
  | nil => exact le_rfl
  | cons stage stages inductionHypothesis =>
      exact (inductionHypothesis _).trans (narrowing.shrinks stage array)

/-- What leaves no choice leaves none behind more stages either. -/
theorem Narrowing.append (narrowing : samplers.Narrowing) {stages : List Stage}
    (narrow : samplers.Narrow stages) (more : List Stage) : samplers.Narrow (stages ++ more) := by
  intro array
  rw [filtered_append]
  exact (narrowing.length_filtered_le more _).trans (narrow array)

/-- A last stage that leaves no choice leaves none behind other stages. -/
theorem Narrow.behind {stages : List Stage} (narrow : samplers.Narrow stages)
    (front : List Stage) : samplers.Narrow (front ++ stages) := by
  intro array
  rw [filtered_append]
  exact narrow _

end Samplers

/-- A backend whose chains hold samplers: they are added at the end, candidates go through
them in order, and accepting a token changes none of them. -/
structure Llama.Chained (llama : Llama) (samplers : Samplers llama.Logit llama.Entropy)
    (held : llama.Chain → List (Sampler samplers.Rng)) : Prop where
  init : ∀ chain, llama.chainInit = some chain → held chain = []
  add : ∀ entropy chain stage,
    held (llama.chainAdd entropy chain stage) = held chain ++ [samplers.create entropy stage]
  apply : ∀ chain array,
    samplers.run (held chain) array =
      ((llama.chainApply chain array).1, held (llama.chainApply chain array).2)
  accept : ∀ chain token, held (llama.chainAccept chain token) = held chain

namespace Samplers

variable {llama : Llama} {samplers : Samplers llama.Logit llama.Entropy}
  {held : llama.Chain → List (Sampler samplers.Rng)}

/-- Chains that cannot be told apart: they hold the same samplers, but for the generator of
a draw that has no choice. -/
inductive Alike (samplers : Samplers llama.Logit llama.Entropy)
    (held : llama.Chain → List (Sampler samplers.Rng)) (chain twin : llama.Chain) : Prop where
  | same (holds : held chain = held twin)
  | narrow {stages : List Stage} {rng other : samplers.Rng}
      (holds : held chain = stages.map .filter ++ [.dist rng])
      (twinHolds : held twin = stages.map .filter ++ [.dist other])
      (narrow : samplers.Narrow stages)

/-- Alike chains turn candidates into the same candidates and stay alike. -/
theorem Alike.apply {chain twin : llama.Chain} (alike : Alike samplers held chain twin)
    (chained : llama.Chained samplers held) (seeded : samplers.Seeded)
    (array : Candidates llama.Logit) :
    (llama.chainApply chain array).1 = (llama.chainApply twin array).1 ∧
      Alike samplers held (llama.chainApply chain array).2 (llama.chainApply twin array).2 := by
  have ran := chained.apply chain array
  have twinRan := chained.apply twin array
  cases alike with
  | same holds =>
      rw [holds, twinRan] at ran
      obtain ⟨same, stays⟩ := Prod.mk.inj ran
      exact ⟨same.symm, .same stays.symm⟩
  | narrow holds twinHolds narrow =>
      rw [holds, run_filters] at ran
      rw [twinHolds, run_filters] at twinRan
      obtain ⟨picked, stays⟩ := Prod.mk.inj ran
      obtain ⟨twinPicked, twinStays⟩ := Prod.mk.inj twinRan
      refine ⟨?_, .narrow stays.symm twinStays.symm narrow⟩
      rw [← picked, ← twinPicked]
      exact seeded.single _ _ _ (narrow array)

/-- Alike chains that accept a token stay alike. -/
theorem Alike.accept {chain twin : llama.Chain} (alike : Alike samplers held chain twin)
    (chained : llama.Chained samplers held) (token : Token) :
    Alike samplers held (llama.chainAccept chain token) (llama.chainAccept twin token) := by
  cases alike with
  | same holds => exact .same (by rw [chained.accept, chained.accept, holds])
  | narrow holds twinHolds narrow =>
      exact .narrow ((chained.accept chain token).trans holds)
        ((chained.accept twin token).trans twinHolds) narrow

/-- A chain holds one sampler for each stage. -/
theorem held_foldl (chained : llama.Chained samplers held) (entropy : llama.Entropy)
    (stages : List Stage) (chain : llama.Chain) :
    held (stages.foldl (llama.chainAdd entropy) chain) =
      held chain ++ stages.map (samplers.create entropy) := by
  induction stages generalizing chain with
  | nil => exact (List.append_nil _).symm
  | cons stage stages inductionHypothesis =>
      rw [List.foldl_cons, inductionHypothesis, chained.add, List.append_assoc,
        List.singleton_append, List.map_cons]

end Samplers

namespace SamplingParams

variable (params : SamplingParams)

/-- The stages of a chain that draws, in front of the draw. -/
def filters : List Stage :=
  (if 0 < params.topK then [.topK params.topK] else []) ++
  (if params.topP < 1 then [.topP params.topP 1] else []) ++
  (if 0 < params.minP then [.minP params.minP 1] else []) ++ [.temp params.temperature]

variable {params} in
theorem stages_eq (warm : ¬ params.temperature ≤ 0) :
    SamplerChain.stages params =
      params.filters ++ [.dist (params.seed.getD SamplerChain.defaultSeed)] := by
  rw [SamplerChain.stages, if_neg warm, filters]
  simp

theorem create_filters {Logit Entropy : Type} (samplers : Samplers Logit Entropy)
    (entropy : Entropy) :
    params.filters.map (samplers.create entropy) = params.filters.map .filter := by
  refine List.map_congr_left fun stage member => ?_
  have undrawn : ∀ seed, stage ≠ .dist seed := by
    rintro seed rfl
    simp only [filters, List.mem_append, List.mem_singleton] at member
    obtain ((member | member) | member) | member := member
    · split at member <;> simp at member
    · split at member <;> simp at member
    · split at member <;> simp at member
    · cases member
  cases stage with
  | dist seed => exact absurd rfl (undrawn seed)
  | greedy => rfl
  | topK k => rfl
  | topP p minKeep => rfl
  | minP p minKeep => rfl
  | temp temperature => rfl

/-- The filters leave a single candidate: the highest one alone, or those with a share of
nothing, or with a share that the most likely of `top_k` candidates has. -/
def Single : Prop :=
  params.topK = 1 ∨ params.topP ≤ 0 ∨ 0 < params.topK ∧ params.topP * params.topK ≤ 1

variable {params} in
/-- Filters that leave a single candidate leave it of any candidates. -/
theorem Single.narrow (single : params.Single) {Logit Entropy : Type}
    {samplers : Samplers Logit Entropy} (narrowing : samplers.Narrowing) :
    samplers.Narrow params.filters := by
  have front (topped : samplers.Narrow
      ((if 0 < params.topK then [Stage.topK params.topK] else []) ++
        (if params.topP < 1 then [.topP params.topP 1] else []))) :
      samplers.Narrow params.filters :=
    narrowing.append (narrowing.append topped _) _
  refine front ?_
  have topK_le (array : Candidates Logit) (positive : 0 < params.topK) :
      ((samplers.filtered [.topK params.topK] array).data.length : Int) ≤ params.topK :=
    narrowing.topK params.topK array positive
  have one (isOne : params.topK = 1) : samplers.Narrow [.topK params.topK] := by
    intro array
    have few := topK_le array (by omega)
    omega
  obtain isOne | nothing | ⟨positive, share⟩ := single
  · rw [if_pos (by omega)]
    exact narrowing.append (one isOne) _
  · have last : samplers.Narrow [.topP params.topP 1] := fun array =>
      narrowing.topP _ 1 array
        ((mul_nonpos_of_nonpos_of_nonneg nothing (Nat.cast_nonneg _)).trans zero_le_one) le_rfl
    have added : params.topP < 1 := by linarith
    rw [if_pos added]
    exact last.behind _
  · rw [if_pos positive]
    by_cases isOne : params.topK = 1
    · exact narrowing.append (one isOne) _
    have several : (2 : Rat) ≤ params.topK := by exact_mod_cast (by omega : 2 ≤ params.topK)
    rw [if_pos (by nlinarith)]
    intro array
    have few := topK_le array positive
    have fewer : ((samplers.filtered [.topK params.topK] array).data.length : Rat) ≤
        params.topK := by exact_mod_cast few
    rw [Samplers.filtered_append]
    refine narrowing.topP _ 1 _ ?_ le_rfl
    by_cases negative : params.topP ≤ 0
    · exact (mul_nonpos_of_nonpos_of_nonneg negative (Nat.cast_nonneg _)).trans zero_le_one
    · exact (mul_le_mul_of_nonneg_left fewer (le_of_not_ge negative)).trans share

/-- The logits of a generation's draws, as far as its budget goes. -/
def within {α : Type} (shown : List α) : List α :=
  if 0 ≤ params.maxTokens then shown.take params.maxTokens.toNat else shown

/-- Chance has no say in what a chain chooses: the seed is not the one that stands for none,
nothing is drawn, or one candidate is left to draw from. -/
def Settled : Prop :=
  params.seed.getD SamplerChain.defaultSeed ≠ SamplerChain.defaultSeed ∨
    params.temperature ≤ 0 ∨ params.Single

end SamplingParams

namespace SamplerChain

variable {llama : Llama} {samplers : Samplers llama.Logit llama.Entropy}
  {held : llama.Chain → List (Sampler samplers.Rng)} {sampler twin : SamplerChain llama}

/-- Samplers that differ in their chains at most, and in alike ones. -/
structure Twins (samplers : Samplers llama.Logit llama.Entropy)
    (held : llama.Chain → List (Sampler samplers.Rng)) (sampler twin : SamplerChain llama) :
    Prop where
  nSelectable : sampler.nSelectable = twin.nSelectable
  chain : Samplers.Alike samplers held sampler.chain twin.chain
  grammar : sampler.grammar = twin.grammar

/-- Outcomes that are the same token with twins, or the same error. -/
inductive Agree (samplers : Samplers llama.Logit llama.Entropy)
    (held : llama.Chain → List (Sampler samplers.Rng)) :
    Except Exception (Token × SamplerChain llama) →
    Except Exception (Token × SamplerChain llama) → Prop where
  | failed (error : Exception) : Agree samplers held (.error error) (.error error)
  | drew (token : Token) {sampler twin : SamplerChain llama}
      (twins : Twins samplers held sampler twin) :
      Agree samplers held (.ok (token, sampler)) (.ok (token, twin))

theorem Agree.bind {first second : Except Exception (Token × SamplerChain llama)}
    {next other : Token × SamplerChain llama → Except Exception (Token × SamplerChain llama)}
    (agree : Agree samplers held first second)
    (goOn : ∀ token {sampler twin}, Twins samplers held sampler twin →
      Agree samplers held (next (token, sampler)) (other (token, twin))) :
    Agree samplers held (first >>= next) (second >>= other) := by
  cases agree with
  | failed error => exact .failed error
  | drew token twins => exact goOn token twins

/-- Without a grammar the first choice is settled on. -/
theorem sample_of_none (kept : sampler.grammar = none) (logits : Token → llama.Logit) :
    sampler.sample logits = (do
      let (token, drawn) ← sampler.choose logits sampler.nSelectable none
      return (token, { drawn with chain := llama.chainAccept drawn.chain token })) := by
  rw [sample]
  cases chose : sampler.choose logits sampler.nSelectable none with
  | error error => rfl
  | ok drawn =>
      have keeps : drawn.2.grammar = none := (choose_grammar chose).trans kept
      simp only [bind, Except.bind, keeps]

section Twins

variable (chained : llama.Chained samplers held)
include chained

/-- Twins settle alike on a token. -/
theorem Twins.settle (twins : Twins samplers held sampler twin) (state : llama.Grammar)
    (token : Token) :
    Agree samplers held (SamplerChain.settle state token sampler)
      (SamplerChain.settle state token twin) := by
  rw [SamplerChain.settle, SamplerChain.settle]
  cases llama.grammarAccept state token with
  | error error => exact .failed _
  | ok advanced => exact .drew token ⟨twins.nSelectable, twins.chain.accept chained token, rfl⟩

variable (seeded : samplers.Seeded)
include seeded

/-- Twins choose alike. -/
theorem Twins.choose (twins : Twins samplers held sampler twin) (logits : Token → llama.Logit)
    (count : Nat) (behind : Option llama.Grammar) :
    Agree samplers held (sampler.choose logits count behind)
      (twin.choose logits count behind) := by
  obtain ⟨same, alike⟩ := twins.chain.apply chained seeded (fed logits count behind)
  rw [choose_eq, choose_eq, picked, picked, same]
  split
  · exact .failed _
  · split
    · exact .failed _
    · exact .drew _ ⟨twins.nSelectable, alike, twins.grammar⟩

/-- Twins sample alike, behind a grammar too. -/
theorem Twins.sample (twins : Twins samplers held sampler twin) (logits : Token → llama.Logit) :
    Agree samplers held (sampler.sample logits) (twin.sample logits) := by
  have chooses := twins.choose chained seeded logits twin.nSelectable none
  cases kept : twin.grammar with
  | none =>
      rw [sample_of_none kept, sample_of_none (twins.grammar.trans kept), twins.nSelectable]
      refine .bind chooses fun token _ _ twins => .drew token ?_
      exact ⟨twins.nSelectable, twins.chain.accept chained token, twins.grammar⟩
  | some state =>
      rw [sample_of_grammar kept, sample_of_grammar (twins.grammar.trans kept), twins.nSelectable]
      refine .bind chooses fun token sampler twin twins => ?_
      dsimp only
      split
      · exact .bind (twins.choose chained seeded logits _ _) fun token _ _ twins =>
          twins.settle chained state token
      · exact twins.settle chained state token

/-- Twins choose the same tokens from the same logits. -/
theorem Twins.chosen (twins : Twins samplers held sampler twin)
    (shown : List (Token → llama.Logit)) : sampler.chosen shown = twin.chosen shown := by
  induction shown generalizing sampler twin with
  | nil => rfl
  | cons logits rest inductionHypothesis =>
      have agree := twins.sample chained seeded logits
      rw [SamplerChain.chosen, SamplerChain.chosen]
      generalize sampler.sample logits = first at agree ⊢
      generalize twin.sample logits = second at agree ⊢
      cases agree with
      | failed error => rfl
      | drew token twins =>
          dsimp only
          rw [inductionHypothesis twins]

end Twins

/-- The chains of a request's stages are alike whatever the entropy, unless they draw with the
default seed from several candidates. -/
theorem alike_stages (chained : llama.Chained samplers held) (seeded : samplers.Seeded)
    (narrowing : samplers.Narrowing) {params : SamplingParams} (settled : params.Settled)
    (entropy other : llama.Entropy) {chain : llama.Chain}
    (created : llama.chainInit = some chain) :
    Samplers.Alike samplers held ((stages params).foldl (llama.chainAdd entropy) chain)
      ((stages params).foldl (llama.chainAdd other) chain) := by
  have holds (entropy : llama.Entropy) :
      held ((stages params).foldl (llama.chainAdd entropy) chain) =
        (stages params).map (samplers.create entropy) := by
    rw [Samplers.held_foldl chained, chained.init chain created, List.nil_append]
  by_cases cold : params.temperature ≤ 0
  · refine .same ?_
    rw [holds, holds, stages, if_pos cold]
    rfl
  have drawing (entropy : llama.Entropy) :
      held ((stages params).foldl (llama.chainAdd entropy) chain) = params.filters.map .filter ++
        [.dist (samplers.initDist entropy (params.seed.getD defaultSeed))] := by
    rw [holds, SamplingParams.stages_eq cold, List.map_append, SamplingParams.create_filters]
    rfl
  by_cases unseeded : params.seed.getD defaultSeed = defaultSeed
  · have single : params.Single := by
      obtain seeded | cold' | single := settled
      · exact absurd unseeded seeded
      · exact absurd cold' cold
      · exact single
    exact .narrow (drawing entropy) (drawing other) (single.narrow narrowing)
  · refine .same ?_
    rw [drawing, drawing, seeded.seeded entropy other _ unseeded]

/-- A chain and grammar that are the same but for the entropy make twins, or the same error. -/
theorem build_twins (entropy other : llama.Entropy) {params : SamplingParams}
    {resolved : ResolvedTokens}
    (alike : ∀ chain, llama.chainInit = some chain →
      Samplers.Alike samplers held ((stages params).foldl (llama.chainAdd entropy) chain)
        ((stages params).foldl (llama.chainAdd other) chain)) :
    (∃ error, build llama entropy params resolved = .error error ∧
      build llama other params resolved = .error error) ∨
    ∃ sampler twin, build llama entropy params resolved = .ok sampler ∧
      build llama other params resolved = .ok twin ∧ Twins samplers held sampler twin := by
  rw [build, build]
  cases created : llama.chainInit with
  | none => exact .inl ⟨_, rfl, rfl⟩
  | some chain =>
      by_cases free : params.grammar.grammar.isEmpty
      · simp only [if_pos free]
        exact .inr ⟨_, _, rfl, rfl, rfl, alike chain created, rfl⟩
      · simp only [if_neg free]
        cases addGrammar llama params.grammar resolved with
        | error error => exact .inl ⟨error, rfl, rfl⟩
        | ok grammar => exact .inr ⟨_, _, rfl, rfl, rfl, alike chain created, rfl⟩

/-- The tokens a generation chooses from the logits it is shown, as far as its budget goes. -/
def generated (entropy : llama.Entropy) (params : SamplingParams) (resolved : ResolvedTokens)
    (shown : List (Token → llama.Logit)) : Except Exception (List Token) := do
  let sampler ← build llama entropy params resolved
  return sampler.chosen (params.within shown)

end SamplerChain

/-- Requests that chance has no say in draw the same tokens for as long as they are shown the
same logits, whatever their prompts, callbacks and caches. -/
theorem serve_reproducible {llama : Llama} {Client : Type} {config : EngineConfig}
    {samplers : Samplers llama.Logit llama.Entropy}
    {held : llama.Chain → List (Sampler samplers.Rng)} (chained : llama.Chained samplers held)
    (seeded : samplers.Seeded) (narrowing : samplers.Narrowing) {first second : Request llama Client}
    (sameParams : second.params = first.params) (settled : first.params.Settled)
    {resolved : ResolvedTokens} (resolves : resolve llama first.params = .ok resolved)
    {sampler : SamplerChain llama}
    (built : SamplerChain.build llama first.entropy first.params resolved = .ok sampler)
    (impl other : Impl llama) {count : Nat}
    (sameLogits : (shown (serve config first impl).2.impl.log).take count =
      (shown (serve config second other).2.impl.log).take count) :
    (drawn (serve config first impl).2.impl.log).take count =
      (drawn (serve config second other).2.impl.log).take count := by
  obtain ⟨error, failed, _⟩ | ⟨_, twin, builtFirst, builtSecond, twins⟩ :=
    SamplerChain.build_twins first.entropy second.entropy fun chain created =>
      SamplerChain.alike_stages chained seeded narrowing settled first.entropy second.entropy created
  · rw [built] at failed
    cases failed
  · rw [built] at builtFirst
    cases builtFirst
    rw [← sameParams] at resolves builtSecond
    have drew := (serve_draws config first (sameParams ▸ resolves) built impl).draws
    have drewToo := (serve_draws config second resolves builtSecond other).draws
    rw [← drew, ← drewToo, ← SamplerChain.chosen_take, ← SamplerChain.chosen_take, ← sameLogits]
    exact twins.chosen chained seeded _

end Llamad
