import Llamad.Engine.Candidates
import Llamad.Semantics.Program

/-!
# Greedy sampling behind a grammar

`sample` asks the grammar about the single most likely token and looks at the rest of the
vocabulary only when it is refused. Greedily this is the most likely token the grammar
allows, the first of them in token order, as if the grammar had been applied first.
-/

namespace Llamad

open Logical Semantics Program

/-- Chains of this kind are the greedy sampler: they select the first of the highest logits. -/
structure Llama.Greedy (llama : Llama) [LinearOrder llama.Logit] (IsGreedy : llama.Chain → Prop) :
    Prop where
  apply : ∀ chain array index item, IsGreedy chain →
    IsFirstMax Candidate.logit array.data index item →
      (llama.chainApply chain array).1 = { array with selected := index } ∧
        IsGreedy (llama.chainApply chain array).2
  accept : ∀ chain token, IsGreedy chain → IsGreedy (llama.chainAccept chain token)
  built : ∀ entropy chain, llama.chainInit = some chain →
    IsGreedy (llama.chainAdd entropy chain .greedy)

/-- Grammars mask each candidate by itself. -/
def Llama.Masks (llama : Llama) (allows : llama.Grammar → Token → Bool) : Prop :=
  ∀ grammar array, (llama.grammarApply grammar array).data =
    array.data.map fun candidate =>
      if allows grammar candidate.id then candidate
      else { candidate with logit := llama.negInfinity }

namespace SamplerChain

variable {llama : Llama} [LinearOrder llama.Logit] {IsGreedy : llama.Chain → Prop}
  {allows : llama.Grammar → Token → Bool} {logits : Token → llama.Logit}
  {sampler : SamplerChain llama} {params : SamplingParams}

/-- What the grammar of a sampler allows; without one, everything. -/
def allowed (allows : llama.Grammar → Token → Bool) (grammar : Option llama.Grammar)
    (token : Token) : Bool :=
  grammar.all fun grammar => allows grammar token

/-- The token has the highest logit of those allowed, and is the first that has. -/
structure IsBest (logits : Token → llama.Logit) (permits : Token → Bool) (token : Token) :
    Prop where
  inside : token < llama.nVocab
  permitted : permits token = true
  highest : ∀ other < llama.nVocab, permits other = true → logits other ≤ logits token
  lowest : ∀ other < token, permits other = true → logits other < logits token

omit [LinearOrder llama.Logit] in
theorem selectable_greedy (cold : params.temperature ≤ 0) : selectable llama params = 1 := by
  rw [selectable, if_pos cold]

theorem IsBest.unique {permits : Token → Bool} {token other : Token}
    (first : IsBest logits permits token) (second : IsBest logits permits other) :
    token = other := by
  apply Nat.le_antisymm
  · by_contra before
    have below := first.lowest other (Nat.lt_of_not_le before) second.permitted
    exact absurd (second.highest token first.inside first.permitted) (not_le_of_gt below)
  · by_contra before
    have below := second.lowest token (Nat.lt_of_not_le before) first.permitted
    exact absurd (first.highest other second.inside second.permitted) (not_le_of_gt below)

/-- The best token of all, when it is allowed, is the best of those allowed. -/
theorem IsBest.restrict {permits : Token → Bool} {token : Token}
    (best : IsBest logits (fun _ => true) token) (permitted : permits token = true) :
    IsBest logits permits token where
  inside := best.inside
  permitted := permitted
  highest other inside _ := best.highest other inside rfl
  lowest other before _ := best.lowest other before rfl

/-- What `sample` does with the token it has settled on. -/
def settle (state : llama.Grammar) (token : Token) (chosen : SamplerChain llama) :
    Except Exception (Token × SamplerChain llama) :=
  match llama.grammarAccept state token with
  | .error error => .error (.foreign error)
  | .ok advanced => .ok (token, { chosen with
      chain := llama.chainAccept chosen.chain token, grammar := some advanced })

omit [LinearOrder llama.Logit] in
/-- Behind a grammar a refused first choice is made again, and the last one is settled on. -/
theorem sample_of_grammar {state : llama.Grammar} (kept : sampler.grammar = some state)
    (logits : Token → llama.Logit) :
    sampler.sample logits = (do
      let (first, chosen) ← sampler.choose logits sampler.nSelectable none
      if refuses state first then do
        let (second, redrawn) ← chosen.choose logits llama.nVocab (some state)
        settle state second redrawn
      else
        settle state first chosen) := by
  rw [sample]
  cases chose : sampler.choose logits sampler.nSelectable none with
  | error error => rfl
  | ok chosen =>
      have keeps : chosen.2.grammar = some state := (choose_grammar chose).trans kept
      simp only [bind, Except.bind, keeps]
      rfl

/-- What a logit is worth behind a grammar. -/
def masked (permits : Token → Bool) (logits : Token → llama.Logit) (token : Token) :
    llama.Logit :=
  if permits token then logits token else llama.negInfinity

/-- The first maximum of a vocabulary is its best token. -/
theorem isBest_of_isFirstMax {index : Nat} {item : Candidate llama.Logit}
    (first : IsFirstMax Candidate.logit (vocabulary logits) index item) :
    IsBest logits (fun _ => true) index ∧ item.id = index := by
  obtain ⟨inside, rfl⟩ := getElem?_vocabulary.mp first.found
  refine ⟨⟨inside, rfl, fun other otherInside _ => ?_, fun other before _ => ?_⟩, rfl⟩
  · exact first.greatest other _ (getElem?_vocabulary.mpr ⟨otherInside, rfl⟩)
  · exact first.first other _ before (getElem?_vocabulary.mpr ⟨before.trans inside, rfl⟩)

/-- The best token of a masked vocabulary is the best one allowed, when one is. -/
theorem IsBest.of_masked {permits : Token → Bool} {token : Token}
    (best : IsBest (masked permits logits) (fun _ => true) token)
    (possible : ∃ other < llama.nVocab, permits other = true ∧ llama.negInfinity < logits other) :
    IsBest logits permits token := by
  obtain ⟨witness, inside, allowed, above⟩ := possible
  have worth {other : Token} (permitted : permits other = true) :
      masked permits logits other = logits other := by rw [masked, if_pos permitted]
  have permitted : permits token = true := by
    by_contra refused
    have highest := best.highest witness inside rfl
    rw [worth allowed, masked, if_neg refused] at highest
    exact absurd above (not_lt_of_ge highest)
  refine ⟨best.inside, permitted, fun other otherInside here => ?_, fun other before here => ?_⟩
  · have highest := best.highest other otherInside rfl
    rwa [worth here, worth permitted] at highest
  · have lowest := best.lowest other before rfl
    rwa [worth here, worth permitted] at lowest

omit [LinearOrder llama.Logit] in
/-- The whole vocabulary behind a grammar is a vocabulary of masked logits. -/
theorem fed_whole (masks : llama.Masks allows) (behind : Option llama.Grammar) :
    (fed logits llama.nVocab behind).data = vocabulary (masked (allowed allows behind) logits) := by
  cases behind with
  | none =>
      rw [fed, candidates_whole]
      rfl
  | some grammar =>
      rw [fed, masks, candidates_whole, vocabulary, vocabulary, List.map_map]
      refine List.map_congr_left fun token _ => ?_
      cases permitted : allows grammar token <;> simp [masked, allowed, permitted]

/-- The grammar refuses the tokens it does not allow. -/
theorem refuses_eq (ranked : llama.Ranked) (masks : llama.Masks allows) (grammar : llama.Grammar)
    (token : Token) : refuses grammar token = !allows grammar token := by
  have apart := ranked.one.ne'
  rw [refuses, masks]
  cases permitted : allows grammar token <;> simp [permitted, apart]

/-- A sampler of a generation without temperature. -/
structure Greedily (IsGreedy : llama.Chain → Prop) (params : SamplingParams)
    (sampler : SamplerChain llama) : Prop where
  chain : IsGreedy sampler.chain
  selectable : sampler.nSelectable = selectable llama params

variable (greedy : llama.Greedy IsGreedy)
include greedy

/-- The sampler that is built for a temperature of zero or less is greedy. -/
theorem Greedily.of_build {entropy : llama.Entropy} {resolved : ResolvedTokens}
    (cold : params.temperature ≤ 0) (built : build llama entropy params resolved = .ok sampler) :
    sampler.Greedily IsGreedy params := by
  have only : stages params = [.greedy] := by rw [stages, if_pos cold]
  rw [build] at built
  split at built
  · cases built
  rename_i chain created
  have chosen := greedy.built entropy chain created
  split at built
  · cases built
    exact ⟨by rwa [only], rfl⟩
  · obtain ⟨grammar, _, built⟩ := except_bind_eq_ok_iff.mp built
    cases built
    exact ⟨by rwa [only], rfl⟩

/-- Over candidates with a first maximum the chain chooses that one. -/
theorem Greedily.choose_of_isFirstMax (greedily : sampler.Greedily IsGreedy params) {count : Nat}
    {behind : Option llama.Grammar} {index : Nat} {item : Candidate llama.Logit}
    (first : IsFirstMax Candidate.logit (fed logits count behind).data index item) :
    ∃ next, sampler.choose logits count behind = .ok (item.id, next) ∧
      next.grammar = sampler.grammar ∧ next.Greedily IsGreedy params := by
  obtain ⟨selected, stays⟩ := greedy.apply sampler.chain _ index item greedily.chain first
  have inside : (llama.chainApply sampler.chain (fed logits count behind)).1.selected = index :=
    congrArg Candidates.selected selected
  have data : (llama.chainApply sampler.chain (fed logits count behind)).1.data =
      (fed logits count behind).data := by rw [selected]
  refine ⟨_, choose_of_selected ?_ ?_, rfl, stays, greedily.selectable⟩
  · rw [inside]
    exact Int.natCast_nonneg index
  · rw [inside, Int.toNat_natCast, data]
    exact first.found

/-- Behind the grammar the whole vocabulary yields the best token it allows. -/
theorem Greedily.choose_whole (masks : llama.Masks allows)
    (greedily : sampler.Greedily IsGreedy params)
    (logits : Token → llama.Logit) (behind : Option llama.Grammar)
    (possible : ∃ token < llama.nVocab, allowed allows behind token = true ∧
      llama.negInfinity < logits token) :
    ∃ token next, sampler.choose logits llama.nVocab behind = .ok (token, next) ∧
      IsBest logits (allowed allows behind) token ∧ next.grammar = sampler.grammar ∧
        next.Greedily IsGreedy params := by
  have ⟨witness, inside, _⟩ := possible
  have fills := vocabulary_ne_nil (masked (allowed allows behind) logits) (Nat.zero_lt_of_lt inside)
  obtain ⟨index, item, first⟩ := IsFirstMax.exists_of_ne_nil Candidate.logit fills
  obtain ⟨best, same⟩ := isBest_of_isFirstMax first
  obtain ⟨next, chose, kept⟩ := greedily.choose_of_isFirstMax greedy
    (fed_whole masks behind ▸ first)
  exact ⟨item.id, next, chose, same ▸ best.of_masked possible, kept⟩

variable (ranked : llama.Ranked)
include ranked

/-- Without a grammar the single highest logit is the best token of all. -/
theorem Greedily.choose_one (greedily : sampler.Greedily IsGreedy params)
    (logits : Token → llama.Logit) (cold : params.temperature ≤ 0) (nonempty : 0 < llama.nVocab) :
    ∃ token next, sampler.choose logits sampler.nSelectable none = .ok (token, next) ∧
      IsBest logits (fun _ => true) token ∧ next.grammar = sampler.grammar ∧
        next.Greedily IsGreedy params := by
  rw [greedily.selectable, selectable_greedy cold]
  have fills := vocabulary_ne_nil logits nonempty
  have chooses {index position : Nat} {item : Candidate llama.Logit}
      (best : IsFirstMax Candidate.logit (vocabulary logits) position item)
      (first : IsFirstMax Candidate.logit (fed logits 1 none).data index item) :
      ∃ token next, sampler.choose logits 1 none = .ok (token, next) ∧
        IsBest logits (fun _ => true) token ∧ next.grammar = sampler.grammar ∧
          next.Greedily IsGreedy params := by
    obtain ⟨isBest, same⟩ := isBest_of_isFirstMax best
    obtain ⟨next, chose, kept⟩ := greedily.choose_of_isFirstMax greedy first
    exact ⟨item.id, next, chose, same ▸ isBest, kept⟩
  by_cases only : llama.nVocab = 1
  · have data : (fed logits 1 none).data = vocabulary logits := by
      rw [fed, ← only, candidates_whole]
    obtain ⟨index, item, best⟩ := IsFirstMax.exists_of_ne_nil Candidate.logit fills
    exact chooses best (data ▸ best)
  · obtain ⟨item, found, index, best⟩ := exists_maxElement ranked fills
    have data : (fed logits 1 none).data = [item] := by
      rw [fed, candidates_one logits (by omega), found]
      rfl
    have first : IsFirstMax Candidate.logit [item] 0 item := .singleton item
    exact chooses best (data ▸ first)

/-- What `sample` does with a token once it is chosen: it returns it, unless the grammar
throws when it accepts it. -/
def Draws (IsGreedy : llama.Chain → Prop) (params : SamplingParams) (sampler : SamplerChain llama)
    (logits : Token → llama.Logit) (token : Token) : Prop :=
  (∃ next, sampler.sample logits = .ok (token, next) ∧ next.Greedily IsGreedy params) ∨
    ∃ grammar cause, sampler.grammar = some grammar ∧
      llama.grammarAccept grammar token = .error cause ∧
        sampler.sample logits = .error (.foreign cause)

omit ranked in
/-- A token chosen for a grammar is accepted into it and into the chain. -/
theorem Draws.of_chosen {grammar : llama.Grammar} {token : Token} {chosen : SamplerChain llama}
    (state : sampler.grammar = some grammar) (stays : chosen.Greedily IsGreedy params)
    (sampled : sampler.sample logits = settle grammar token chosen) :
    sampler.Draws IsGreedy params logits token := by
  rw [settle] at sampled
  cases accepted : llama.grammarAccept grammar token with
  | error cause =>
      rw [accepted] at sampled
      exact .inr ⟨grammar, cause, state, accepted, sampled⟩
  | ok advanced =>
      rw [accepted] at sampled
      exact .inl ⟨_, sampled, greedy.accept _ _ stays.chain, stays.selectable⟩

/-- Without temperature `sample` returns the first token with the highest logit that the
grammar allows, the one the chain selects from the whole vocabulary behind the grammar. -/
theorem sample_greedy (masks : llama.Masks allows) (logits : Token → llama.Logit)
    (cold : params.temperature ≤ 0) (greedily : sampler.Greedily IsGreedy params)
    (possible : ∃ token < llama.nVocab, allowed allows sampler.grammar token = true ∧
      llama.negInfinity < logits token) :
    ∃ token chosen, IsBest logits (allowed allows sampler.grammar) token ∧
      sampler.Draws IsGreedy params logits token ∧
        sampler.choose logits llama.nVocab sampler.grammar = .ok (token, chosen) := by
  obtain ⟨whole, chosen, choseWhole, best, _, _⟩ :=
    greedily.choose_whole greedy masks logits sampler.grammar possible
  have nonempty : 0 < llama.nVocab := Nat.zero_lt_of_lt best.inside
  obtain ⟨first, drawn, chose, highest, kept, stays⟩ :=
    greedily.choose_one greedy ranked logits cold nonempty
  refine ⟨whole, chosen, best, ?_, choseWhole⟩
  cases state : sampler.grammar with
  | none =>
      rw [state] at best kept
      rw [← (highest.restrict rfl).unique best]
      refine .inl ⟨{ drawn with chain := llama.chainAccept drawn.chain first }, ?_,
        greedy.accept _ _ stays.chain, stays.selectable⟩
      simp only [SamplerChain.sample, chose, bind, Except.bind, kept]
      rfl
  | some grammar =>
      rw [state] at best kept possible
      cases permitted : allows grammar first with
      | true =>
          rw [← (highest.restrict permitted).unique best]
          refine .of_chosen greedy state stays ?_
          simp only [sample_of_grammar state, chose, bind, Except.bind, refuses_eq ranked masks,
            permitted, Bool.not_true, Bool.false_eq_true, if_false]
      | false =>
          obtain ⟨redrawn, next, rechose, again, _, onward⟩ :=
            stays.choose_whole greedy masks logits (some grammar) possible
          rw [← again.unique best]
          refine .of_chosen greedy state onward ?_
          simp only [sample_of_grammar state, chose, bind, Except.bind, refuses_eq ranked masks,
            permitted, Bool.not_false, if_true, rechose]

end SamplerChain

section Picky

/-- A backend with four tokens whose grammar allows the even ones. -/
def Llama.picky : Llama :=
  { Llama.bytes fun _ => 0 with
    nVocab := 4
    grammarApply := fun _ array =>
      { array with data := array.data.map fun candidate =>
          if candidate.id % 2 = 0 then candidate else { candidate with logit := (-1 : Int) } } }

instance : LinearOrder Llama.picky.Logit := inferInstanceAs (LinearOrder Int)

theorem Llama.picky_ranked : Llama.picky.Ranked where
  less left right := (decide_eq_true_iff : decide ((left : Int) < (right : Int)) = true ↔ _)
  one := (by decide : (-1 : Int) < 1)

theorem Llama.picky_greedy : Llama.picky.Greedy fun _ => True where
  apply chain array index item _ first := by
    refine ⟨?_, trivial⟩
    obtain ⟨inside, here⟩ := List.getElem?_eq_some_iff.mp first.found
    have selects : array.data.findIdx (fun candidate =>
        array.data.all fun other => decide ((other.logit : Int) ≤ (candidate.logit : Int))) =
        index := by
      refine (List.findIdx_eq inside).mpr ⟨?_, fun position before => ?_⟩
      · refine List.all_eq_true.mpr fun other member => decide_eq_true ?_
        obtain ⟨position, found⟩ := List.mem_iff_getElem?.mp member
        rw [here]
        exact first.greatest position other found
      · refine List.all_eq_false.mpr ⟨item, List.mem_of_getElem? first.found, ?_⟩
        have below := first.first position _ before
          (List.getElem?_eq_getElem (before.trans inside))
        exact fun within => absurd below (not_lt_of_ge (of_decide_eq_true within))
    exact congrArg (fun start : Nat =>
      ({ array with selected := start } : Candidates Llama.picky.Logit)) selects
  accept _ _ _ := trivial
  built _ _ _ := trivial

theorem Llama.picky_masks : Llama.picky.Masks fun _ token => token % 2 = 0 := by
  intro _ array
  have masks (candidate : Candidate Int) :
      (if candidate.id % 2 = 0 then candidate else { candidate with logit := -1 }) =
        if decide (candidate.id % 2 = 0) = true then candidate
        else { candidate with logit := -1 } := by simp
  exact List.map_congr_left fun candidate _ => masks candidate

/-- Token 1 has the highest logit and is refused; token 2 is the first of the next highest. -/
theorem SamplerChain.sample_greedy_picky :
    let logits : Token → Llama.picky.Logit := fun token => ([0, 3, 2, 2] : List Int).getD token 0
    ∃ next, SamplerChain.sample (⟨1, (), some ()⟩ : SamplerChain Llama.picky) logits =
      .ok (2, next) := by
  intro logits
  let sampler : SamplerChain Llama.picky := ⟨1, (), some ()⟩
  let params : SamplingParams := { temperature := 0 }
  have cold : params.temperature ≤ 0 := by decide
  have greedily : sampler.Greedily (fun _ => True) params := ⟨trivial, rfl⟩
  obtain ⟨token, _, best, drew, _⟩ := sample_greedy Llama.picky_greedy Llama.picky_ranked
    Llama.picky_masks logits cold greedily
    ⟨2, by decide, rfl, (by decide : (-1 : Int) < 2)⟩
  have second : IsBest logits (fun token => token % 2 = 0) 2 := by
    have orders : (∀ other < 4, other % 2 = 0 → ([0, 3, 2, 2] : List Int).getD other 0 ≤ 2) ∧
        ∀ other < 2, other % 2 = 0 → ([0, 3, 2, 2] : List Int).getD other 0 < 2 := by decide
    exact ⟨by decide, rfl, fun other inside even => orders.1 other inside (of_decide_eq_true even),
      fun other before even => orders.2 other before (of_decide_eq_true even)⟩
  rw [best.unique second] at drew
  obtain ⟨next, drew, _⟩ | ⟨_, _, _, threw, _⟩ := drew
  · exact ⟨next, drew⟩
  · cases threw

end Picky

end Llamad
