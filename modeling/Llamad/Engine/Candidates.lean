import Llamad.Engine.Sampler
import Llamad.Logical.Ranking

/-!
# The candidates of a chain

What `choose` hands to the chain, for logits that are totally ordered: the whole
vocabulary in token order, or so many of its highest logits in descending order.
-/

namespace Llamad

open Logical

/-- Logits without NaN: `less` is their order, and minus infinity is below one. -/
structure Llama.Ranked (llama : Llama) [LinearOrder llama.Logit] : Prop where
  less : ∀ left right, llama.less left right = true ↔ left < right
  one : llama.negInfinity < llama.one

namespace SamplerChain

variable {llama : Llama}

/-- The candidate of every token, in token order. -/
def vocabulary (logits : Token → llama.Logit) : List (Candidate llama.Logit) :=
  (List.range llama.nVocab).map fun id => ⟨id, logits id, llama.zero⟩

theorem candidates_whole (logits : Token → llama.Logit) :
    candidates logits llama.nVocab = ⟨vocabulary logits, -1, false⟩ := by
  simp [candidates, vocabulary]

theorem candidates_one (logits : Token → llama.Logit) (several : 1 < llama.nVocab) :
    candidates logits 1 = ⟨(maxElement (vocabulary logits)).toList, -1, true⟩ := by
  simp [candidates, vocabulary, several, (Nat.ne_of_lt several)]

theorem candidates_some (logits : Token → llama.Logit) {count : Nat} (several : count ≠ 1)
    (fewer : count < llama.nVocab) :
    candidates logits count = ⟨llama.partialSortCopy (vocabulary logits) count, -1, true⟩ := by
  simp [candidates, vocabulary, several, fewer, (Nat.ne_of_lt fewer)]

theorem getElem?_vocabulary {logits : Token → llama.Logit} {index : Nat}
    {item : Candidate llama.Logit} :
    (vocabulary logits)[index]? = some item ↔
      index < llama.nVocab ∧ item = ⟨index, logits index, llama.zero⟩ := by
  rw [vocabulary, List.getElem?_map, Option.map_eq_some_iff]
  constructor
  · rintro ⟨id, found, rfl⟩
    obtain ⟨inside, rfl⟩ := List.getElem?_eq_some_iff.mp found
    rw [List.length_range] at inside
    rw [List.getElem_range]
    exact ⟨inside, rfl⟩
  · rintro ⟨inside, rfl⟩
    exact ⟨index, List.getElem?_range inside, rfl⟩

@[simp] theorem length_vocabulary (logits : Token → llama.Logit) :
    (vocabulary logits).length = llama.nVocab := by
  rw [vocabulary, List.length_map, List.length_range]

theorem vocabulary_ne_nil (logits : Token → llama.Logit) (nonempty : 0 < llama.nVocab) :
    vocabulary logits ≠ [] := by
  apply List.ne_nil_of_length_pos
  rwa [length_vocabulary]

/-- Every candidate carries its own logit. -/
theorem logit_of_mem_vocabulary {logits : Token → llama.Logit} {item : Candidate llama.Logit}
    (member : item ∈ vocabulary logits) : item.logit = logits item.id := by
  obtain ⟨id, _, rfl⟩ := List.mem_map.mp member
  rfl

theorem map_id_vocabulary (logits : Token → llama.Logit) :
    (vocabulary logits).map Candidate.id = List.range llama.nVocab := by
  simp [vocabulary, Function.comp_def]

/-- The candidates a chain is given, behind the grammar when there is one. -/
def fed (logits : Token → llama.Logit) (count : Nat) (behind : Option llama.Grammar) :
    Candidates llama.Logit :=
  match behind with
  | some grammar => llama.grammarApply grammar (candidates logits count)
  | none => candidates logits count

/-- What the answer of a chain comes to: the candidate it selects, or an error. -/
def picked (sampler : SamplerChain llama) (applied : Candidates llama.Logit × llama.Chain) :
    Except Exception (Token × SamplerChain llama) :=
  if applied.1.selected < 0 then .error (.engine .noTokenSelected)
  else
    match applied.1.data[applied.1.selected.toNat]? with
    | none => .error (.engine .noTokenSelected)
    | some candidate => .ok (candidate.id, { sampler with chain := applied.2 })

theorem choose_eq (sampler : SamplerChain llama) (logits : Token → llama.Logit) (count : Nat)
    (behind : Option llama.Grammar) :
    sampler.choose logits count behind =
      sampler.picked (llama.chainApply sampler.chain (fed logits count behind)) := rfl

/-- The candidate the chain selects is the one chosen. -/
theorem choose_of_selected {sampler : SamplerChain llama} {logits : Token → llama.Logit}
    {count : Nat} {behind : Option llama.Grammar} {item : Candidate llama.Logit}
    (selected : 0 ≤ (llama.chainApply sampler.chain (fed logits count behind)).1.selected)
    (found : (llama.chainApply sampler.chain (fed logits count behind)).1.data[
      (llama.chainApply sampler.chain (fed logits count behind)).1.selected.toNat]? = some item) :
    sampler.choose logits count behind = .ok (item.id,
      { sampler with chain := (llama.chainApply sampler.chain (fed logits count behind)).2 }) := by
  rw [choose_eq, picked, if_neg (Int.not_lt.mpr selected), found]

/-- Choosing a token leaves the grammar alone. -/
theorem choose_grammar {sampler chosen : SamplerChain llama} {logits : Token → llama.Logit}
    {count : Nat} {behind : Option llama.Grammar} {token : Token}
    (chose : sampler.choose logits count behind = .ok (token, chosen)) :
    chosen.grammar = sampler.grammar := by
  rw [choose_eq, picked] at chose
  split at chose
  · cases chose
  · split at chose
    · cases chose
    · cases chose
      rfl

variable [LinearOrder llama.Logit] (ranked : llama.Ranked)
include ranked

/-- The first of the candidates no other one exceeds is the first maximum. -/
theorem exists_maxElement {data : List (Candidate llama.Logit)} (nonempty : data ≠ []) :
    ∃ best, maxElement data = some best ∧
      ∃ index, IsFirstMax Candidate.logit data index best := by
  have scans (seen rest : List (Candidate llama.Logit)) (index : Nat)
      (item : Candidate llama.Logit) (first : IsFirstMax Candidate.logit seen index item) :
      ∃ position, IsFirstMax Candidate.logit (seen ++ rest) position
        (rest.foldl (fun best candidate =>
          if llama.less best.logit candidate.logit then candidate else best) item) := by
    induction rest generalizing seen index item with
    | nil =>
        rw [List.append_nil]
        exact ⟨index, first⟩
    | cons candidate rest inductionHypothesis =>
        rw [List.foldl_cons, List.append_cons]
        by_cases exceeds : llama.less item.logit candidate.logit = true
        · rw [if_pos exceeds]
          exact inductionHypothesis _ _ _ (first.snoc_of_lt ((ranked.less _ _).mp exceeds))
        · rw [if_neg exceeds]
          refine inductionHypothesis _ _ _ (first.snoc_of_le (not_lt.mp fun above => ?_))
          exact exceeds ((ranked.less _ _).mpr above)
  cases data with
  | nil => exact absurd rfl nonempty
  | cons first rest => exact ⟨_, rfl, scans [first] rest 0 first (.singleton first)⟩

end SamplerChain

end Llamad
