import Llamad.Engine.Candidates

/-!
# The top-k stage over restricted candidates

`choose` passes the chain only the candidates its top-k stage can keep. What leaves that
stage has the same logits as over the whole vocabulary; which of several equal logits are
kept may differ, and nothing else.
-/

namespace Llamad

open Logical

/-- A top-k sampler truncates candidates marked sorted, and keeps the highest logits of
others in descending order. -/
structure Llama.TopK {llama : Llama} [LinearOrder llama.Logit]
    (topK : Int → Candidates llama.Logit → Candidates llama.Logit) : Prop where
  sorted : ∀ (k : Int) array, 0 < k → array.sorted = true →
    (topK k array).data = array.data.take k.toNat
  unsorted : ∀ (k : Int) array, 0 < k → array.sorted = false →
    IsTop Candidate.logit k.toNat array.data (topK k array).data

/-- `std::ranges::partial_sort_copy` copies so many highest logits in descending order. -/
def Llama.PartiallySorts (llama : Llama) [LinearOrder llama.Logit] : Prop :=
  ∀ data count, IsTop Candidate.logit count data (llama.partialSortCopy data count)

namespace SamplerChain

variable {llama : Llama} [LinearOrder llama.Logit]
  {topK : Int → Candidates llama.Logit → Candidates llama.Logit} {params : SamplingParams}
  {logits : Token → llama.Logit}

/-- Every id appears once and carries its own logit. -/
def OwnLogits (logits : Token → llama.Logit) (data : List (Candidate llama.Logit)) : Prop :=
  (data.map Candidate.id).Nodup ∧ ∀ item ∈ data, item.logit = logits item.id

omit [LinearOrder llama.Logit] in
theorem ownLogits_vocabulary (logits : Token → llama.Logit) :
    OwnLogits logits (vocabulary logits) := by
  refine ⟨?_, fun item => logit_of_mem_vocabulary⟩
  rw [map_id_vocabulary]
  exact List.nodup_range

/-- The greatest candidates carry their own logits when all do. -/
theorem OwnLogits.of_isTop {count : Nat} {data top : List (Candidate llama.Logit)}
    (own : OwnLogits logits data) (isTop : IsTop Candidate.logit count data top) :
    OwnLogits logits top := by
  refine ⟨?_, fun item member => own.2 item (isTop.subset member)⟩
  obtain ⟨rest, permuted, _⟩ := isTop.greatest
  have distinct := (permuted.map Candidate.id).nodup_iff.mp own.1
  rw [List.map_append] at distinct
  exact distinct.of_append_left

variable (ranked : llama.Ranked) (sorts : llama.PartiallySorts)
include ranked sorts

/-- Fewer candidates than the vocabulary has are its highest logits. -/
theorem isTop_candidates (logits : Token → llama.Logit) {count : Nat} (some : 0 < count)
    (fewer : count < llama.nVocab) :
    IsTop Candidate.logit count (vocabulary logits) (candidates logits count).data ∧
      (candidates logits count).sorted = true := by
  by_cases one : count = 1
  · subst one
    obtain ⟨item, found, index, first⟩ := exists_maxElement ranked
      (vocabulary_ne_nil logits (Nat.zero_lt_of_lt fewer))
    rw [candidates_one logits fewer, found]
    exact ⟨.of_isFirstMax first, rfl⟩
  · rw [candidates_some logits one fewer]
    exact ⟨sorts _ _, rfl⟩

/-- With a temperature, the top-k stage comes first, and what `choose` passes it leaves it as
the highest logits of the vocabulary. -/
theorem isTop_restricted (stage : Llama.TopK topK) (warm : ¬ params.temperature ≤ 0)
    (limited : 0 < params.topK) (logits : Token → llama.Logit) :
    IsTop Candidate.logit params.topK.toNat (vocabulary logits)
        (topK params.topK (candidates logits (selectable llama params))).data ∧
      (llama.nVocab ≤ params.topK.toNat → selectable llama params = llama.nVocab) := by
  have selects : selectable llama params = min params.topK.toNat llama.nVocab := by
    rw [selectable, if_neg warm, if_pos limited]
  have some : 0 < params.topK.toNat := by omega
  rw [selects]
  refine ⟨?_, Nat.min_eq_right⟩
  obtain fewer | all := Nat.lt_or_ge params.topK.toNat llama.nVocab
  · rw [Nat.min_eq_left fewer.le]
    obtain ⟨isTop, sorted⟩ := isTop_candidates ranked sorts logits some fewer
    have short := isTop.length.trans_le (Nat.min_le_left _ _)
    rwa [stage.sorted _ _ limited sorted, List.take_of_length_le short]
  · rw [Nat.min_eq_right all, candidates_whole]
    exact stage.unsorted params.topK ⟨vocabulary logits, -1, false⟩ limited rfl

/-- Passing the chain fewer candidates than the whole vocabulary changes nothing behind the
top-k stage but the choice among equal logits. -/
theorem topK_restricted (stage : Llama.TopK topK) (warm : ¬ params.temperature ≤ 0)
    (limited : 0 < params.topK) (logits : Token → llama.Logit) :
    let restricted := (topK params.topK (candidates logits (selectable llama params))).data
    let whole := (topK params.topK ⟨vocabulary logits, -1, false⟩).data
    let ordered := rankedKeys Candidate.logit (vocabulary logits)
    (stages params).head? = some (.topK params.topK) ∧
      restricted.map Candidate.logit = whole.map Candidate.logit ∧
      (whole.map Candidate.logit).Pairwise (· ≥ ·) ∧
      OwnLogits logits restricted ∧ OwnLogits logits whole ∧
      ((∀ low next, ordered[params.topK.toNat - 1]? = some low →
          ordered[params.topK.toNat]? = some next → low ≠ next) →
        ∀ id, id ∈ restricted.map Candidate.id ↔ id ∈ whole.map Candidate.id) := by
  intro restricted whole ordered
  obtain ⟨isTop, saturates⟩ := isTop_restricted ranked sorts stage warm limited logits
  have isTopWhole : IsTop Candidate.logit params.topK.toNat (vocabulary logits) whole :=
    stage.unsorted params.topK ⟨vocabulary logits, -1, false⟩ limited rfl
  refine ⟨by simp [stages, warm, limited], isTop.map_key.trans isTopWhole.map_key.symm,
    isTopWhole.descending, (ownLogits_vocabulary logits).of_isTop isTop,
    (ownLogits_vocabulary logits).of_isTop isTopWhole, fun gap id => ?_⟩
  obtain fewer | all := Nat.lt_or_ge params.topK.toNat llama.nVocab
  · obtain ⟨count, size⟩ := Nat.exists_eq_succ_of_ne_zero (by omega : params.topK.toNat ≠ 0)
    rw [size] at isTop isTopWhole gap fewer
    have length : ordered.length = llama.nVocab :=
      (length_rankedKeys _ _).trans (length_vocabulary logits)
    have last := List.getElem?_eq_getElem (by omega : count < ordered.length)
    have following := List.getElem?_eq_getElem (by omega : count + 1 < ordered.length)
    have apart := gap _ _ last following
    have agree {item : Candidate llama.Logit} (member : item ∈ vocabulary logits) :
        item ∈ restricted ↔ item ∈ whole :=
      (isTop.mem_iff_of_gap last following apart member).trans
        (isTopWhole.mem_iff_of_gap last following apart member).symm
    rw [List.mem_map, List.mem_map]
    constructor
    · rintro ⟨item, member, same⟩
      exact ⟨item, (agree (isTop.subset member)).mp member, same⟩
    · rintro ⟨item, member, same⟩
      exact ⟨item, (agree (isTopWhole.subset member)).mpr member, same⟩
  · have same : restricted = whole := by
      simp only [restricted, whole, saturates all, candidates_whole]
    rw [same]

end SamplerChain

section Bytes

instance (next : List Token → Token) : LinearOrder (Llama.bytes next).Logit :=
  inferInstanceAs (LinearOrder Int)

/-- A top-k sampler that sorts what is not marked sorted. -/
def sortingTopK {llama : Llama} [LinearOrder llama.Logit] (k : Int)
    (array : Candidates llama.Logit) : Candidates llama.Logit :=
  let ordered := array.data.mergeSort fun left right => right.logit ≤ left.logit
  { array with data := (if array.sorted then array.data else ordered).take k.toNat, sorted := true }

theorem sortingTopK_topK {llama : Llama} [LinearOrder llama.Logit] :
    Llama.TopK (@sortingTopK llama _) where
  sorted k array _ sorted := by simp [sortingTopK, sorted]
  unsorted k array _ unsorted := by
    simpa [sortingTopK, unsorted] using IsTop.take_mergeSort Candidate.logit array.data k.toNat

/-- Of 257 logits with many equal ones, the default forty are kept the same. -/
theorem SamplerChain.topK_restricted_bytes :
    let logits : Token → (Llama.bytes fun _ => 0).Logit := fun token => ((token % 7 : Nat) : Int)
    (sortingTopK 40 (candidates logits (selectable (Llama.bytes fun _ => 0)
        { temperature := 1 }))).data.map
        Candidate.logit =
      (sortingTopK 40 ⟨vocabulary logits, -1, false⟩).data.map Candidate.logit := by
  have less (left right : Int) : (Llama.bytes fun _ => 0).less left right = true ↔ left < right :=
    decide_eq_true_iff
  have one : (Llama.bytes fun _ => 0).negInfinity < (Llama.bytes fun _ => 0).one :=
    (by decide : (-1 : Int) < 1)
  have sorts : (Llama.bytes fun _ => 0).PartiallySorts := fun data count =>
    IsTop.take_mergeSort Candidate.logit data count
  have warm : ¬ ({ temperature := 1 } : SamplingParams).temperature ≤ 0 := by decide
  have limited : 0 < ({ temperature := 1 } : SamplingParams).topK := by decide
  exact (topK_restricted ⟨less, one⟩ sorts sortingTopK_topK warm limited _).2.1

end Bytes

end Llamad
