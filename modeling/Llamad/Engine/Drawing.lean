import Llamad.Engine.Seeding
import Mathlib.Data.Int.Log
import Mathlib.Algebra.Order.BigOperators.Group.List
import Mathlib.Algebra.Order.Archimedean.Basic
import Mathlib.Data.Rat.Floor
import Mathlib.Tactic.Ring

/-!
# A backend that draws

The samplers of a chain over logits in fixed point: a step of a logit is worth `unit`
halvings of a weight. The filters look at the logits and at nothing else, a draw goes by the
weights, and its generator starts from the entropy where no seed is given. Where all logits
are equal the filters leave a choice unless they have to (`Spread`), and the generator
makes it.
-/

namespace Llamad

open Logical

namespace Drawing

/-- The candidates by descending logit. -/
def descending (data : List (Candidate Int)) : List (Candidate Int) :=
  data.mergeSort fun left right => right.logit ≤ left.logit

/-- The highest logit. -/
def highest (data : List (Candidate Int)) : Int :=
  ((descending data).head?.map Candidate.logit).getD 0

/-- How likely a candidate is, compared with one that has the highest logit. -/
def weight (unit : Nat) (best : Int) (candidate : Candidate Int) : Rat :=
  (1 / 2) ^ ((best - candidate.logit).toNat * unit)

/-- The shortest front part of at least `minKeep` candidates with `need` of the weight. -/
def front (weight : Candidate Int → Rat) : Rat → Nat → List (Candidate Int) → List (Candidate Int)
  | _, _, [] => []
  | need, minKeep, candidate :: rest =>
      if need ≤ weight candidate ∧ minKeep ≤ 1 then [candidate]
      else candidate :: front weight (need - weight candidate) (minKeep - 1) rest

/-- The front part of the candidates with the share `p` of the weight of them all. -/
def share (unit : Nat) (p : Rat) (minKeep : Nat) (data : List (Candidate Int)) :
    List (Candidate Int) :=
  let weight := weight unit (highest data)
  front weight (p * (data.map weight).sum) minKeep data

/-- What a filter leaves. -/
def filter (unit : Nat) (stage : Stage) (array : Candidates Int) : Candidates Int :=
  match stage with
  | .greedy =>
      { array with selected := array.data.findIdx fun candidate =>
          candidate.logit = highest array.data }
  | .topK k =>
      if k ≤ 0 then array else { array with data := (descending array.data).take k.toNat }
  | .topP p minKeep =>
      if 1 ≤ p then array
      else { array with data := share unit p minKeep (descending array.data) }
  | .minP p minKeep =>
      if p ≤ 0 then array
      else
        let least := highest array.data + (Int.log 2 p).tdiv unit
        let many := array.data.countP fun candidate => least ≤ candidate.logit
        { array with data := (descending array.data).take (max (max 1 minKeep) many) }
  | .temp temperature =>
      { array with data := array.data.map fun candidate =>
          { candidate with logit := Rat.floor (candidate.logit / temperature) } }
  | .dist _ => array

/-- The samplers over such logits; the generator is a linear congruence. -/
def samplers (unit : Nat) : Samplers Int UInt32 where
  Rng := UInt32
  filter := filter unit
  initDist entropy seed := if seed = SamplerChain.defaultSeed then entropy else seed
  pick rng array :=
    ({ array with
      selected := (share unit (rng.toNat / 0xFFFFFFFF) 1 array.data).length - 1 },
      rng * 1664525 + 1013904223)

section Front

variable {weight : Candidate Int → Rat} {data : List (Candidate Int)} {need : Rat} {minKeep : Nat}

theorem front_prefix : front weight need minKeep data <+: data := by
  induction data generalizing need minKeep with
  | nil => exact List.prefix_rfl
  | cons candidate rest inductionHypothesis =>
      rw [front]
      split
      · exact List.prefix_append [candidate] rest
      · exact List.cons_prefix_cons.mpr ⟨rfl, inductionHypothesis⟩

theorem length_front_le (enough : ∀ candidate ∈ data.head?, need ≤ weight candidate)
    (few : minKeep ≤ 1) : (front weight need minKeep data).length ≤ 1 := by
  cases data with
  | nil => exact Nat.zero_le 1
  | cons candidate rest =>
      rw [front, if_pos ⟨enough candidate rfl, few⟩]
      exact le_rfl

/-- The first of several is not enough when more than its weight is needed. -/
theorem two_le_length_front (more : ∀ candidate ∈ data.head?, weight candidate < need)
    (several : 2 ≤ data.length) : 2 ≤ (front weight need minKeep data).length := by
  match data with
  | [] => simp at several
  | [_] => simp at several
  | first :: second :: rest =>
      rw [front, if_neg fun enough => absurd enough.1 (not_le.mpr (more first rfl)), front]
      split
      · exact le_rfl
      · exact Nat.succ_le_succ (Nat.succ_le_succ (Nat.zero_le _))

/-- All of the weight takes all of the candidates. -/
theorem front_whole (level : ∀ candidate ∈ data, weight candidate = 1) (few : minKeep ≤ 1) :
    front weight data.length minKeep data = data := by
  induction data generalizing minKeep with
  | nil => rfl
  | cons candidate rest inductionHypothesis =>
      obtain ⟨here, others⟩ := List.forall_mem_cons.mp level
      cases rest with
      | nil =>
          rw [front, front]
          split <;> rfl
      | cons second rest =>
          have more : ¬ ((candidate :: second :: rest).length : Rat) ≤ weight candidate := by
            rw [here, not_le, List.length_cons, List.length_cons]
            exact_mod_cast Nat.succ_lt_succ (Nat.succ_pos _)
          have left : ((candidate :: second :: rest).length : Rat) - weight candidate =
              (second :: rest).length := by
            rw [here, List.length_cons]
            push_cast
            ring
          rw [front, if_neg fun enough => more enough.1, left,
            inductionHypothesis others (by omega)]

end Front

theorem weight_le_one (unit : Nat) (best : Int) (candidate : Candidate Int) :
    weight unit best candidate ≤ 1 :=
  pow_le_one₀ (by norm_num) (by norm_num)

theorem length_descending (data : List (Candidate Int)) :
    (descending data).length = data.length :=
  List.length_mergeSort data

theorem descending_perm (data : List (Candidate Int)) : (descending data).Perm data :=
  List.mergeSort_perm data _

theorem highest_descending (data : List (Candidate Int)) :
    highest (descending data) = highest data := by
  have sorted : (descending data).Pairwise fun left right => decide (right.logit ≤ left.logit) :=
    List.pairwise_mergeSort (by intro a b c; simpa using fun h h' => le_trans h' h)
      (by intro a b; simpa using le_total b.logit a.logit) data
  rw [highest, descending, List.mergeSort_of_pairwise sorted, highest]

theorem weight_head (unit : Nat) (data : List (Candidate Int)) :
    ∀ candidate ∈ (descending data).head?, weight unit (highest data) candidate = 1 := by
  intro candidate first
  have best : highest data = candidate.logit := by
    rw [highest, Option.mem_def.mp first]
    rfl
  rw [weight, best, sub_self, Int.toNat_zero, Nat.zero_mul, pow_zero]

theorem length_share_le (unit : Nat) (p : Rat) (minKeep : Nat) (data : List (Candidate Int)) :
    (share unit p minKeep data).length ≤ data.length :=
  front_prefix.length_le

/-- A share that one of so many has is that of the first. -/
theorem length_share_descending_le (unit : Nat) {p : Rat} {minKeep : Nat}
    {data : List (Candidate Int)} (small : p * data.length ≤ 1) (few : minKeep ≤ 1) :
    (share unit p minKeep (descending data)).length ≤ 1 := by
  refine length_front_le (fun candidate first => ?_) few
  rw [highest_descending, weight_head unit data candidate first]
  let weights := (descending data).map (weight unit (highest data))
  have bounded : weights.sum ≤ data.length := by
    have each := List.sum_le_card_nsmul weights 1 fun value member => by
      obtain ⟨candidate, _, rfl⟩ := List.mem_map.mp member
      exact weight_le_one unit _ candidate
    rwa [List.length_map, length_descending, nsmul_eq_mul, mul_one] at each
  have nonnegative : 0 ≤ weights.sum := List.sum_nonneg fun value member => by
    obtain ⟨candidate, _, rfl⟩ := List.mem_map.mp member
    exact pow_nonneg (by norm_num) _
  by_cases negative : p ≤ 0
  · exact (mul_nonpos_of_nonpos_of_nonneg negative nonnegative).trans zero_le_one
  · exact (mul_le_mul_of_nonneg_left bounded (le_of_not_ge negative)).trans small

theorem seeded (unit : Nat) : (samplers unit).Seeded where
  seeded entropy other seed set := by simp [samplers, set]
  single rng other array few := by
    have same : (share unit (rng.toNat / 0xFFFFFFFF) 1 array.data).length =
        (share unit (other.toNat / 0xFFFFFFFF) 1 array.data).length := by
      match data : array.data with
      | [] => rfl
      | [candidate] =>
          simp only [share, front]
          split <;> split <;> rfl
      | _ :: _ :: _ => simp [data] at few
    simp only [samplers, same]

theorem narrowing (unit : Nat) : (samplers unit).Narrowing where
  shrinks stage array := by
    show (filter unit stage array).data.length ≤ array.data.length
    cases stage with
    | greedy => exact le_rfl
    | topK k =>
        rw [filter]
        split
        · exact le_rfl
        · exact (List.length_take_le' _ _).trans (length_descending _).le
    | topP p minKeep =>
        rw [filter]
        split
        · exact le_rfl
        · exact (length_share_le ..).trans (length_descending _).le
    | minP p minKeep =>
        rw [filter]
        split
        · exact le_rfl
        · exact (List.length_take_le' _ _).trans (length_descending _).le
    | temp temperature => exact (List.length_map _).le
    | dist seed => exact le_rfl
  topK k array positive := by
    show ((filter unit (.topK k) array).data.length : Int) ≤ k
    rw [filter, if_neg (not_le.mpr positive)]
    have taken := List.length_take_le k.toNat (descending array.data)
    show (((descending array.data).take k.toNat).length : Int) ≤ k
    omega
  topP p minKeep array small few := by
    show (filter unit (.topP p minKeep) array).data.length ≤ 1
    rw [filter]
    split
    · next certain =>
        have bounded : (array.data.length : Rat) ≤ 1 :=
          (le_mul_of_one_le_left (Nat.cast_nonneg _) certain).trans small
        exact_mod_cast bounded
    · exact length_share_descending_le unit small few

section Flat

/-- Different candidates with equal logits. -/
structure Flat (array : Candidates Int) : Prop where
  level : ∀ candidate ∈ array.data, candidate.logit = 0
  distinct : (array.data.map Candidate.id).Nodup

variable {unit : Nat} {array : Candidates Int} {data : List (Candidate Int)}

theorem Flat.congr (flat : Flat array) {after : Candidates Int}
    (same : after.data.Sublist (descending array.data)) : Flat after := by
  have perm := descending_perm array.data
  refine ⟨fun candidate member => flat.level candidate (perm.subset (same.subset member)), ?_⟩
  exact ((perm.map Candidate.id).nodup_iff.mpr flat.distinct).sublist (same.map Candidate.id)

theorem highest_of_level (level : ∀ candidate ∈ data, candidate.logit = 0) : highest data = 0 := by
  rw [highest]
  cases first : (descending data).head? with
  | none => rfl
  | some candidate =>
      exact level candidate ((descending_perm data).subset (List.mem_of_head? first))

theorem weight_of_level {candidate : Candidate Int} (zero : candidate.logit = 0) :
    weight unit 0 candidate = 1 := by
  rw [weight, zero, sub_self, Int.toNat_zero, Nat.zero_mul, pow_zero]

theorem share_of_level (level : ∀ candidate ∈ data, candidate.logit = 0) (p : Rat) (minKeep : Nat) :
    share unit p minKeep data = front (weight unit 0) (p * data.length) minKeep data := by
  have weights : data.map (weight unit 0) = List.replicate data.length 1 :=
    List.eq_replicate_iff.mpr ⟨List.length_map _, fun value member => by
      obtain ⟨candidate, among, rfl⟩ := List.mem_map.mp member
      exact weight_of_level (level candidate among)⟩
  rw [share, highest_of_level level, weights, List.sum_replicate, nsmul_eq_mul, mul_one]

/-- A filter keeps equal logits equal. -/
theorem Flat.filter (flat : Flat array) (unit : Nat) (stage : Stage) :
    Flat (filter unit stage array) := by
  cases stage with
  | greedy => exact ⟨flat.level, flat.distinct⟩
  | topK k =>
      rw [Drawing.filter]
      split
      · exact flat
      · exact flat.congr (List.take_sublist _ _)
  | topP p minKeep =>
      rw [Drawing.filter]
      split
      · exact flat
      · exact flat.congr front_prefix.sublist
  | minP p minKeep =>
      rw [Drawing.filter]
      split
      · exact flat
      · exact flat.congr (List.take_sublist _ _)
  | temp temperature =>
      refine ⟨fun candidate member => ?_, ?_⟩
      · obtain ⟨before, among, rfl⟩ := List.mem_map.mp member
        have zero : ((0 : Int) : Rat) / temperature = 0 := by rw [Int.cast_zero, zero_div]
        rw [flat.level before among, zero]
        rfl
      · rw [Drawing.filter, List.map_map]
        exact flat.distinct
  | dist seed => exact flat

/-- Top-k keeps no less than `k` of the candidates. -/
theorem length_topK {k : Int} (fits : (array.data.length : Int) ≤ k) :
    (filter unit (.topK k) array).data.length = array.data.length := by
  rw [filter]
  split
  · rfl
  · show ((descending array.data).take k.toNat).length = array.data.length
    rw [List.length_take, length_descending]
    omega

/-- Top-p leaves a choice of candidates as likely as each other when one has no such share. -/
theorem Flat.two_le_topP (flat : Flat array) {p : Rat} (several : 2 ≤ array.data.length)
    (large : 1 < p * array.data.length) :
    2 ≤ (Drawing.filter unit (.topP p 1) array).data.length := by
  have level : ∀ candidate ∈ descending array.data, candidate.logit = 0 :=
    fun candidate member => flat.level candidate ((descending_perm _).subset member)
  rw [Drawing.filter]
  split
  · exact several
  · show 2 ≤ (share unit p 1 (descending array.data)).length
    rw [share_of_level level, length_descending]
    refine two_le_length_front (fun candidate first => ?_) ((length_descending _).symm ▸ several)
    rwa [weight_of_level (level candidate (List.mem_of_head? first))]

/-- Min-p keeps all candidates as likely as each other when its bound is the highest logit. -/
theorem Flat.length_minP (flat : Flat array) {p : Rat} (coarse : (Int.log 2 p).natAbs < unit) :
    (Drawing.filter unit (.minP p 1) array).data.length = array.data.length := by
  have none_ : (Int.log 2 p).tdiv unit = 0 := by
    rw [← Int.natAbs_eq_zero, Int.natAbs_tdiv, Int.natAbs_natCast]
    exact Nat.div_eq_of_lt coarse
  have bound : highest array.data + (Int.log 2 p).tdiv unit = 0 := by
    rw [highest_of_level flat.level, none_]
    rfl
  have all : array.data.countP (fun candidate => (0 : Int) ≤ candidate.logit) =
      array.data.length :=
    List.countP_eq_length.mpr fun candidate member => by simp [flat.level candidate member]
  rw [Drawing.filter]
  split
  · rfl
  · simp only [bound, all, List.length_take, length_descending]
    omega

/-- So many candidates, and so coarse a unit, that the filters of the parameters leave a
choice of equal logits. -/
structure Spread (params : SamplingParams) (count unit : Nat) : Prop where
  several : 2 ≤ count
  topK : 0 < params.topK → params.topK = count
  topP : 1 < params.topP * count
  minP : (Int.log 2 params.minP).natAbs < unit

/-- The filters leave a choice of that many equal logits. -/
theorem Spread.choice {params : SamplingParams} {count : Nat} (spread : Spread params count unit)
    (flat : Flat array) (counted : array.data.length = count) :
    Flat ((samplers unit).filtered params.filters array) ∧
      2 ≤ ((samplers unit).filtered params.filters array).data.length := by
  obtain ⟨several, topK, topP, minP⟩ := spread
  have one (stage : Stage) (array : Candidates Int) :
      (samplers unit).filtered [stage] array = filter unit stage array := rfl
  let topped := (samplers unit).filtered
    (if 0 < params.topK then [.topK params.topK] else []) array
  have ontop : Flat topped ∧ topped.data.length = count := by
    by_cases positive : 0 < params.topK
    · simp only [topped, if_pos positive, one]
      exact ⟨flat.filter unit _, (length_topK (by rw [topK positive, counted])).trans counted⟩
    · simp only [topped, if_neg positive]
      exact ⟨flat, counted⟩
  let likely := (samplers unit).filtered
    (if params.topP < 1 then [.topP params.topP 1] else []) topped
  have among : Flat likely ∧ 2 ≤ likely.data.length := by
    by_cases selective : params.topP < 1
    · simp only [likely, if_pos selective, one]
      exact ⟨ontop.1.filter unit _, ontop.1.two_le_topP (ontop.2 ▸ several) (ontop.2 ▸ topP)⟩
    · simp only [likely, if_neg selective]
      exact ⟨ontop.1, ontop.2 ▸ several⟩
  let kept := (samplers unit).filtered
    (if 0 < params.minP then [.minP params.minP 1] else []) likely
  have stays : Flat kept ∧ 2 ≤ kept.data.length := by
    by_cases bounded : 0 < params.minP
    · simp only [kept, if_pos bounded, one]
      exact ⟨among.1.filter unit _, (among.1.length_minP minP).symm ▸ among.2⟩
    · simp only [kept, if_neg bounded]
      exact among
  have all : (samplers unit).filtered params.filters array =
      filter unit (.temp params.temperature) kept := by
    rw [SamplingParams.filters, Samplers.filtered_append, Samplers.filtered_append,
      Samplers.filtered_append]
    rfl
  rw [all]
  exact ⟨stays.1.filter unit _, (List.length_map _).symm ▸ stays.2⟩

/-- A generator at its start draws the first of equal logits, one at its end the last. -/
theorem Flat.pick (flat : Flat array) (several : 2 ≤ array.data.length) :
    ((samplers unit).pick (0 : UInt32) array).1.selected = (0 : Nat) ∧
      ((samplers unit).pick (0xFFFFFFFF : UInt32) array).1.selected =
        (array.data.length - 1 : Nat) := by
  have level : ∀ candidate ∈ array.data, weight unit 0 candidate = 1 :=
    fun candidate member => weight_of_level (flat.level candidate member)
  have selects (rng : UInt32) : ((samplers unit).pick rng array).1.selected =
      (front (weight unit 0) (rng.toNat / 0xFFFFFFFF * array.data.length) 1 array.data).length -
        1 := by
    rw [← share_of_level flat.level]
    rfl
  rw [selects, selects]
  refine ⟨?_, ?_⟩
  · cases data : array.data with
    | nil => simp [data] at several
    | cons first rest =>
        rw [data] at level
        have enough : ((0 : UInt32).toNat : Rat) / 0xFFFFFFFF * (first :: rest).length ≤
            weight unit 0 first := by
          rw [level first List.mem_cons_self]
          simp
        rw [front, if_pos ⟨enough, le_rfl⟩]
        rfl
  · have all : ((0xFFFFFFFF : UInt32).toNat : Rat) / 0xFFFFFFFF * array.data.length =
        array.data.length := by
      have one : ((0xFFFFFFFF : UInt32).toNat : Rat) / 0xFFFFFFFF = 1 := by
        have value : (0xFFFFFFFF : UInt32).toNat = 4294967295 := rfl
        rw [value]
        norm_num
      rw [one, one_mul]
    rw [all, front_whole level le_rfl]
    omega

end Flat

end Drawing

/-- A backend of `count` tokens that all end a generation; its entropy is the seed it draws
with when none is set. -/
def Llama.drawing (count unit : Nat) : Llama :=
  { Llama.bytes fun _ => 0 with
    nVocab := count
    isEog := fun _ => true
    Chain := List (Sampler (Drawing.samplers unit).Rng)
    Entropy := UInt32
    chainInit := some []
    chainAdd := fun entropy chain stage => chain ++ [(Drawing.samplers unit).create entropy stage]
    chainApply := fun chain array => (Drawing.samplers unit).run chain array
    chainAccept := fun chain _ => chain }

namespace Drawing

variable {params : SamplingParams} {count unit : Nat}

theorem chained (count unit : Nat) :
    (Llama.drawing count unit).Chained (Drawing.samplers unit) id where
  init := by
    rintro _ ⟨⟩
    rfl
  add _ _ _ := rfl
  apply _ _ := rfl
  accept _ _ := rfl

/-- The whole vocabulary with equal logits. -/
def level (count : Nat) : Candidates Int :=
  ⟨(List.range count).map fun id => ⟨id, 0, 0⟩, -1, false⟩

/-- What the filters of the parameters leave of it. -/
def left (params : SamplingParams) (count unit : Nat) : Candidates Int :=
  (samplers unit).filtered params.filters (level count)

theorem Spread.left (spread : Spread params count unit) :
    Flat (left params count unit) ∧ 2 ≤ (Drawing.left params count unit).data.length := by
  have counted : (level count).data.length = count := by
    rw [level, List.length_map, List.length_range]
  refine spread.choice ⟨fun candidate member => ?_, ?_⟩ counted
  · obtain ⟨id, _, rfl⟩ := List.mem_map.mp member
    rfl
  · rw [level, List.map_map]
    exact (List.map_id (List.range count)).symm ▸ List.nodup_range

/-- The chain of a request whose draw is seeded with `rng`. -/
def chain (params : SamplingParams) (count unit : Nat) (rng : UInt32) :
    (Llama.drawing count unit).Chain :=
  params.filters.map .filter ++ [.dist rng]

end Drawing

end Llamad
