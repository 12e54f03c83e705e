import Mathlib.Data.List.Induction
import Mathlib.Data.List.Sort

/-!
# Maxima and greatest items of a list

Items of a list ranked by a key in a linear order. `IsFirstMax` is the first item whose key
no other exceeds. `IsTop` are so many greatest items in descending
order; which of several equal ones are taken is left open, their keys are not.
-/

namespace Llamad.Logical

variable {Item Key : Type} [LinearOrder Key] {key : Item → Key}

/-- `item` stands at `index`, exceeds every item in front of it and is exceeded by none. -/
structure IsFirstMax (key : Item → Key) (items : List Item) (index : Nat) (item : Item) : Prop where
  found : items[index]? = some item
  greatest : ∀ (position : Nat) other, items[position]? = some other → key other ≤ key item
  first : ∀ (position : Nat) other, position < index → items[position]? = some other →
    key other < key item

namespace IsFirstMax

variable {items : List Item} {index : Nat} {item other : Item}

theorem singleton (item : Item) : IsFirstMax key [item] 0 item where
  found := rfl
  greatest position other found := by
    cases position with
    | zero =>
        cases found
        exact le_refl _
    | succ position => cases found
  first position other before := absurd before (Nat.not_lt_zero position)

/-- A greater item behind the others is the first maximum. -/
theorem snoc_of_lt (first : IsFirstMax key items index item) (exceeds : key item < key other) :
    IsFirstMax key (items ++ [other]) items.length other := by
  have below {position : Nat} {third : Item} (found : items[position]? = some third) :
      key third < key other := (first.greatest position third found).trans_lt exceeds
  refine ⟨List.getElem?_concat_length, fun position third found => ?_,
    fun position third before found => ?_⟩
  · rw [List.getElem?_append] at found
    split at found
    · exact (below found).le
    · rw [(List.mem_singleton.mp (List.mem_of_getElem? found))]
  · rw [List.getElem?_append_left before] at found
    exact below found

/-- An item behind the others that is no greater changes nothing. -/
theorem snoc_of_le (first : IsFirstMax key items index item) (within : key other ≤ key item) :
    IsFirstMax key (items ++ [other]) index item := by
  have inside : index < items.length := (List.getElem?_eq_some_iff.mp first.found).1
  refine ⟨?_, fun position third found => ?_, fun position third before found => ?_⟩
  · rw [List.getElem?_append_left inside]
    exact first.found
  · rw [List.getElem?_append] at found
    split at found
    · exact first.greatest position third found
    · rw [List.mem_singleton.mp (List.mem_of_getElem? found)]
      exact within
  · rw [List.getElem?_append_left (before.trans inside)] at found
    exact first.first position third before found

/-- Every list but the empty one has a first maximum. -/
theorem exists_of_ne_nil (key : Item → Key) (nonempty : items ≠ []) :
    ∃ index item, IsFirstMax key items index item := by
  induction items using List.reverseRecOn with
  | nil => exact absurd rfl nonempty
  | append_singleton items other inductionHypothesis =>
      by_cases none : items = []
      · subst none
        exact ⟨0, other, singleton other⟩
      · obtain ⟨index, item, first⟩ := inductionHypothesis none
        by_cases exceeds : key item < key other
        · exact ⟨items.length, other, first.snoc_of_lt exceeds⟩
        · exact ⟨index, item, first.snoc_of_le (not_lt.mp exceeds)⟩

end IsFirstMax

/-- The `count` greatest items in descending order. -/
structure IsTop (key : Item → Key) (count : Nat) (items top : List Item) : Prop where
  length : top.length = min count items.length
  descending : (top.map key).Pairwise (· ≥ ·)
  greatest : ∃ rest, items.Perm (top ++ rest) ∧ ∀ kept ∈ top, ∀ left ∈ rest, key left ≤ key kept

/-- Keys in descending order. -/
def rankedKeys (key : Item → Key) (items : List Item) : List Key :=
  (items.map key).mergeSort fun left right => right ≤ left

theorem length_rankedKeys (key : Item → Key) (items : List Item) :
    (rankedKeys key items).length = items.length := by
  rw [rankedKeys, List.length_mergeSort, List.length_map]

theorem pairwise_rankedKeys (key : Item → Key) (items : List Item) :
    (rankedKeys key items).Pairwise (· ≥ ·) := by
  have sorted := @List.pairwise_mergeSort Key (fun left right => decide (right ≤ left))
    (fun first second third below further => by
      rw [decide_eq_true_eq] at below further ⊢
      exact further.trans below)
    (fun first second => by simpa using le_total second first) (items.map key)
  exact sorted.imp of_decide_eq_true

theorem rankedKeys_le {items : List Item} {before after : Nat} {high low : Key}
    (ordered : before ≤ after) (first : (rankedKeys key items)[before]? = some high)
    (second : (rankedKeys key items)[after]? = some low) : low ≤ high := by
  obtain ⟨insideFirst, rfl⟩ := List.getElem?_eq_some_iff.mp first
  obtain ⟨insideSecond, rfl⟩ := List.getElem?_eq_some_iff.mp second
  obtain rfl | ahead := Nat.eq_or_lt_of_le ordered
  · exact le_refl _
  · exact List.pairwise_iff_getElem.mp (pairwise_rankedKeys key items) before after insideFirst
      insideSecond ahead

namespace IsTop

variable {items top : List Item} {count : Nat} {item : Item}

/-- In descending order, the keys of the greatest items come before those of the rest. -/
theorem exists_rest (isTop : IsTop key count items top) :
    ∃ rest, items.Perm (top ++ rest) ∧ rankedKeys key items = top.map key ++ rankedKeys key rest := by
  obtain ⟨rest, permuted, below⟩ := isTop.greatest
  refine ⟨rest, permuted, ?_⟩
  have descending : (top.map key ++ rankedKeys key rest).Pairwise (· ≥ ·) := by
    refine List.pairwise_append.mpr ⟨isTop.descending, pairwise_rankedKeys key rest, ?_⟩
    intro keptKey kept leftKey left
    obtain ⟨item, member, rfl⟩ := List.mem_map.mp kept
    obtain ⟨other, behind, rfl⟩ := List.mem_map.mp (List.mem_mergeSort.mp left)
    exact below item member other behind
  have keys : (items.map key).Perm (top.map key ++ rest.map key) := by
    rw [← List.map_append]
    exact permuted.map key
  exact List.Perm.eq_of_pairwise' (pairwise_rankedKeys key items) descending
    (((List.mergeSort_perm _ _).trans keys).trans ((List.mergeSort_perm _ _).symm.append_left _))

/-- The keys of the greatest items are the first ones in descending order. -/
theorem map_key (isTop : IsTop key count items top) :
    top.map key = (rankedKeys key items).take (min count items.length) := by
  obtain ⟨rest, _, whole⟩ := isTop.exists_rest
  rw [whole, ← isTop.length, List.take_left' (List.length_map key)]

/-- Where the last key taken and the first one left differ, the items taken are those that
reach the last key taken. -/
theorem mem_iff_of_gap (isTop : IsTop key (count + 1) items top) {low next : Key}
    (last : (rankedKeys key items)[count]? = some low)
    (following : (rankedKeys key items)[count + 1]? = some next) (gap : low ≠ next)
    (member : item ∈ items) : item ∈ top ↔ low ≤ key item := by
  obtain ⟨rest, permuted, whole⟩ := isTop.exists_rest
  have filled : top.length = count + 1 := by
    have inside := (List.getElem?_eq_some_iff.mp following).1
    rw [length_rankedKeys] at inside
    rw [isTop.length]
    omega
  constructor
  · intro kept
    obtain ⟨position, found⟩ := List.mem_iff_getElem?.mp (@List.mem_map_of_mem _ _ _ _ key kept)
    have inside := (List.getElem?_eq_some_iff.mp found).1
    have here : (rankedKeys key items)[position]? = some (key item) := by
      rwa [whole, List.getElem?_append_left inside]
    rw [List.length_map] at inside
    exact rankedKeys_le (by omega) here last
  · intro reaches
    by_contra left
    have behind : item ∈ rest := by
      obtain kept | behind := List.mem_append.mp (permuted.mem_iff.mp member)
      · exact absurd kept left
      · exact behind
    have ranks : key item ∈ rankedKeys key rest := List.mem_mergeSort.mpr (List.mem_map_of_mem behind)
    obtain ⟨position, found⟩ := List.mem_iff_getElem?.mp ranks
    have here : (rankedKeys key items)[count + 1 + position]? = some (key item) := by
      rw [whole, List.getElem?_append_right (by rw [List.length_map, filled]; omega),
        List.length_map, filled, Nat.add_sub_cancel_left]
      exact found
    have below := rankedKeys_le (by omega) following here
    have above := rankedKeys_le (Nat.le_succ count) last following
    exact gap (le_antisymm (reaches.trans below) above)

theorem subset (isTop : IsTop key count items top) (member : item ∈ top) : item ∈ items := by
  obtain ⟨rest, permuted, _⟩ := isTop.greatest
  exact permuted.mem_iff.mpr (List.mem_append_left rest member)

/-- A sorted list begins with the greatest items. -/
theorem take_mergeSort (key : Item → Key) (items : List Item) (count : Nat) :
    IsTop key count items
      ((items.mergeSort fun left right => decide (key right ≤ key left)).take count) := by
  let sorted := items.mergeSort fun left right => decide (key right ≤ key left)
  have ordered : sorted.Pairwise fun left right => key right ≤ key left := by
    have pairwise := @List.pairwise_mergeSort Item (fun left right => decide (key right ≤ key left))
      (fun first second third below further => by
        rw [decide_eq_true_eq] at below further ⊢
        exact further.trans below)
      (fun first second => by simpa using le_total (key second) (key first)) items
    exact pairwise.imp of_decide_eq_true
  refine ⟨?_, ?_, sorted.drop count, ?_, fun kept front left back => ?_⟩
  · rw [List.length_take, List.length_mergeSort]
  · exact List.pairwise_map.mpr (ordered.sublist (List.take_sublist count sorted))
  · rw [List.take_append_drop]
    exact (List.mergeSort_perm items _).symm
  · rw [← List.take_append_drop count sorted] at ordered
    exact (List.pairwise_append.mp ordered).2.2 kept front left back

/-- The first maximum is the greatest item. -/
theorem of_isFirstMax {index : Nat} (first : IsFirstMax key items index item) :
    IsTop key 1 items [item] := by
  have greatest {other : Item} (member : other ∈ items) : key other ≤ key item := by
    obtain ⟨position, found⟩ := List.mem_iff_getElem?.mp member
    exact first.greatest position other found
  obtain ⟨before, after, rfl⟩ := List.append_of_mem (List.mem_of_getElem? first.found)
  refine ⟨?_, List.pairwise_singleton _ _, before ++ after, List.perm_middle, ?_⟩
  · rw [List.length_singleton, List.length_append, List.length_cons]
    omega
  · intro kept same left member
    rw [List.mem_singleton.mp same]
    refine greatest ?_
    obtain front | back := List.mem_append.mp member
    · exact List.mem_append_left _ front
    · exact List.mem_append_right _ (List.mem_cons_of_mem _ back)

end IsTop

end Llamad.Logical
