import Mathlib.Data.List.Basic
import Mathlib.Data.List.Infix
import Mathlib.Data.Nat.Find

/-!
# Occurrences of a word in a text

`OccursAt` places a word inside a text and `PartialMatch` places a proper prefix
of it at the end of a text. `OccursAt.of_append` says how the two interact when a
text grows at its end: an occurrence is either already there or extends a partial
match. `find?` computes the first occurrence.
-/

namespace Llamad.Logical

variable {α : Type*}

/-- `word` stands in `text` with its first item at position `start`. -/
def OccursAt (word text : List α) (start : Nat) : Prop :=
  ∃ before after, text = before ++ word ++ after ∧ before.length = start

/-- The last `len` items of `text` are the first `len` items of `word`, and `word`
is longer than that: the text may yet grow into an occurrence. -/
def PartialMatch (word text : List α) (len : Nat) : Prop :=
  len < word.length ∧ ∃ before, text = before ++ word.take len

namespace OccursAt

variable {word text more : List α} {start : Nat}

theorem end_le (occurs : OccursAt word text start) :
    start + word.length ≤ text.length := by
  obtain ⟨before, after, rfl, rfl⟩ := occurs
  simp only [List.length_append]
  omega

theorem append (occurs : OccursAt word text start) (more : List α) :
    OccursAt word (text ++ more) start := by
  obtain ⟨before, after, rfl, rfl⟩ := occurs
  exact ⟨before, after ++ more, by simp, rfl⟩

theorem prepend (occurs : OccursAt word text start) (front : List α) :
    OccursAt word (front ++ text) (front.length + start) := by
  obtain ⟨before, after, rfl, rfl⟩ := occurs
  exact ⟨front ++ before, after, by simp, by simp⟩

/-- An occurrence that starts inside the second part of a text lies in that part. -/
theorem of_prepend {front : List α} (occurs : OccursAt word (front ++ text) start)
    (inside : front.length ≤ start) : OccursAt word text (start - front.length) := by
  obtain ⟨before, after, same, rfl⟩ := occurs
  rw [List.append_assoc] at same
  obtain ⟨middle, frontEq, textEq⟩ | ⟨middle, beforeEq, textEq⟩ :=
    List.append_eq_append_iff.mp same
  · subst frontEq
    exact ⟨middle, after, by simpa using textEq, by simp⟩
  · subst beforeEq
    have empty : middle = [] := by
      apply List.eq_nil_of_length_eq_zero
      simp only [List.length_append] at inside
      omega
    subst empty
    exact ⟨[], after, by simpa using textEq.symm, by simp⟩

/-- When a text grows, an occurrence was there before or extends a partial match
that ends the old text. -/
theorem of_append (occurs : OccursAt word (text ++ more) start) :
    OccursAt word text start ∨
      text.length < start + word.length ∧
        (start ≤ text.length → PartialMatch word text (text.length - start)) := by
  by_cases fits : start + word.length ≤ text.length
  · left
    obtain ⟨before, after, same, rfl⟩ := occurs
    refine ⟨before, text.drop (before.length + word.length), ?_, rfl⟩
    have taken : text.take (before.length + word.length) = before ++ word := by
      have cut := congrArg (List.take (before ++ word).length) same
      rw [List.take_left, List.take_append_of_le_length (by simpa using fits)] at cut
      simpa using cut
    rw [← taken, List.take_append_drop]
  · right
    refine ⟨by omega, fun inside => ⟨by omega, ?_⟩⟩
    obtain ⟨before, after, same, rfl⟩ := occurs
    refine ⟨before, ?_⟩
    have taken := congrArg (List.take text.length) same
    rw [List.take_left] at taken
    calc text = (before ++ word ++ after).take text.length := taken
      _ = before ++ word.take (text.length - before.length) := by
          rw [List.append_assoc, List.take_append, List.take_of_length_le inside,
            List.take_append_of_le_length (by omega)]

/-- An occurrence that ends inside the first part of a text lies in that part. -/
theorem of_append_of_le (occurs : OccursAt word (text ++ more) start)
    (inside : start + word.length ≤ text.length) : OccursAt word text start := by
  obtain here | ⟨beyond, _⟩ := occurs.of_append
  · exact here
  · omega

end OccursAt

namespace PartialMatch

variable {word text more : List α} {len : Nat}

theorem le_length (partialMatch : PartialMatch word text len) : len ≤ text.length := by
  obtain ⟨short, before, rfl⟩ := partialMatch
  simp only [List.length_append, List.length_take]
  omega

/-- A partial match that reaches back past the newest part of a text was a partial
match of the older part. -/
theorem of_append (partialMatch : PartialMatch word (text ++ more) len)
    (reaches : more.length ≤ len) : PartialMatch word text (len - more.length) := by
  obtain ⟨short, before, same⟩ := partialMatch
  have total := congrArg List.length same
  simp only [List.length_append, List.length_take] at total
  refine ⟨by omega, before, ?_⟩
  have taken := congrArg (List.take text.length) same
  rw [List.take_left, List.take_append, List.take_of_length_le (by omega), List.take_take] at taken
  rw [taken]
  congr 2
  omega

/-- Whether the end of a text is a partial match depends only on that end. -/
theorem append_left_iff {front : List α} (short : len ≤ text.length) :
    PartialMatch word (front ++ text) len ↔ PartialMatch word text len := by
  constructor
  · rintro ⟨below, before, same⟩
    refine ⟨below, text.take (text.length - len), ?_⟩
    have total := congrArg List.length same
    have dropped := congrArg (List.drop (front.length + (text.length - len))) same
    simp only [List.length_append, List.length_take] at total
    rw [List.drop_append, List.drop_append, List.drop_of_length_le (by omega),
      List.drop_of_length_le (by omega : before.length ≤ _)] at dropped
    have zero : front.length + (text.length - len) - before.length = 0 := by omega
    rw [zero] at dropped
    simp only [Nat.add_sub_cancel_left, List.nil_append, List.drop_zero] at dropped
    rw [← dropped, List.take_append_drop]
  · rintro ⟨below, before, rfl⟩
    exact ⟨below, front ++ before, by simp⟩

/-- The executable reading of a partial match, as `std::string::compare` on the
last `len` items. -/
theorem iff_drop (short : len ≤ text.length) :
    PartialMatch word text len ↔
      len < word.length ∧ text.drop (text.length - len) = word.take len := by
  constructor
  · rintro ⟨below, before, rfl⟩
    refine ⟨below, ?_⟩
    have start : (before ++ word.take len).length - len = before.length := by
      simp only [List.length_append, List.length_take]
      omega
    rw [start, List.drop_left]
  · rintro ⟨below, same⟩
    exact ⟨below, text.take (text.length - len), by rw [← same, List.take_append_drop]⟩

end PartialMatch

section Find

/-- Position of the first occurrence of `word`, if there is one. -/
def find? [DecidableEq α] (word : List α) : List α → Option Nat
  | [] => if word = [] then some 0 else none
  | item :: rest =>
      if word.isPrefixOf (item :: rest) then some 0 else (find? word rest).map (· + 1)

theorem occursAt_zero_iff {word text : List α} : OccursAt word text 0 ↔ word <+: text := by
  constructor
  · rintro ⟨before, after, rfl, empty⟩
    rw [List.eq_nil_of_length_eq_zero empty]
    exact ⟨after, by simp⟩
  · rintro ⟨after, rfl⟩
    exact ⟨[], after, by simp, rfl⟩

theorem occursAt_cons_succ_iff {word rest : List α} {item : α} {start : Nat} :
    OccursAt word (item :: rest) (start + 1) ↔ OccursAt word rest start := by
  constructor
  · intro occurs
    have split : OccursAt word ([item] ++ rest) (start + 1) := occurs
    exact split.of_prepend (by simp)
  · intro occurs
    simpa [Nat.add_comm] using occurs.prepend [item]

variable [DecidableEq α]

/-- `find?` returns the least position the word occurs at. -/
theorem find?_eq_some_iff {word text : List α} {start : Nat} :
    find? word text = some start ↔
      OccursAt word text start ∧ ∀ other, OccursAt word text other → start ≤ other := by
  induction text generalizing start with
  | nil =>
      have onlyZero : ∀ other, OccursAt word ([] : List α) other → other = 0 := by
        intro other occurs
        have bound := occurs.end_le
        simp at bound
        exact bound.1
      by_cases empty : word = []
      · simp only [find?, empty, if_true, Option.some.injEq]
        constructor
        · rintro rfl
          exact ⟨occursAt_zero_iff.mpr List.nil_prefix, fun _ _ => Nat.zero_le _⟩
        · rintro ⟨occurs, _⟩
          subst empty
          exact (onlyZero _ occurs).symm
      · simp only [find?, empty, if_false, reduceCtorEq, false_iff]
        rintro ⟨occurs, _⟩
        have bound := occurs.end_le
        simp at bound
        exact empty bound.2
  | cons item rest inductionHypothesis =>
      by_cases here : word.isPrefixOf (item :: rest)
      · have zero : OccursAt word (item :: rest) 0 :=
          occursAt_zero_iff.mpr (List.isPrefixOf_iff_prefix.mp here)
        simp only [find?, here, if_true, Option.some.injEq]
        constructor
        · rintro rfl
          exact ⟨zero, fun _ _ => Nat.zero_le _⟩
        · rintro ⟨_, least⟩
          exact (Nat.le_zero.mp (least 0 zero)).symm
      · have notZero : ¬ OccursAt word (item :: rest) 0 := by
          intro occurs
          exact here (List.isPrefixOf_iff_prefix.mpr (occursAt_zero_iff.mp occurs))
        simp only [find?, here, if_false, Bool.false_eq_true, Option.map_eq_some_iff]
        constructor
        · rintro ⟨found, foundEq, rfl⟩
          obtain ⟨occurs, least⟩ := inductionHypothesis.mp foundEq
          refine ⟨occursAt_cons_succ_iff.mpr occurs, ?_⟩
          intro other otherOccurs
          cases other with
          | zero => exact absurd otherOccurs notZero
          | succ other =>
              exact Nat.succ_le_succ (least other (occursAt_cons_succ_iff.mp otherOccurs))
        · rintro ⟨occurs, least⟩
          cases start with
          | zero => exact absurd occurs notZero
          | succ start =>
              refine ⟨start, inductionHypothesis.mpr ⟨occursAt_cons_succ_iff.mp occurs, ?_⟩, rfl⟩
              intro other otherOccurs
              exact Nat.le_of_succ_le_succ
                (least (other + 1) (occursAt_cons_succ_iff.mpr otherOccurs))

/-- `find?` fails exactly when the word does not occur. -/
theorem find?_eq_none_iff {word text : List α} :
    find? word text = none ↔ ∀ start, ¬ OccursAt word text start := by
  constructor
  · intro missing
    by_contra present
    push Not at present
    classical
    have least := Nat.find_spec present
    have found : find? word text = some (Nat.find present) :=
      find?_eq_some_iff.mpr ⟨least, fun other occurs => Nat.find_min' present occurs⟩
    rw [missing] at found
    cases found
  · intro absent
    cases found : find? word text with
    | none => rfl
    | some start => exact absurd (find?_eq_some_iff.mp found).1 (absent start)

end Find

/-- A cut of a list behind which one item follows is either at that item or a cut of the
list in front of it. -/
theorem append_singleton_eq_cut {front before after : List α} {last item : α}
    (same : front ++ [last] = before ++ item :: after) :
    (after = [] ∧ item = last ∧ before = front) ∨
      ∃ earlier, after = earlier ++ [last] ∧ front = before ++ item :: earlier := by
  obtain rfl | ⟨earlier, final, rfl⟩ := after.eq_nil_or_concat
  · obtain ⟨rfl, here⟩ := List.append_inj' same rfl
    cases here
    exact .inl ⟨rfl, rfl, rfl⟩
  · rw [List.concat_eq_append, ← List.cons_append, ← List.append_assoc] at same
    obtain ⟨rfl, here⟩ := List.append_inj' same rfl
    cases here
    exact .inr ⟨earlier, List.concat_eq_append, rfl⟩

end Llamad.Logical
