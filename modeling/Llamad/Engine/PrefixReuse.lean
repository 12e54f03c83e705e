import Llamad.Engine.Cache
import Mathlib.Order.Bounds.Defs

/-!
# How much of a cache a prompt reuses

`reusablePrefix` counts the leading tokens a prompt shares with the record of the cache,
one short of the prompt. The counts at which the two agree go down to zero, so the one at
which the scan stops is the greatest that may be kept (`reusablePrefix_isGreatest`), and
what a request keeps of the cache is that or nothing (`keepPrefix_keeps`).
-/

namespace Llamad

open Semantics Program

/-- Keeping `keep` tokens of a cache is safe for a prompt: the cache holds that many, they
are those the prompt begins with, and the prompt goes on behind them. -/
structure Reusable (cached prompt : List Token) (keep : Nat) : Prop where
  held : keep ≤ cached.length
  goesOn : if prompt = [] then keep = 0 else keep < prompt.length
  agrees : cached.take keep = prompt.take keep

/-- The scan goes as far as the sequences agree. -/
theorem reusablePrefix.le_scan {cached prompt : List Token} {limit count : Nat}
    (within : count ≤ limit) (held : count ≤ cached.length) (room : count ≤ prompt.length)
    (agrees : cached.take count = prompt.take count) : count ≤ scan cached prompt limit := by
  induction count generalizing cached prompt limit with
  | zero => exact Nat.zero_le _
  | succ count inductionHypothesis =>
      cases limit with
      | zero => cases within
      | succ limit =>
          cases cached with
          | nil => cases held
          | cons c cached =>
              cases prompt with
              | nil => cases room
              | cons p prompt =>
                  rw [List.take_succ_cons, List.take_succ_cons] at agrees
                  obtain ⟨rfl, rest⟩ := List.cons.inj agrees
                  rw [scan, if_pos rfl]
                  exact Nat.succ_le_succ (inductionHypothesis (Nat.le_of_succ_le_succ within)
                    (Nat.le_of_succ_le_succ held) (Nat.le_of_succ_le_succ room) rest)

/-- What is reused is safe to keep. -/
theorem reusable_reusablePrefix (cached prompt : List Token) :
    Reusable cached prompt (reusablePrefix cached prompt) := by
  obtain ⟨held, short, agrees⟩ := reusablePrefix_spec cached prompt
  refine ⟨held, ?_, agrees⟩
  by_cases empty : prompt = []
  · subst empty
    exact Nat.le_zero.mp short
  · rw [if_neg empty]
    have tokens := List.length_pos_of_ne_nil empty
    omega

/-- Nothing longer is. -/
theorem Reusable.le_reusablePrefix {cached prompt : List Token} {keep : Nat}
    (reusable : Reusable cached prompt keep) : keep ≤ reusablePrefix cached prompt := by
  obtain ⟨held, goesOn, agrees⟩ := reusable
  cases prompt with
  | nil => exact goesOn.le
  | cons first prompt =>
      rw [if_neg (List.cons_ne_nil _ _)] at goesOn
      rw [reusablePrefix, List.isEmpty_cons, if_neg Bool.false_ne_true]
      refine reusablePrefix.le_scan (le_min held ?_) held goesOn.le agrees
      exact Nat.le_sub_one_of_lt goesOn

/-- For every cache and every prompt, what is reused is the greatest count that is safe to
keep, and it leaves a token to decode of every prompt that has one. -/
theorem reusablePrefix_isGreatest (cached prompt : List Token) :
    IsGreatest {keep | Reusable cached prompt keep} (reusablePrefix cached prompt) ∧
      (prompt.drop (reusablePrefix cached prompt) = [] ↔ prompt = []) := by
  have reusable := reusable_reusablePrefix cached prompt
  refine ⟨⟨reusable, fun keep safe => safe.le_reusablePrefix⟩, ?_⟩
  by_cases empty : prompt = []
  · rw [empty, List.drop_nil]
  · have goesOn := reusable.goesOn
    rw [if_neg empty] at goesOn
    rw [List.drop_eq_nil_iff]
    exact iff_of_false (Nat.not_le.mpr goesOn) empty

example : reusablePrefix [1, 2, 3, 4] [1, 2, 9, 4] = 2 := by decide

example : reusablePrefix [1, 2, 3, 4] [1, 2, 3] = 2 := by decide

namespace Impl

variable {llama : Llama}

/-- Whatever the memory answers, what a request keeps of the cache is safe to keep, the
record is cut back to it, and where it is less than could be kept nothing is. -/
theorem keepPrefix_keeps (prompt : List Token) (impl : Impl llama) :
    ∃ keep after, keepPrefix prompt impl = (.ok keep, after) ∧
      Reusable impl.cached prompt keep ∧ after.cached = prompt.take keep ∧
      (keep = 0 ∨ keep = reusablePrefix impl.cached prompt) := by
  have reusable := reusable_reusablePrefix impl.cached prompt
  obtain ⟨host, kept⟩ | ⟨host, _, _, kept⟩ := keepPrefix_cases prompt impl
  · refine ⟨0, _, kept, ⟨Nat.zero_le _, ?_, rfl⟩, rfl, .inl rfl⟩
    by_cases empty : prompt = []
    · rw [if_pos empty]
    · rw [if_neg empty]
      exact List.length_pos_of_ne_nil empty
  · exact ⟨_, _, kept, reusable, reusable.agrees, .inr rfl⟩

end Impl

end Llamad
