import Llamad.Chat.ShownContent

/-!
# The raw remainder

When the final parse fails, `finish` returns the raw output behind what was emitted. The
stream keeps the emitted bytes and not where they stood, so it looks for them in the
output. This module says when the place it finds is the place they were taken from.
-/

namespace Llamad

open Logical Semantics Program

/-- A cut of a text is an occurrence of the bytes it holds. -/
theorem occursAt_of_cut {α : Type} {word text : List α} {offset length : Nat}
    (cut : word = (text.drop offset).take length) (inside : offset + length ≤ text.length) :
    OccursAt word text offset ∧ word.length = length := by
  have size : word.length = length := by
    rw [cut, List.length_take, List.length_drop]
    omega
  refine ⟨⟨text.take offset, text.drop (offset + length), ?_, ?_⟩, size⟩
  · rw [cut, List.append_assoc, ← List.drop_drop, List.take_append_drop, List.take_append_drop]
  · rw [List.length_take]
    omega

/-- Two back parts of a text are the same only when they begin at the same place. -/
theorem drop_inj {α : Type} {text : List α} {first second : Nat}
    (firstInside : first ≤ text.length)
    (secondInside : second ≤ text.length) (same : text.drop first = text.drop second) :
    first = second := by
  have sizes := congrArg List.length same
  rw [List.length_drop, List.length_drop] at sizes
  omega

namespace Stream

variable {common : Common} {stream : Stream common}

/-- The output behind the emitted text is found exactly when no copy of that text stands
in front of it. -/
theorem rawRemainder_eq_iff {offset : Nat}
    (occurs : OccursAt stream.emitted stream.accumulated offset) :
    stream.rawRemainder = stream.accumulated.drop (offset + stream.emitted.length) ↔
      ∀ other, OccursAt stream.emitted stream.accumulated other → offset ≤ other := by
  have inside := occurs.end_le
  by_cases nothing : stream.emitted = []
  · have remainder : stream.rawRemainder = stream.accumulated.drop 0 := by
      simp only [rawRemainder, rawOffsetAfterEmitted, nothing, List.isEmpty_nil, if_true]
    rw [remainder]
    constructor
    · intro same other _
      have start := drop_inj (Nat.zero_le _) inside same
      omega
    · intro least
      have start := least 0 (nothing ▸ occursAt_zero_iff.mpr List.nil_prefix)
      rw [Nat.le_zero.mp start, nothing]
      rfl
  · cases found : find? stream.emitted stream.accumulated with
    | none => exact absurd occurs (find?_eq_none_iff.mp found offset)
    | some first =>
        obtain ⟨firstOccurs, least⟩ := find?_eq_some_iff.mp found
        have remainder : stream.rawRemainder =
            stream.accumulated.drop (first + stream.emitted.length) := by
          simp only [rawRemainder, rawOffsetAfterEmitted, List.isEmpty_iff, nothing, if_false,
            found, Option.map_some]
        rw [remainder]
        constructor
        · intro same other otherOccurs
          have start := drop_inj firstOccurs.end_le inside same
          have bound := least other otherOccurs
          omega
        · intro leastToo
          rw [Nat.le_antisymm (least offset occurs) (leastToo first firstOccurs)]

/-- What the pushes of a run leave in the stream. -/
theorem pushAll_law {chunks shown : List Bytes} {after : Stream common}
    (ran : pushAll chunks stream = (.ok shown, after)) :
    after.emitted = stream.emitted ++ shown.flatten ∧ after.state = stream.state ∧
      after.accumulated = stream.accumulated ++ chunks.flatten := by
  induction chunks generalizing stream shown with
  | nil =>
      simp only [pushAll, pure_apply] at ran
      cases ran
      simp
  | cons text rest inductionHypothesis =>
      simp only [pushAll, bind_eq_ok_iff, pure_apply] at ran
      obtain ⟨delta, middle, pushed, more, ending, others, gathered⟩ := ran
      cases gathered
      obtain ⟨_, emitted, state, accumulated⟩ := push_law pushed []
      obtain ⟨emittedMore, stateToo, accumulatedMore⟩ := inductionHypothesis others
      refine ⟨?_, stateToo.trans state, ?_⟩
      · rw [emittedMore, emitted, List.append_assoc, List.flatten_cons]
      · rw [accumulatedMore, accumulated, List.append_assoc, List.flatten_cons]

/-- When the pushes of a run returned the `length` bytes of the output from `offset` on and
the final parse fails, `finish` returns the output behind them exactly when they do not
stand anywhere in front of `offset`. -/
theorem finish_resumes_iff {state : ParseState common} {rng : common.Rng}
    {chunks shown : List Bytes} {offset length : Nat} {what : Bytes}
    (pushed : pushAll chunks (fresh state rng) = (.ok shown, stream))
    (taken : shown.flatten = (chunks.flatten.drop offset).take length)
    (inside : offset + length ≤ chunks.flatten.length)
    (fails : common.chatParse chunks.flatten false state = .error (.standard what)) :
    (∃ last after, finish stream = (.ok last, after) ∧
        last.contentTail = chunks.flatten.drop (offset + length)) ↔
      ∀ other, OccursAt shown.flatten chunks.flatten other → offset ≤ other := by
  obtain ⟨emitted, sameState, accumulated⟩ := pushAll_law pushed
  change stream.emitted = shown.flatten at emitted
  change stream.accumulated = chunks.flatten at accumulated
  change stream.state = state at sameState
  obtain ⟨occurs, size⟩ := occursAt_of_cut taken inside
  rw [← emitted, ← accumulated] at occurs
  have found := rawRemainder_eq_iff occurs
  rw [emitted, accumulated, size] at found
  rw [← found]
  rw [← accumulated, ← sameState] at fails
  rw [finish_of_fails fails]
  constructor
  · rintro ⟨_, _, ⟨⟩, same⟩
    exact same
  · exact fun same => ⟨_, _, rfl, same⟩

/-- A parser that withholds the first two bytes as reasoning and rejects the whole. -/
def withholding (text : Bytes) (isPartial : Bool) : Except Foreign CommonChatMsg :=
  if isPartial then .ok { content := text.drop 2, reasoningContent := text.take 2 }
  else .error (.standard (literal "output does not match the format"))

/-- `xyab` shows `ab` from offset 2, in front of which there is no copy of it. -/
theorem finish_resumes_iff_reasoning :
    ∃ stream : Stream (.parsing (fun _ => true) withholding),
      pushAll [[0x78, 0x79, 0x61], [0x62]]
          (fresh (Common.parsingState (fun _ => true) withholding) ()) =
        (.ok [[0x61], [0x62]], stream) ∧
      ((∃ last after, finish stream = (.ok last, after) ∧
          last.contentTail = ([0x78, 0x79, 0x61, 0x62] : Bytes).drop (2 + 2)) ↔
        ∀ other, OccursAt [0x61, 0x62] ([0x78, 0x79, 0x61, 0x62] : Bytes) other → 2 ≤ other) :=
  ⟨_, rfl, @finish_resumes_iff (.parsing (fun _ => true) withholding) _
    (Common.parsingState (fun _ => true) withholding) () [[0x78, 0x79, 0x61], [0x62]]
    [[0x61], [0x62]] 2 2 _ rfl rfl (by decide) rfl⟩

/-- Reasoning that holds a copy of the content: `aba` shows `a` from offset 2, and `finish`
returns the end of the reasoning and the shown byte again, where nothing is left. -/
theorem finish_returns_shown :
    ∃ stream after : Stream (.parsing (fun _ => true) withholding),
      pushAll [[0x61, 0x62, 0x61]] (fresh (Common.parsingState (fun _ => true) withholding) ()) =
        (.ok [[0x61]], stream) ∧
      ([[0x61]] : List Bytes).flatten = (([0x61, 0x62, 0x61] : Bytes).drop 2).take 1 ∧
      finish stream = (.ok { contentTail := [0x62, 0x61] }, after) ∧
      ([0x62, 0x61] : Bytes) ≠ ([0x61, 0x62, 0x61] : Bytes).drop (2 + 1) :=
  ⟨_, _, rfl, rfl, rfl, by decide⟩

end Stream

end Llamad
