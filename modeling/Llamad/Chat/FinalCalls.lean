import Llamad.Chat.Stream

/-!
# The calls a finished stream returns

`finish` reads the calls from the last parse that was not empty. Where the final parse
succeeds with an empty message that is an earlier, partial one, and calls it had seen
provisionally are returned. `finalCalls_eq_expectedCalls_iff` says when this does not happen.
-/

namespace Llamad

open Logical Semantics Program

variable {common : Common}

namespace Stream

/-- The calls of the final parse of `text` when it succeeds and all of them are complete. -/
def expectedCalls (state : ParseState common) (text : Bytes) : List (Bytes × Bytes) :=
  match common.chatParse text false state with
  | .ok final => deliverable common final.toolCalls
  | .error _ => []

/-- The calls `finish` returns after the chunks of an output, without their ids. -/
def finalCalls (state : ParseState common) (rng : common.Rng) (chunks : List Bytes) :
    Option (List (Bytes × Bytes)) :=
  match (run chunks (fresh state rng)).1 with
  | .ok (_, last) => some (last.toolCalls.map ToolCall.bare)
  | .error _ => none

/-- Where the final parse is empty, the last partial parse that was not had no calls to
return. -/
def CallsSettled (state : ParseState common) (chunks : List Bytes) : Prop :=
  ∀ final, common.chatParse chunks.flatten false state = .ok final → final.empty →
    ∀ last ∈ (partialParses state [] chunks).getLast?,
      last.toolCalls = [] ∨ ∃ call ∈ last.toolCalls, ¬ isComplete common call

/-- There is nothing to deliver without calls or with an incomplete one. -/
theorem deliverable_eq_nil_iff {calls : List CommonChatToolCall} :
    deliverable common calls = [] ↔ calls = [] ∨ ∃ call ∈ calls, ¬ isComplete common call := by
  rw [deliverable]
  split
  · rename_i complete
    rw [List.all_eq_true] at complete
    rw [List.map_eq_nil_iff]
    refine ⟨.inl, fun either => either.resolve_right ?_⟩
    rintro ⟨call, member, incomplete⟩
    exact incomplete (complete call member)
  · rename_i incomplete
    rw [List.all_eq_true] at incomplete
    exact iff_of_true rfl (.inr (by simpa using incomplete))

/-- What the parsed calls are in front of `finish`. -/
theorem atEnd_deliverable {state : ParseState common} {rng : common.Rng} {chunks : List Bytes} :
    deliverable common (atEnd state rng chunks).parsed.toolCalls =
      deliverable common
        (((partialParses state [] chunks).getLast?.map CommonChatMsg.toolCalls).getD []) :=
  deliverable_congr (receiveAll_calls _)

/-- One way of cutting an output has its calls from the final parse exactly when they are
settled. -/
theorem finalCalls_eq_expectedCalls_iff {state : ParseState common}
    (standard : ThrowsStandard common state) (rng : common.Rng) (chunks : List Bytes) :
    finalCalls state rng chunks = some (expectedCalls state chunks.flatten) ↔
      CallsSettled state chunks := by
  obtain ⟨shown, _, returns⟩ := run_eq standard rng chunks
  have calls : ∀ last after, finish (atEnd state rng chunks) = (.ok last, after) →
      finalCalls state rng chunks = some (last.toolCalls.map ToolCall.bare) := by
    intro last after finished
    rw [finalCalls, returns last after finished]
  have settledUnlessEmpty : ∀ {final : CommonChatMsg}, ¬ final.empty →
      common.chatParse chunks.flatten false state = .ok final → CallsSettled state chunks := by
    intro final full parse other same empty
    rw [parse] at same
    cases same
    exact absurd empty full
  have cases := finish_cases (atEnd state rng chunks)
  rw [atEnd_accumulated, atEnd_state] at cases
  obtain ⟨parse, _⟩ | ⟨what, parse, ran⟩ | ⟨final, parse, empty, ran⟩ | ⟨final, parse, full, ran⟩ :=
    cases
  · exact absurd parse (standard _ _)
  · rw [calls _ _ ran, expectedCalls, parse]
    refine iff_of_true rfl fun final same => ?_
    rw [parse] at same
    cases same
  · have none := CommonChatMsg.toolCalls_of_empty empty
    have expected : expectedCalls state chunks.flatten = [] := by
      rw [expectedCalls, parse]
      exact deliverable_eq_nil_iff.mpr (.inl none)
    rw [calls _ _ ran, expected, Option.some.injEq, delivered_bare, atEnd_deliverable]
    constructor
    · intro nothing other _ _ last isLast
      rw [Option.mem_def.mp isLast] at nothing
      exact deliverable_eq_nil_iff.mp nothing
    · intro settled
      cases isLast : (partialParses state [] chunks).getLast? with
      | none => exact deliverable_eq_nil_iff.mpr (.inl rfl)
      | some last => exact deliverable_eq_nil_iff.mpr (settled final parse empty last isLast)
  · refine iff_of_true ?_ (settledUnlessEmpty full parse)
    rw [calls _ _ ran, expectedCalls, parse, delivered_bare]
    exact congrArg some (deliverable_congr receive_calls)

/-- Two ways of cutting an output both return the calls of the final parse, and so the
same ones, exactly when the calls of both are settled. -/
theorem finalCalls_agree_iff {state : ParseState common} (standard : ThrowsStandard common state)
    {text : Bytes} {first second : List Bytes} (cutFirst : first.flatten = text)
    (cutSecond : second.flatten = text) (rngFirst rngSecond : common.Rng) :
    (finalCalls state rngFirst first = finalCalls state rngSecond second ∧
      finalCalls state rngFirst first = some (expectedCalls state text)) ↔
      CallsSettled state first ∧ CallsSettled state second := by
  have one := finalCalls_eq_expectedCalls_iff standard rngFirst first
  have two := finalCalls_eq_expectedCalls_iff standard rngSecond second
  rw [cutFirst] at one
  rw [cutSecond] at two
  rw [← one, ← two]
  constructor
  · rintro ⟨same, expected⟩
    exact ⟨expected, same ▸ expected⟩
  · rintro ⟨expectedFirst, expectedSecond⟩
    exact ⟨expectedFirst.trans expectedSecond.symm, expectedFirst⟩

/-- A parser which sees a call of `f` in the text `a` and nothing in any other text. -/
def provisional (text : Bytes) (_isPartial : Bool) : Except Foreign CommonChatMsg :=
  .ok { toolCalls := if text = [0x61] then [{ name := [0x66], arguments := [] }] else [] }

/-- The call that only the partial parse of `a` saw is returned for `a`, `b` and not for
`ab`. -/
theorem finalCalls_stale :
    finalCalls (Common.parsingState (fun _ => true) provisional) () [[0x61], [0x62]] =
        some [([0x66], [0x7B, 0x7D])] ∧
      finalCalls (Common.parsingState (fun _ => true) provisional) () [[0x61, 0x62]] = some [] ∧
      expectedCalls (Common.parsingState (fun _ => true) provisional) [0x61, 0x62] = [] := by
  refine ⟨?_, ?_, ?_⟩ <;> decide

/-- A parser which sees a call of `f` from the first character on, and the end of its
arguments with the third. -/
def growing (text : Bytes) (_isPartial : Bool) : Except Foreign CommonChatMsg :=
  let arguments := [0x7B, 0x20, 0x7D].take text.length
  .ok { toolCalls := if text = [] then [] else [{ name := [0x66], arguments := arguments }] }

/-- The call is returned whether its text comes in characters or with one cut. -/
theorem finalCalls_agree_growing :
    let state := Common.parsingState (fun text => text = [0x7B, 0x20, 0x7D]) growing
    finalCalls state () [[0x61], [0x62], [0x63]] = finalCalls state () [[0x61, 0x62], [0x63]] ∧
      finalCalls state () [[0x61], [0x62], [0x63]] = some (expectedCalls state [0x61, 0x62, 0x63]) ∧
      expectedCalls state [0x61, 0x62, 0x63] = [([0x66], [0x7B, 0x20, 0x7D])] := by
  intro state
  have standard : ThrowsStandard _ state := fun _ _ threw => by cases threw
  have settled : ∀ chunks : List Bytes, chunks.flatten = [0x61, 0x62, 0x63] →
      CallsSettled state chunks := by
    intro chunks cut final parse empty
    rw [cut] at parse
    cases parse
    simp [CommonChatMsg.empty] at empty
  have cut : ([[0x61], [0x62], [0x63]] : List Bytes).flatten = [0x61, 0x62, 0x63] := rfl
  have cutElsewhere : ([[0x61, 0x62], [0x63]] : List Bytes).flatten = [0x61, 0x62, 0x63] := rfl
  obtain ⟨same, expected⟩ := (finalCalls_agree_iff standard cut cutElsewhere () ()).mpr
    ⟨settled _ cut, settled _ cutElsewhere⟩
  exact ⟨same, expected, by decide⟩

end Stream

end Llamad
