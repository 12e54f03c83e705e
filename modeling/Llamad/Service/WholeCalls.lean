import Llamad.Chat.FinalCalls
import Llamad.Grammar.Json
import Llamad.Service.Wire
import Mathlib.Data.List.TakeWhile

/-!
# Calls that were cut off

`finish` takes a call for complete when its arguments are a JSON text or empty. A call
cut inside its arguments is told apart, because a front part of an object is no JSON
text; a call cut in its name, or right behind it, has empty arguments and is not.
-/

namespace Llamad

open Logical Semantics Program Grammar

variable {common : Common} (inRange : Bytes → Prop)

/-- What nlohmann::json reads of a text: a byte order mark is skipped and a zero byte ends
the input. -/
def readable (text : Bytes) : Bytes :=
  (if text.take 3 = [0xEF, 0xBB, 0xBF] then text.drop 3 else text).takeWhile (· ≠ 0)

/-- `accept` is the test for a JSON text with numbers in range. -/
def ReadsJson (accept : Bytes → Bool) : Prop :=
  ∀ text, accept text = true ↔ Json.Text inRange (readable text)

/-- A call as a model writes it: a name, and an object unless it takes no arguments. -/
def CommonChatToolCall.Whole (call : CommonChatToolCall) : Prop :=
  call.name ≠ [] ∧ (call.arguments = [] ∨ Json.Object inRange call.arguments)

/-- How a parser reports a call whose markup was cut. -/
inductive CutTo (written : CommonChatToolCall) : CommonChatToolCall → Prop where
  | inName {id front : Bytes} (part : front <+: written.name) (nonempty : front ≠ [])
      (proper : front ≠ written.name) : CutTo written ⟨id, front, []⟩
  | inArguments {id front : Bytes} (object : Json.Object inRange written.arguments)
      (part : front <+: written.arguments) (proper : front ≠ written.arguments) :
      CutTo written ⟨id, written.name, front⟩

section Accept

variable {inRange} {accept : Bytes → Bool} (reads : ReadsJson inRange accept)

/-- A front part of an object has neither a byte order mark nor a zero byte. -/
theorem readable_front {text front : Bytes} (object : Json.Object inRange text)
    (part : front <+: text) : readable front = front := by
  have nonzero : ∀ byte ∈ front, byte ≠ 0 := by
    rintro byte member rfl
    exact object.text.nested.nonzero (part.subset member)
  have unmarked : front.take 3 ≠ [0xEF, 0xBB, 0xBF] := by
    obtain ⟨inner, rfl, _⟩ := object
    obtain ⟨rest, same⟩ := part
    cases front with
    | nil => exact nofun
    | cons byte front =>
        obtain ⟨rfl, _⟩ := List.cons.inj same
        simp
  rw [readable, if_neg unmarked, List.takeWhile_eq_self_iff]
  exact fun byte member => decide_eq_true (nonzero byte member)

include reads

theorem accept_object {text : Bytes} (object : Json.Object inRange text) : accept text = true := by
  rw [reads, readable_front object List.prefix_rfl]
  exact object.text

/-- The reader tells an object from everything in front of its last byte. -/
theorem not_accept_front {text front : Bytes} (object : Json.Object inRange text)
    (part : front <+: text) (nonempty : front ≠ []) (proper : front ≠ text) :
    accept front = false := by
  rw [← Bool.not_eq_true, reads, readable_front object part]
  exact object.prefix_not_text part nonempty proper

end Accept

section Completeness

variable {inRange} (reads : ReadsJson inRange common.accept) {call written : CommonChatToolCall}
include reads

theorem isComplete_of_whole (whole : call.Whole inRange) : isComplete common call = true := by
  obtain ⟨named, none | object⟩ := whole
  · simp [isComplete, named, none]
  · simp [isComplete, named, accept_object reads object]

/-- A call that was cut passes for complete exactly when nothing is left of its
arguments. -/
theorem isComplete_cut_iff (named : written.name ≠ []) (cut : CutTo inRange written call) :
    isComplete common call = true ↔ call.arguments = [] := by
  cases cut with
  | inName part nonempty proper => simp [isComplete, nonempty]
  | @inArguments id front object part proper =>
      by_cases nothing : front = []
      · simp [isComplete, named, nothing]
      · simp [isComplete, named, nothing, not_accept_front reads object part nothing proper]

end Completeness

namespace Stream

variable {inRange}

/-- What `finish` returns after a final parse with calls. -/
theorem finish_calls {stream : Stream common} {final : CommonChatMsg}
    (parses : common.chatParse stream.accumulated false stream.state = .ok final)
    (called : final.toolCalls ≠ []) :
    ∃ last after, finish stream = (.ok last, after) ∧
      last.toolCalls.map ToolCall.bare = deliverable common final.toolCalls := by
  obtain ⟨empty, _⟩ | ⟨_, ran⟩ := finish_of_parses parses
  · exact absurd (CommonChatMsg.toolCalls_of_empty empty) called
  · refine ⟨_, _, ran, ?_⟩
    rw [delivered_bare]
    exact deliverable_congr receive_calls

/-- No calls are returned, and no finish can say that there were any. -/
def Final.Withheld (last : Final) : Prop :=
  last.toolCalls = [] ∧ ∀ reason counts finish,
    Wire.finishChunk reason counts last.toolCalls = .finish finish → finish.reason ≠ .toolCalls

theorem Final.withheld_iff {last : Final} : last.Withheld ↔ last.toolCalls = [] := by
  refine ⟨And.left, fun none => ⟨none, ?_⟩⟩
  intro reason counts finish same called
  obtain ⟨other, isOther, _, completed⟩ := Wire.finishChunk_consistent reason counts last.toolCalls
  rw [same] at isOther
  cases isOther
  exact (completed called).1 none

/-- Whatever was pushed before: when the last call of the final parse is a cut one, the
calls are withheld exactly if the cut left something of its arguments; when no call is
cut, all are returned in order. -/
theorem finish_cut_iff (reads : ReadsJson inRange common.accept) {stream : Stream common}
    {final : CommonChatMsg}
    (parses : common.chatParse stream.accumulated false stream.state = .ok final)
    (called : final.toolCalls ≠ []) :
    ∃ last after, finish stream = (.ok last, after) ∧
      (∀ earlier written reported, (∀ call ∈ earlier ++ [written], call.Whole inRange) →
        CutTo inRange written reported → final.toolCalls = earlier ++ [reported] →
        (last.Withheld ↔ reported.arguments ≠ [])) ∧
      ((∀ call ∈ final.toolCalls, call.Whole inRange) → last.toolCalls.map ToolCall.bare =
        final.toolCalls.map fun call => (fromCommon call).bare) := by
  obtain ⟨last, after, ran, delivers⟩ := finish_calls parses called
  refine ⟨last, after, ran, ?_, ?_⟩
  · intro earlier written reported whole cut reports
    have named : written.name ≠ [] := (whole written (by simp)).1
    have earlierComplete : ∀ call ∈ earlier, isComplete common call = true :=
      fun call member => isComplete_of_whole reads (whole call (by simp [member]))
    have incomplete : (∃ call ∈ final.toolCalls, ¬ isComplete common call = true) ↔
        ¬ isComplete common reported = true := by
      rw [reports]
      constructor
      · rintro ⟨call, member, unfinished⟩
        rw [List.mem_append, List.mem_singleton] at member
        obtain member | rfl := member
        · exact absurd (earlierComplete call member) unfinished
        · exact unfinished
      · exact fun unfinished => ⟨reported, by simp, unfinished⟩
    rw [Final.withheld_iff, ← List.map_eq_nil_iff (f := ToolCall.bare), delivers,
      deliverable_eq_nil_iff, incomplete, isComplete_cut_iff reads named cut]
    exact or_iff_right called
  · intro whole
    rw [delivers, deliverable, if_pos]
    rw [List.all_eq_true]
    exact fun call member => isComplete_of_whole reads (whole call member)

/-- A parser of outputs that are a name without arguments. -/
def nameOnly (text : Bytes) (_isPartial : Bool) : Except Foreign CommonChatMsg :=
  .ok { toolCalls := [{ name := text, arguments := [] }] }

/-- A call of `go` with `{}` cut in its name is returned as a call of `g` with `{}`, and
the finish of a generation that ended on its own says so. -/
theorem finish_cut_name :
    CutTo (fun _ => True) ⟨[], [0x67, 0x6F], [0x7B, 0x7D]⟩ ⟨[], [0x67], []⟩ ∧
      nameOnly [0x67] false = .ok { toolCalls := [⟨[], [0x67], []⟩] } ∧
      finalCalls (Common.parsingState (fun text => text = [0x7B, 0x7D]) nameOnly) () [[0x67]] =
        some [([0x67], [0x7B, 0x7D])] ∧
      Wire.finishChunk .eog {} [⟨[], [0x67], [0x7B, 0x7D]⟩] =
        .finish ⟨.toolCalls, {}, [⟨[], [0x67], [0x7B, 0x7D]⟩]⟩ := by
  refine ⟨.inName ⟨[0x6F], rfl⟩ ?_ ?_, ?_, ?_, ?_⟩ <;> decide

/-- A parser of outputs that are the arguments of a call of `f`. -/
def argumentsOnly (text : Bytes) (_isPartial : Bool) : Except Foreign CommonChatMsg :=
  .ok { toolCalls := [{ name := [0x66], arguments := text }] }

open Classical in
/-- The test for a JSON text with any numbers. -/
noncomputable def acceptJson (text : Bytes) : Bool :=
  decide (Json.Text (fun _ => True) (readable text))

/-- A call of `f` with `{}` cut behind the brace is withheld. -/
theorem finish_cut_brace :
    ∃ last after,
      finish ((fresh (Common.parsingState acceptJson argumentsOnly) ()).grow [0x7B]) =
        (.ok last, after) ∧ last.Withheld := by
  have reads : ReadsJson (fun _ => True)
      (Common.parsing acceptJson argumentsOnly).accept :=
    fun text => @decide_eq_true_iff _ (Classical.propDecidable _)
  have object : Json.Object (fun _ => True) [0x7B, 0x7D] := .empty _
  let stream := (fresh (Common.parsingState acceptJson argumentsOnly) ()).grow [0x7B]
  have parses : (Common.parsing acceptJson argumentsOnly).chatParse stream.accumulated false
      stream.state = .ok { toolCalls := [⟨[], [0x66], [0x7B]⟩] } := rfl
  obtain ⟨last, after, ran, withheld, _⟩ := finish_cut_iff reads parses (by simp)
  refine ⟨last, after, ran, ?_⟩
  refine (withheld [] ⟨[], [0x66], [0x7B, 0x7D]⟩ ⟨[], [0x66], [0x7B]⟩ ?_ ?_ rfl).mpr (by simp)
  · simp [CommonChatToolCall.Whole, object]
  · exact .inArguments object ⟨[0x7D], rfl⟩ (by decide)

end Stream

end Llamad
