import Llamad.Service.WholeCalls

/-!
# The arguments of a delivered call

`finish` delivers the calls of the final parse when each has a name and arguments that are
empty or some JSON text. Nothing asks that text to be an object, so a call whose arguments
are a number, a string, an array or a literal is delivered as it is.
-/

namespace Llamad

open Logical Semantics Program Grammar

variable {common : Common} (inRange : Bytes → Prop)

/-- A call with a name whose arguments are one JSON object. -/
def ToolCall.TakesObject (call : ToolCall) : Prop :=
  call.name ≠ [] ∧ Json.ObjectText inRange call.argumentsJson

variable (common) in
/-- The arguments pass for complete without being an object. -/
def CommonChatToolCall.Misfit (call : CommonChatToolCall) : Prop :=
  call.arguments ≠ [] ∧ common.accept call.arguments = true ∧
    ¬ Json.ObjectText inRange call.arguments

/-- A complete call is delivered with an object unless its arguments are a misfit. -/
theorem fromCommon_takesObject_iff {call : CommonChatToolCall}
    (complete : isComplete common call = true) :
    (fromCommon call).TakesObject inRange ↔ ¬ call.Misfit common inRange := by
  rw [isComplete, Bool.and_eq_true, Bool.or_eq_true, Bool.not_eq_true'] at complete
  have named : call.name ≠ [] := by simpa using complete.1
  by_cases none : call.arguments = []
  · have spelled : (fromCommon call).argumentsJson = [0x7B, 0x7D] := by
      simp only [fromCommon, none, List.isEmpty_nil, if_true]
      decide
    have takes : (fromCommon call).TakesObject inRange :=
      ⟨named, spelled ▸ (Json.Object.empty inRange).objectText⟩
    exact iff_of_true takes fun misfit => misfit.1 none
  · have accepted : common.accept call.arguments = true := by simpa [none] using complete.2
    have spelled : (fromCommon call).argumentsJson = call.arguments := by
      simp [fromCommon, none]
    rw [ToolCall.TakesObject, spelled]
    constructor
    · exact fun takes misfit => misfit.2.2 takes.2
    · exact fun fits => ⟨named, by_contra fun other => fits ⟨none, accepted, other⟩⟩

namespace Stream

/-- Every call returned, and so every call on a finish, has a name and an object. -/
def Final.TakesObjects (last : Final) : Prop :=
  (∀ call ∈ last.toolCalls, call.TakesObject inRange) ∧
    ∀ reason counts finish, Wire.finishChunk reason counts last.toolCalls = .finish finish →
      ∀ call ∈ finish.toolCalls, call.name ≠ [] ∧ Json.ObjectText inRange call.argumentsJson

variable {inRange}

theorem Final.takesObjects_iff {last : Final} :
    last.TakesObjects inRange ↔ ∀ call ∈ last.toolCalls, call.TakesObject inRange := by
  refine ⟨And.left, fun takes => ⟨takes, ?_⟩⟩
  rintro reason counts _ ⟨⟩ call member
  obtain ⟨source, sent, rfl⟩ := List.mem_map.mp member
  split at sent
  · exact takes source sent
  · cases sent

/-- What is delivered of some calls has objects unless all are complete and one is a
misfit. -/
theorem delivered_takesObject_iff {stream : Stream common} :
    (∀ call ∈ stream.delivered, call.TakesObject inRange) ↔
      (∃ call ∈ stream.parsed.toolCalls, ¬ isComplete common call = true) ∨
        ∀ call ∈ stream.parsed.toolCalls, ¬ call.Misfit common inRange := by
  rw [delivered]
  split
  · rename_i all
    rw [List.all_eq_true] at all
    have none : ¬ ∃ call ∈ stream.parsed.toolCalls, ¬ isComplete common call = true := by
      rintro ⟨call, member, incomplete⟩
      exact incomplete (all call member)
    rw [or_iff_right none, List.forall_mem_map]
    exact forall₂_congr fun call member => fromCommon_takesObject_iff inRange (all call member)
  · rename_i some
    rw [List.all_eq_true] at some
    exact iff_of_true (List.forall_mem_nil _) (.inl (by simpa using some))

/-- Whether a call is a misfit does not depend on its id. -/
theorem misfit_congr {calls others : List CommonChatToolCall}
    (same : calls.map CommonChatToolCall.bare = others.map CommonChatToolCall.bare) :
    ((∃ call ∈ calls, ¬ isComplete common call = true) ∨
        ∀ call ∈ calls, ¬ call.Misfit common inRange) ↔
      (∃ call ∈ others, ¬ isComplete common call = true) ∨
        ∀ call ∈ others, ¬ call.Misfit common inRange := by
  let complete (bare : Bytes × Bytes) : Prop :=
    isComplete common ⟨[], bare.1, bare.2⟩ = true
  let misfit (bare : Bytes × Bytes) : Prop :=
    (⟨[], bare.1, bare.2⟩ : CommonChatToolCall).Misfit common inRange
  have bared : ∀ calls : List CommonChatToolCall,
      ((∃ call ∈ calls, ¬ isComplete common call = true) ∨
          ∀ call ∈ calls, ¬ call.Misfit common inRange) ↔
        (∃ bare ∈ calls.map CommonChatToolCall.bare, ¬ complete bare) ∨
          ∀ bare ∈ calls.map CommonChatToolCall.bare, ¬ misfit bare := by
    intro calls
    simp only [List.mem_map, exists_exists_and_eq_and, forall_exists_index, and_imp,
      forall_apply_eq_imp_iff₂]
    exact Iff.rfl
  rw [bared, bared, same]

/-- The calls `finish` looks at: those of the final parse, or of the last parse that was not
empty when the final one is. -/
def heldCalls (stream : Stream common) (final : CommonChatMsg) : List CommonChatToolCall :=
  if final.empty then stream.parsed.toolCalls else final.toolCalls

/-- Whatever the final parse reports: every call returned has a name and one JSON object
exactly when one of the calls is incomplete, so that none is returned, or none has other
JSON for its arguments. -/
theorem finish_takesObjects_iff {stream : Stream common} {final : CommonChatMsg}
    (parses : common.chatParse stream.accumulated false stream.state = .ok final) :
    ∃ last after, finish stream = (.ok last, after) ∧
      (last.TakesObjects inRange ↔
        (∃ call ∈ stream.heldCalls final, ¬ isComplete common call = true) ∨
          ∀ call ∈ stream.heldCalls final, ¬ call.Misfit common inRange) := by
  obtain ⟨empty, ran⟩ | ⟨full, ran⟩ := finish_of_parses parses
  · refine ⟨_, _, ran, ?_⟩
    rw [Final.takesObjects_iff, heldCalls, if_pos empty]
    exact delivered_takesObject_iff
  · refine ⟨_, _, ran, ?_⟩
    rw [Final.takesObjects_iff, heldCalls, if_neg full]
    exact delivered_takesObject_iff.trans (misfit_congr receive_calls)

/-- A tool whose schema asks for nothing. -/
def anyArguments : Tool where
  name := [0x66]
  description := []
  parametersJsonSchema := [0x7B, 0x7D]

/-- A format over a parser whose output is the arguments of a call of `f`. -/
def argumentsFormat : ChatFormat (Common.parsing acceptJson argumentsOnly) where
  templates := ()
  parallelToolCalls := false

theorem acceptJson_of_text {text : Bytes} (isText : Json.Text (fun _ => True) (readable text)) :
    acceptJson text = true :=
  @decide_eq_true _ (Classical.propDecidable _) isText

/-- The digit `5` is a JSON text. -/
theorem text_five : Json.Text (fun _ => True) [0x35] := by
  have digits : Json.Digits [0x35] := ⟨by simp, by simp [Json.isDigit]⟩
  have number : Json.Number [0x35] :=
    .mk (.inl rfl) (.inr ⟨digits, by simp⟩) (.inl rfl) (.inl rfl)
  exact ⟨[], [0x35], [], rfl, by simp [Json.Whitespace], .number number trivial,
    by simp [Json.Whitespace]⟩

/-- A request with a tool that asks for nothing is rendered, and the output `5` is delivered
as a call of `f` with `5` for its arguments. -/
theorem finish_delivers_five :
    ∃ rendered stream shown last after,
      argumentsFormat.render [] [anyArguments] [] = .ok rendered ∧
      ChatFormat.stream rendered () = .ok stream ∧
      run [[0x35]] stream = (.ok (shown, last), after) ∧
      last.toolCalls.map ToolCall.bare = [([0x66], [0x35])] ∧
      ¬ last.TakesObjects (fun _ => True) := by
  have schema : acceptJson [0x7B, 0x7D] = true :=
    acceptJson_of_text (Json.Object.empty _).text
  have complete : isComplete (Common.parsing acceptJson argumentsOnly)
      { name := [0x66], arguments := [0x35] } = true := by
    have accepted : acceptJson [0x35] = true := acceptJson_of_text text_five
    simpa [isComplete, Common.parsing] using accepted
  have tools : [anyArguments].mapM (Tool.toCommon (Common.parsing acceptJson argumentsOnly)) =
      .ok [{ name := [0x66], description := [], parameters := [0x7B, 0x7D] }] := by
    simp only [List.mapM_cons, List.mapM_nil, Tool.toCommon, anyArguments, Common.parsing, schema]
    rfl
  have rendered : ∃ rendered, argumentsFormat.render [] [anyArguments] [] = .ok rendered ∧
      rendered.parseState = some (Common.parsingState acceptJson argumentsOnly) := by
    simp only [ChatFormat.render, ChatFormat.checkSchema, tools]
    exact ⟨_, rfl, rfl⟩
  obtain ⟨rendered, renders, state⟩ := rendered
  let started := fresh (Common.parsingState acceptJson argumentsOnly) ()
  have standard : ThrowsStandard (Common.parsing acceptJson argumentsOnly)
      (Common.parsingState acceptJson argumentsOnly) := by
    rintro _ _ ⟨⟩
  obtain ⟨shown, _, returns⟩ := run_eq standard () [[0x35]]
  have parses : ∀ rng, (Common.parsing acceptJson argumentsOnly).chatParse
      (atEnd (Common.parsingState acceptJson argumentsOnly) rng [[0x35]]).accumulated false
      (atEnd (Common.parsingState acceptJson argumentsOnly) rng [[0x35]]).state =
        .ok { toolCalls := [{ name := [0x66], arguments := [0x35] }] } := by
    intro rng
    rw [atEnd_accumulated]
    rfl
  obtain ⟨last, after, finished, delivers⟩ := finish_calls (parses ()) (by simp)
  have delivered : last.toolCalls.map ToolCall.bare = [([0x66], [0x35])] := by
    rw [delivers, deliverable, if_pos (by simpa using complete)]
    rfl
  refine ⟨rendered, started, shown, last, after, renders, ?_, returns last after finished,
    delivered, fun takes => ?_⟩
  · simp only [ChatFormat.stream, state]
    rfl
  · have here : ([0x66], [0x35]) ∈ last.toolCalls.map ToolCall.bare := by
      rw [delivered]
      exact List.mem_singleton_self _
    obtain ⟨call, member, same⟩ := List.mem_map.mp here
    have brace := (takes.1 call member).2.brace_mem
    rw [show call.argumentsJson = [0x35] from congrArg Prod.snd same] at brace
    simp at brace

/-- The output `{}` is delivered as a call of `f` with an object. -/
theorem finish_takesObjects_braces :
    ∃ last after,
      finish ((fresh (Common.parsingState acceptJson argumentsOnly) ()).grow [0x7B, 0x7D]) =
        (.ok last, after) ∧ last.TakesObjects (fun _ => True) := by
  let stream := (fresh (Common.parsingState acceptJson argumentsOnly) ()).grow [0x7B, 0x7D]
  have parses : (Common.parsing acceptJson argumentsOnly).chatParse stream.accumulated false
      stream.state = .ok { toolCalls := [⟨[], [0x66], [0x7B, 0x7D]⟩] } := rfl
  obtain ⟨last, after, ran, takes⟩ := finish_takesObjects_iff parses
  refine ⟨last, after, ran, takes.mpr (.inr ?_)⟩
  rintro call member ⟨_, _, other⟩
  rw [List.mem_singleton.mp member] at other
  exact other (Json.Object.empty _).objectText

end Stream

end Llamad
