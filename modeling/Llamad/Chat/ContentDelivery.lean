import Llamad.Chat.Stream

/-!
# Chat content does not depend on chunking

What a stream has emitted is a front part of the content of the final parse as long as
every partial parse shows no more than that. The final parse then adds exactly the
rest, however the output was cut.
-/

namespace Llamad

open Logical Semantics Program

variable {common : Common}

/-- What becomes visible is all of the content that was not emitted before. -/
theorem append_newlyVisible {emitted content : Bytes} (extended : emitted <+: content) :
    emitted ++ newlyVisible emitted content = content := by
  obtain ⟨rest, rfl⟩ := extended
  by_cases nothing : rest = []
  · simp [newlyVisible, nothing]
  · have longer : emitted.length < (emitted ++ rest).length := by
      have := List.length_pos_of_ne_nil nothing
      simp only [List.length_append]
      omega
    rw [newlyVisible, if_pos ⟨longer, by simp⟩, List.drop_left]

/-- What becomes visible adds nothing or completes the content. -/
theorem append_newlyVisible_eq_or (emitted content : Bytes) :
    emitted ++ newlyVisible emitted content = emitted ∨
      emitted ++ newlyVisible emitted content = content := by
  by_cases extended : emitted <+: content
  · exact .inr (append_newlyVisible extended)
  · have unextended : ¬ (emitted.length < content.length ∧
        content.take emitted.length = emitted) :=
      fun both => extended (List.prefix_iff_eq_take.mpr both.2.symm)
    rw [newlyVisible, if_neg unextended, List.append_nil]
    exact .inl rfl

/-- What becomes visible extends what was emitted inside the content. -/
theorem newlyVisible_within {emitted content whole : Bytes} (emittedBefore : emitted <+: whole)
    (shows : content <+: whole) : emitted ++ newlyVisible emitted content <+: whole := by
  by_cases longer : emitted.length < content.length
  · have extended : emitted <+: content :=
      List.prefix_of_prefix_length_le emittedBefore shows longer.le
    rwa [append_newlyVisible extended]
  · rw [newlyVisible, if_neg fun both => longer both.1, List.append_nil]
    exact emittedBefore

namespace Stream

/-- Parses that show no more than `content` emit no more than that. -/
theorem receiveAll_emitted_within {content : Bytes} {messages : List CommonChatMsg}
    (shows : ∀ next ∈ messages, next.content <+: content) {stream : Stream common}
    (emittedBefore : stream.emitted <+: content) :
    (stream.receiveAll messages).emitted <+: content := by
  induction messages generalizing stream with
  | nil => exact emittedBefore
  | cons next messages inductionHypothesis =>
      rw [List.forall_mem_cons] at shows
      exact inductionHypothesis shows.2 (newlyVisible_within emittedBefore shows.1)

/-- A final parse whose content extends what was emitted shows exactly the rest. -/
theorem finish_content {stream : Stream common} {final : CommonChatMsg}
    (parses : common.chatParse stream.accumulated false stream.state = .ok final)
    (emittedBefore : stream.emitted <+: final.content) :
    ∃ last after, finish stream = (.ok last, after) ∧
      stream.emitted ++ last.contentTail = final.content := by
  obtain ⟨empty, ran⟩ | ⟨_, ran⟩ := finish_of_parses parses
  · have nothing := CommonChatMsg.content_of_empty empty
    rw [nothing, List.prefix_nil] at emittedBefore
    exact ⟨_, _, ran, by simp [emittedBefore, nothing]⟩
  · exact ⟨_, _, ran, append_newlyVisible emittedBefore⟩

/-- However an output is cut, what the pushes return followed by the content tail is the
content of one final parse of the whole. -/
theorem run_content {state : ParseState common} (standard : ThrowsStandard common state)
    {text : Bytes} {final : CommonChatMsg}
    (parses : common.chatParse text false state = .ok final)
    (refined : ∀ front next, front <+: text → common.chatParse front true state = .ok next →
      next.content <+: final.content)
    (rng : common.Rng) (chunks : List Bytes) (cut : chunks.flatten = text) :
    ∃ shown last after, run chunks (fresh state rng) = (.ok (shown, last), after) ∧
      shown.flatten ++ last.contentTail = final.content := by
  obtain ⟨shown, emitted, returns⟩ := run_eq standard rng chunks
  have within : ∀ next ∈ partialParses state [] chunks, next.content <+: final.content := by
    intro next member
    obtain ⟨front, prefixed, parse⟩ := mem_partialParses member
    rw [List.nil_append, cut] at prefixed
    exact refined front next prefixed parse
  have emittedBefore : (atEnd state rng chunks).emitted <+: final.content :=
    receiveAll_emitted_within within List.nil_prefix
  have wholeParse : common.chatParse (atEnd state rng chunks).accumulated false
      (atEnd state rng chunks).state = .ok final := by
    rw [atEnd_accumulated, atEnd_state, cut, parses]
  obtain ⟨last, after, finished, content⟩ := finish_content wholeParse emittedBefore
  exact ⟨shown, last, after, returns last after finished, emitted ▸ content⟩

/-- A parser whose content ends at the first `<` and which refuses to classify a single
byte. -/
def beforeMarkup (text : Bytes) (isPartial : Bool) : Except Foreign CommonChatMsg :=
  if isPartial ∧ text.length = 1 then .error (.standard (literal "not enough input"))
  else .ok { content := text.takeWhile (· ≠ 0x3C) }

/-- `Hi<b` in four pieces, one of them empty. -/
theorem run_content_markup :
    ∃ shown last after,
      run [[0x48], [], [0x69, 0x3C], [0x62]]
          (fresh (Common.parsingState (fun _ => true) beforeMarkup) ()) =
        (.ok (shown, last), after) ∧ shown.flatten ++ last.contentTail = [0x48, 0x69] := by
  refine @run_content _ (Common.parsingState (fun _ => true) beforeMarkup) ?_
    [0x48, 0x69, 0x3C, 0x62] { content := [0x48, 0x69] } rfl ?_ () _ rfl
  · intro text isPartial
    change beforeMarkup text isPartial ≠ _
    rw [beforeMarkup]
    split <;> exact nofun
  · rintro front next ⟨rest, same⟩ parse
    change beforeMarkup front true = .ok next at parse
    rw [beforeMarkup] at parse
    split at parse
    · cases parse
    · cases parse
      change front.takeWhile _ <+: [(0x48 : UInt8), 0x69, 0x3C, 0x62].takeWhile (· ≠ 0x3C)
      rw [← show front ++ rest = [0x48, 0x69, 0x3C, 0x62] from same, List.takeWhile_append]
      split
      · rename_i whole
        exact (List.takeWhile_prefix _).trans (List.prefix_append _ _)
      · exact List.prefix_rfl

end Stream

end Llamad
