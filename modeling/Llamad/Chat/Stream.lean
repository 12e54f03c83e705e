import Llamad.Chat.Format
import Llamad.Logical.Occurrence

/-!
# The output stream of a chat

`Stream` reparses everything generated so far at each push and returns the content
that became visible; `finish` makes the final parse. What a parse does to the stream
is specified once (`advance_cases`), and the rest of the development about chat output
uses this specification and the ones of `push` and `finish` built on it.
-/

namespace Llamad

open Logical Semantics Program

variable (common : Common)

/-- The characters of a tool call id. -/
def alnum : Bytes :=
  literal "0123456789ABCDEFGHIJKLMNOPQRSTUVWXYZabcdefghijklmnopqrstuvwxyz"

/-- `count` random characters. -/
def genToolCallId.fill : (count : Nat) → common.Rng → Bytes × common.Rng
  | 0, rng => ([], rng)
  | count + 1, rng =>
      let (index, rng) := common.pick rng
      let (id, rng) := fill count rng
      (alnum.getD index 0 :: id, rng)

/-- 32 random alphanumeric characters. -/
def genToolCallId (rng : common.Rng) : Bytes × common.Rng := genToolCallId.fill common 32 rng

/-- One request's output and which visible bytes of it were delivered. -/
structure Stream where
  state : ParseState common
  /-- Every byte pushed, verbatim. -/
  accumulated : Bytes := []
  /-- Last successful parse. -/
  parsed : CommonChatMsg := {}
  /-- Ids handed out so far, by call index. -/
  callIds : List Bytes := []
  /-- Exactly what `push` has returned so far. -/
  emitted : Bytes := []
  /-- The random numbers of the thread, which draw the ids. -/
  rng : common.Rng

/-- An independent parser for output generated from a rendered prompt. -/
def ChatFormat.stream {common : Common} (rendered : RenderedChat common) (rng : common.Rng) :
    Except Exception (Stream common) :=
  match rendered.parseState with
  | none => .error (.chatFormat .noParserState)
  | some state => .ok { state := state, rng := rng }

variable {common}

/-- The part of `content` behind what was emitted; nothing where it does not extend it. -/
def newlyVisible (emitted content : Bytes) : Bytes :=
  if emitted.length < content.length ∧ content.take emitted.length = emitted then
    content.drop emitted.length
  else []

namespace Stream

/-- Result of reparsing the accumulated output. -/
structure Advance where
  ok : Bool
  delta : Bytes
deriving DecidableEq

/-- Final visible tail and complete calls. -/
structure Final where
  contentTail : Bytes
  toolCalls : List ToolCall := []
deriving DecidableEq

/-- The stream after a parse that was not empty: the calls have their ids, and what the
content adds counts as emitted. -/
def receive (next : CommonChatMsg) (stream : Stream common) : Stream common :=
  let (ids, callIds, rng) :=
    common.setToolCallIds (genToolCallId common) stream.callIds next.toolCalls stream.rng
  { stream with
    parsed := { next with
      toolCalls := next.toolCalls.mapIdx fun index call => { call with id := ids index } }
    callIds := callIds
    emitted := stream.emitted ++ newlyVisible stream.emitted next.content
    rng := rng }

/-- Re-parses `accumulated`; a parse that fails leaves everything as it is. -/
def advance (isPartial : Bool) : Program (Stream common) Exception Advance := do
  let stream ← get
  match common.chatParse stream.accumulated isPartial stream.state with
  | .error (.standard _) => return { ok := false, delta := [] }
  | .error .other => throw (.foreign .other)
  | .ok next =>
      if next.empty then
        return { ok := true, delta := [] }
      else do
        modify (receive next)
        return { ok := true, delta := newlyVisible stream.emitted next.content }

/-- Where the emitted content ends in the raw output. -/
def rawOffsetAfterEmitted (stream : Stream common) : Option Nat :=
  if stream.emitted.isEmpty then some 0
  else (find? stream.emitted stream.accumulated).map (· + stream.emitted.length)

/-- Feed generated text; returns the newly visible content. -/
def push (text : Bytes) : Program (Stream common) Exception Bytes := do
  if text.isEmpty then
    return []
  else
    modify fun stream => { stream with accumulated := stream.accumulated ++ text }
    let advanced ← advance true
    return advanced.delta

/-- Final parse: the content not yet returned, and the calls unless one is incomplete. -/
def finish : Program (Stream common) Exception Final := do
  let advanced ← advance false
  let stream ← get
  if !advanced.ok then
    match stream.rawOffsetAfterEmitted with
    | some offset =>
        if offset < stream.accumulated.length then
          let tail := stream.accumulated.drop offset
          modify fun stream => { stream with emitted := stream.emitted ++ tail }
          return { contentTail := tail }
        else
          return { contentTail := advanced.delta }
    | none => return { contentTail := advanced.delta }
  else if stream.parsed.toolCalls.all (isComplete common) then
    return {
      contentTail := advanced.delta
      toolCalls := stream.parsed.toolCalls.map fromCommon }
  else
    return { contentTail := advanced.delta }

/-- Push texts in order. -/
def pushAll : List Bytes → Program (Stream common) Exception (List Bytes)
  | [] => return []
  | text :: rest => do
      let shown ← push text
      let more ← pushAll rest
      return shown :: more

/-- A whole generation as the stream sees it. -/
def run (chunks : List Bytes) : Program (Stream common) Exception (List Bytes × Final) := do
  let shown ← pushAll chunks
  let final ← finish
  return (shown, final)

end Stream

section Calls

/-- A call without its id. -/
def CommonChatToolCall.bare (call : CommonChatToolCall) : Bytes × Bytes :=
  (call.name, call.arguments)

/-- A call without its id. -/
def ToolCall.bare (call : ToolCall) : Bytes × Bytes := (call.name, call.argumentsJson)

/-- Whether a call is complete does not depend on its id. -/
theorem isComplete_congr {call other : CommonChatToolCall} (same : call.bare = other.bare) :
    isComplete common call = isComplete common other := by
  obtain ⟨names, arguments⟩ := Prod.mk.inj same
  rw [isComplete, isComplete, names, arguments]

theorem fromCommon_congr {call other : CommonChatToolCall} (same : call.bare = other.bare) :
    (fromCommon call).bare = (fromCommon other).bare := by
  obtain ⟨names, arguments⟩ := Prod.mk.inj same
  simp only [fromCommon, ToolCall.bare, names, arguments]

/-- The calls a message delivers, without their ids: all of them, or none when one is
incomplete. -/
def deliverable (common : Common) (calls : List CommonChatToolCall) : List (Bytes × Bytes) :=
  if calls.all (isComplete common) then calls.map fun call => (fromCommon call).bare else []

theorem deliverable_congr {calls others : List CommonChatToolCall}
    (same : calls.map CommonChatToolCall.bare = others.map CommonChatToolCall.bare) :
    deliverable common calls = deliverable common others := by
  have together : ∀ {β : Type} (view : CommonChatToolCall → β),
      (∀ call other, call.bare = other.bare → view call = view other) →
      calls.map view = others.map view := by
    intro β view congruent
    induction calls generalizing others with
    | nil => cases others <;> simp_all
    | cons call calls inductionHypothesis =>
        cases others with
        | nil => simp at same
        | cons other others =>
            rw [List.map_cons, List.map_cons, List.cons.injEq] at same
            rw [List.map_cons, List.map_cons, congruent _ _ same.1, inductionHypothesis same.2]
  have complete := together (isComplete common) fun _ _ => isComplete_congr
  have delivered := together (fun call => (fromCommon call).bare) fun _ _ => fromCommon_congr
  have all : ∀ calls : List CommonChatToolCall,
      calls.all (isComplete common) = (calls.map (isComplete common)).all id := by simp
  rw [deliverable, deliverable, all, all, complete, delivered]

end Calls

namespace Stream

variable {stream : Stream common} {next : CommonChatMsg}

@[simp] theorem receive_calls :
    (stream.receive next).parsed.toolCalls.map CommonChatToolCall.bare =
      next.toolCalls.map CommonChatToolCall.bare := by
  refine List.ext_getElem? fun index => ?_
  simp only [receive, List.getElem?_map, List.getElem?_mapIdx, Option.map_map]
  rfl

/-- The message of a parse that changes the stream. -/
def usable : Except Foreign CommonChatMsg → Option CommonChatMsg
  | .ok next => if next.empty then none else some next
  | .error _ => none

/-- Everything `advance` can do. -/
theorem advance_cases (isPartial : Bool) (stream : Stream common) :
    let parse := common.chatParse stream.accumulated isPartial stream.state
    (parse = .error .other ∧ advance isPartial stream = (.error (.foreign .other), stream)) ∨
    (∃ what, parse = .error (.standard what) ∧
      advance isPartial stream = (.ok ⟨false, []⟩, stream)) ∨
    (∃ next, parse = .ok next ∧ next.empty ∧
      advance isPartial stream = (.ok ⟨true, []⟩, stream)) ∨
    ∃ next, parse = .ok next ∧ ¬ next.empty ∧
      advance isPartial stream =
        (.ok ⟨true, newlyVisible stream.emitted next.content⟩, stream.receive next) := by
  cases parsed : common.chatParse stream.accumulated isPartial stream.state with
  | error error =>
      cases error with
      | other => exact .inl ⟨rfl, by simp only [advance, bind_apply, get_apply, parsed, throw_apply]⟩
      | standard what =>
          refine .inr (.inl ⟨what, rfl, ?_⟩)
          simp only [advance, bind_apply, get_apply, parsed, pure_apply]
  | ok next =>
      by_cases empty : next.empty
      · refine .inr (.inr (.inl ⟨next, rfl, empty, ?_⟩))
        simp only [advance, bind_apply, get_apply, parsed, empty, if_true, pure_apply]
      · refine .inr (.inr (.inr ⟨next, rfl, empty, ?_⟩))
        simp only [advance, bind_apply, get_apply, parsed, empty, Bool.false_eq_true, if_false,
          modify_apply, pure_apply]

variable (common) in
/-- The parser fails with a `std::exception` if it fails. -/
def ThrowsStandard (state : ParseState common) : Prop :=
  ∀ text isPartial, common.chatParse text isPartial state ≠ .error .other

variable (common) in
/-- What a stream can throw: some parser fails with what is no `std::exception`. -/
def Unparsed (error : Exception) : Prop :=
  error = .foreign .other ∧ ∃ state, ¬ ThrowsStandard common state

theorem advance_throws (isPartial : Bool) :
    Throws (Unparsed common) (advance isPartial : Program (Stream common) Exception Advance) := by
  intro stream error after threw
  obtain ⟨parse, ran⟩ | ⟨_, _, ran⟩ | ⟨_, _, _, ran⟩ | ⟨_, _, _, ran⟩ :=
    advance_cases isPartial stream
  · rw [ran] at threw
    cases threw
    exact ⟨rfl, stream.state, fun standard => standard _ _ parse⟩
  all_goals
    rw [ran] at threw
    cases threw

theorem push_throws (text : Bytes) :
    Throws (Unparsed common) (push text : Program (Stream common) Exception Bytes) := by
  rw [push]
  split
  · exact .pure
  · exact .bind .modify fun _ => .bind (advance_throws true) fun _ => .pure

theorem finish_throws :
    Throws (Unparsed common) (finish : Program (Stream common) Exception Final) := by
  refine .bind (advance_throws false) fun advanced => .bind .get fun stream => ?_
  split
  · split
    · split
      · exact .bind .modify fun _ => .pure
      · exact .pure
    · exact .pure
  · split <;> exact .pure

/-- The stream with more text to parse. -/
def grow (text : Bytes) (stream : Stream common) : Stream common :=
  { stream with accumulated := stream.accumulated ++ text }

/-- Everything `push` can do. -/
theorem push_cases (standard : ThrowsStandard common stream.state) (text : Bytes) :
    (text = [] ∧ push text stream = (.ok [], stream)) ∨
    text ≠ [] ∧
      ((usable (common.chatParse (stream.accumulated ++ text) true stream.state) = none ∧
        push text stream = (.ok [], stream.grow text)) ∨
      ∃ next, usable (common.chatParse (stream.accumulated ++ text) true stream.state) = some next ∧
        push text stream = (.ok (newlyVisible stream.emitted next.content),
          (stream.grow text).receive next)) := by
  by_cases blank : text = []
  · exact .inl ⟨blank, by simp [push, blank]⟩
  refine .inr ⟨blank, ?_⟩
  have pushed : push text stream = (do let advanced ← advance true; return advanced.delta :
      Program (Stream common) Exception Bytes) (stream.grow text) := by
    simp only [push, List.isEmpty_iff, blank, if_false, bind_apply, modify_apply]
    rfl
  obtain ⟨parse, _⟩ | ⟨what, parse, ran⟩ | ⟨next, parse, empty, ran⟩ | ⟨next, parse, full, ran⟩ :=
    advance_cases true (stream.grow text)
  · exact absurd parse (standard _ _)
  · refine .inl ⟨?_, by rw [pushed, bind_of_ok ran, pure_apply]⟩
    exact congrArg usable parse
  · refine .inl ⟨?_, by rw [pushed, bind_of_ok ran, pure_apply]⟩
    exact (congrArg usable parse).trans (if_pos empty)
  · refine .inr ⟨next, ?_, by rw [pushed, bind_of_ok ran, pure_apply]; rfl⟩
    exact (congrArg usable parse).trans (if_neg full)

/-- The raw output behind what was emitted, where that can be found. -/
def rawRemainder (stream : Stream common) : Bytes :=
  match stream.rawOffsetAfterEmitted with
  | some offset => stream.accumulated.drop offset
  | none => []

/-- The calls of the last parse, unless one is incomplete. -/
def delivered (stream : Stream common) : List ToolCall :=
  if stream.parsed.toolCalls.all (isComplete common) then stream.parsed.toolCalls.map fromCommon
  else []

theorem delivered_bare :
    stream.delivered.map ToolCall.bare = deliverable common stream.parsed.toolCalls := by
  rw [delivered, deliverable]
  split
  · rw [List.map_map]
    rfl
  · rfl

/-- Everything `finish` can do. -/
theorem finish_cases (stream : Stream common) :
    let parse := common.chatParse stream.accumulated false stream.state
    (parse = .error .other ∧ finish stream = (.error (.foreign .other), stream)) ∨
    (∃ what, parse = .error (.standard what) ∧ finish stream =
      (.ok { contentTail := stream.rawRemainder },
        { stream with emitted := stream.emitted ++ stream.rawRemainder })) ∨
    (∃ next, parse = .ok next ∧ next.empty ∧ finish stream =
      (.ok { contentTail := [], toolCalls := stream.delivered }, stream)) ∨
    ∃ next, parse = .ok next ∧ ¬ next.empty ∧ finish stream =
      (.ok { contentTail := newlyVisible stream.emitted next.content
             toolCalls := (stream.receive next).delivered }, stream.receive next) := by
  obtain ⟨parse, ran⟩ | ⟨what, parse, ran⟩ | ⟨next, parse, empty, ran⟩ | ⟨next, parse, full, ran⟩ :=
    advance_cases false stream
  · exact .inl ⟨parse, by rw [finish, bind_of_error ran]⟩
  · refine .inr (.inl ⟨what, parse, ?_⟩)
    rw [finish, bind_of_ok ran]
    cases located : stream.rawOffsetAfterEmitted with
    | none => simp [bind_apply, rawRemainder, located]
    | some offset =>
        by_cases inside : offset < stream.accumulated.length
        · simp [bind_apply, rawRemainder, located, inside]
        · simp [bind_apply, rawRemainder, located, inside,
            List.drop_eq_nil_of_le (Nat.le_of_not_lt inside)]
  · refine .inr (.inr (.inl ⟨next, parse, empty, ?_⟩))
    rw [finish, bind_of_ok ran, delivered]
    simp only [bind_apply, get_apply, Bool.not_true, Bool.false_eq_true, if_false]
    by_cases complete : stream.parsed.toolCalls.all (isComplete common)
    · simp only [if_pos complete, pure_apply]
    · simp only [if_neg complete, pure_apply]
  · refine .inr (.inr (.inr ⟨next, parse, full, ?_⟩))
    rw [finish, bind_of_ok ran, delivered]
    simp only [bind_apply, get_apply, Bool.not_true, Bool.false_eq_true, if_false]
    by_cases complete : (stream.receive next).parsed.toolCalls.all (isComplete common)
    · simp only [if_pos complete, pure_apply]
    · simp only [if_neg complete, pure_apply]

/-- What `finish` does when the final parse fails. -/
theorem finish_of_fails {stream : Stream common} {what : Bytes}
    (fails : common.chatParse stream.accumulated false stream.state = .error (.standard what)) :
    finish stream = (.ok { contentTail := stream.rawRemainder },
      { stream with emitted := stream.emitted ++ stream.rawRemainder }) := by
  obtain ⟨parse, _⟩ | ⟨_, _, ran⟩ | ⟨_, parse, _⟩ | ⟨_, parse, _⟩ := finish_cases stream
  · rw [fails] at parse
    cases parse
  · exact ran
  · rw [fails] at parse
    cases parse
  · rw [fails] at parse
    cases parse

/-- What `finish` does when the final parse succeeds, with a message that may be empty. -/
theorem finish_of_parses {stream : Stream common} {final : CommonChatMsg}
    (parses : common.chatParse stream.accumulated false stream.state = .ok final) :
    (final.empty ∧ finish stream =
      (.ok { contentTail := [], toolCalls := stream.delivered }, stream)) ∨
    (¬ final.empty ∧ finish stream =
      (.ok { contentTail := newlyVisible stream.emitted final.content
             toolCalls := (stream.receive final).delivered }, stream.receive final)) := by
  obtain ⟨parse, _⟩ | ⟨_, parse, _⟩ | ⟨_, parse, empty, ran⟩ | ⟨_, parse, full, ran⟩ :=
    finish_cases stream
  · rw [parses] at parse
    cases parse
  · rw [parses] at parse
    cases parse
  · rw [parses] at parse
    cases parse
    exact .inl ⟨empty, ran⟩
  · rw [parses] at parse
    cases parse
    exact .inr ⟨full, ran⟩

section Runs

/-- The message with which a push of `text` behind `before` changes the stream. -/
def partialParse (state : ParseState common) (before text : Bytes) : Option CommonChatMsg :=
  if text = [] then none else usable (common.chatParse (before ++ text) true state)

/-- The messages with which pushes of `texts` behind `before` change the stream. -/
def partialParses (state : ParseState common) : (before : Bytes) → List Bytes → List CommonChatMsg
  | _, [] => []
  | before, text :: rest =>
      (partialParse state before text).toList ++ partialParses state (before ++ text) rest

/-- The stream after a sequence of parses. -/
def receiveAll (messages : List CommonChatMsg) (stream : Stream common) : Stream common :=
  messages.foldl (fun stream next => stream.receive next) stream

/-- A stream nothing was pushed to yet. -/
def fresh (state : ParseState common) (rng : common.Rng) : Stream common :=
  { state := state, rng := rng }

theorem usable_eq_some {parse : Except Foreign CommonChatMsg} (some : usable parse = some next) :
    parse = .ok next ∧ ¬ next.empty := by
  cases parse with
  | error error => cases some
  | ok other =>
      by_cases empty : other.empty
      · rw [usable, if_pos empty] at some
        cases some
      · rw [usable, if_neg empty] at some
        cases some
        exact ⟨rfl, empty⟩

/-- Every such message is a parse of a front part of the text. -/
theorem mem_partialParses {state : ParseState common} {before : Bytes} {texts : List Bytes}
    (member : next ∈ partialParses state before texts) :
    ∃ front, front <+: before ++ texts.flatten ∧ common.chatParse front true state = .ok next := by
  induction texts generalizing before with
  | nil => simp [partialParses] at member
  | cons text rest inductionHypothesis =>
      rw [partialParses, List.mem_append, Option.mem_toList] at member
      rw [List.flatten_cons, ← List.append_assoc]
      obtain member | member := member
      · by_cases blank : text = []
        · simp [partialParse, blank] at member
        · rw [partialParse, if_neg blank] at member
          exact ⟨before ++ text, List.prefix_append _ _, (usable_eq_some member).1⟩
      · exact inductionHypothesis member

theorem receiveAll_grow (messages : List CommonChatMsg) (text : Bytes) (stream : Stream common) :
    (stream.grow text).receiveAll messages = (stream.receiveAll messages).grow text := by
  induction messages generalizing stream with
  | nil => rfl
  | cons next messages inductionHypothesis => exact inductionHypothesis (stream.receive next)

theorem grow_grow (first second : Bytes) (stream : Stream common) :
    (stream.grow first).grow second = stream.grow (first ++ second) := by
  simp only [grow, List.append_assoc]

theorem receiveAll_append (first second : List CommonChatMsg) (stream : Stream common) :
    stream.receiveAll (first ++ second) = (stream.receiveAll first).receiveAll second :=
  List.foldl_append

@[simp] theorem receiveAll_state (messages : List CommonChatMsg) :
    (stream.receiveAll messages).state = stream.state := by
  induction messages generalizing stream with
  | nil => rfl
  | cons next messages inductionHypothesis => exact inductionHypothesis

@[simp] theorem receiveAll_accumulated (messages : List CommonChatMsg) :
    (stream.receiveAll messages).accumulated = stream.accumulated := by
  induction messages generalizing stream with
  | nil => rfl
  | cons next messages inductionHypothesis => exact inductionHypothesis

/-- What a push leaves is what its parse leaves. -/
theorem push_eq (standard : ThrowsStandard common stream.state) (text : Bytes) :
    ∃ shown,
      push text stream = (.ok shown, (stream.receiveAll
        (partialParse stream.state stream.accumulated text).toList).grow text) ∧
      (stream.receiveAll (partialParse stream.state stream.accumulated text).toList).emitted =
        stream.emitted ++ shown := by
  obtain ⟨blank, pushed⟩ | ⟨full, ⟨unusable, pushed⟩ | ⟨next, parse, pushed⟩⟩ :=
    push_cases standard text
  · refine ⟨[], pushed.trans ?_, ?_⟩
    · simp [partialParse, blank, receiveAll, grow]
    · simp [partialParse, blank, receiveAll]
  · rw [partialParse, if_neg full, unusable]
    exact ⟨[], pushed, (List.append_nil _).symm⟩
  · rw [partialParse, if_neg full, parse]
    exact ⟨_, pushed, rfl⟩

/-- What a sequence of pushes leaves is what its partial parses leave. -/
theorem pushAll_eq (standard : ThrowsStandard common stream.state) (texts : List Bytes) :
    ∃ shown,
      pushAll texts stream = (.ok shown,
        (stream.receiveAll (partialParses stream.state stream.accumulated texts)).grow
          texts.flatten) ∧
      (stream.receiveAll (partialParses stream.state stream.accumulated texts)).emitted =
        stream.emitted ++ shown.flatten := by
  induction texts generalizing stream with
  | nil =>
      refine ⟨[], ?_, by simp [partialParses, receiveAll]⟩
      simp [pushAll, partialParses, receiveAll, grow]
  | cons text rest inductionHypothesis =>
      obtain ⟨shown, pushed, shows⟩ := push_eq standard text
      let messages := (partialParse stream.state stream.accumulated text).toList
      let middle := (stream.receiveAll messages).grow text
      have sameState : middle.state = stream.state := receiveAll_state messages
      have grown : middle.accumulated = stream.accumulated ++ text :=
        congrArg (· ++ text) (receiveAll_accumulated messages)
      obtain ⟨more, ran, showsMore⟩ :=
        inductionHypothesis (show ThrowsStandard common middle.state from sameState ▸ standard)
      rw [sameState, grown, receiveAll_grow] at ran showsMore
      refine ⟨shown :: more, ?_, ?_⟩
      · rw [pushAll, bind_of_ok pushed, bind_of_ok ran, pure_apply, grow_grow, partialParses,
          receiveAll_append, List.flatten_cons]
      · rw [partialParses, receiveAll_append, List.flatten_cons, ← List.append_assoc, ← shows]
        exact showsMore

/-- The calls left by a sequence of parses are those of the last one. -/
theorem receiveAll_calls (messages : List CommonChatMsg) :
    (stream.receiveAll messages).parsed.toolCalls.map CommonChatToolCall.bare =
      ((messages.getLast?.map CommonChatMsg.toolCalls).getD stream.parsed.toolCalls).map
        CommonChatToolCall.bare := by
  obtain rfl | ⟨earlier, last, rfl⟩ := messages.eq_nil_or_concat
  · rfl
  · rw [List.concat_eq_append, List.getLast?_append]
    simp [receiveAll]

/-- The stream in front of `finish` when `chunks` were pushed to a fresh one. -/
def atEnd (state : ParseState common) (rng : common.Rng) (chunks : List Bytes) : Stream common :=
  ((fresh state rng).receiveAll (partialParses state [] chunks)).grow chunks.flatten

@[simp] theorem atEnd_state {state : ParseState common} {rng : common.Rng} {chunks : List Bytes} :
    (atEnd state rng chunks).state = state := receiveAll_state _

@[simp] theorem atEnd_accumulated {state : ParseState common} {rng : common.Rng}
    {chunks : List Bytes} : (atEnd state rng chunks).accumulated = chunks.flatten :=
  congrArg (· ++ chunks.flatten) (receiveAll_accumulated _)

/-- A run returns what its pushes emitted and what `finish` makes of the stream then. -/
theorem run_eq {state : ParseState common} (standard : ThrowsStandard common state)
    (rng : common.Rng) (chunks : List Bytes) :
    ∃ shown, (atEnd state rng chunks).emitted = shown.flatten ∧
      ∀ last after, finish (atEnd state rng chunks) = (.ok last, after) →
        run chunks (fresh state rng) = (.ok (shown, last), after) := by
  have throwsStandard : ThrowsStandard common (fresh state rng).state := standard
  obtain ⟨shown, pushed, shows⟩ := pushAll_eq throwsStandard chunks
  refine ⟨shown, shows, fun last after finished => ?_⟩
  change pushAll chunks (fresh state rng) = (.ok shown, atEnd state rng chunks) at pushed
  rw [run, bind_of_ok pushed, bind_of_ok finished, pure_apply]

end Runs

end Stream

end Llamad
