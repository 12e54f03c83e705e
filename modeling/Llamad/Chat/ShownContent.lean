import Llamad.Chat.ContentDelivery

/-!
# Only parsed content is shown

After every call of a stream's user, what the calls returned so far is together nothing or
the content of one of the parses made so far. This is a law of one call (`CallLaw`), which
every parser obeys, even one that shrinks or changes what it reported before; the
statement about a whole run is its induction.
-/

namespace Llamad

open Logical Semantics Program

variable {common : Common}

/-- What one call of a stream adds to what was shown, given the parse it made. -/
structure CallLaw (before after : Bytes) (parse : Option CommonChatMsg) : Prop where
  extended : before <+: after
  unparsed : parse = none → after = before
  parsed : ∀ message, parse = some message → after = before ∨ after = message.content
  continued : ∀ message, parse = some message → before <+: message.content →
    after = message.content

/-- What is shown in front of call number `calls`, when call `n` made the parse `parse n`. -/
structure OnlyParsed (shown : Nat → Bytes) (parse : Nat → Option CommonChatMsg) (calls : Nat) :
    Prop where
  /-- Nothing is shown but the content of a parse. -/
  parsed : shown calls = [] ∨
    ∃ n < calls, ∃ message, parse n = some message ∧ shown calls = message.content
  /-- Nothing is un-said. -/
  extended : ∀ earlier ≤ calls, shown earlier <+: shown calls
  /-- The latest parse is shown whole where it extends what was shown before it. -/
  latest : ∀ n < calls, ∀ message, parse n = some message →
    (∀ later, n < later → later < calls → parse later = none) →
    shown n <+: message.content → shown calls = message.content

/-- Calls that each keep the law show only parsed content. -/
theorem OnlyParsed.of_law {shown : Nat → Bytes} {parse : Nat → Option CommonChatMsg}
    (started : shown 0 = []) {calls : Nat}
    (law : ∀ n < calls, CallLaw (shown n) (shown (n + 1)) (parse n)) :
    OnlyParsed shown parse calls := by
  induction calls with
  | zero =>
      refine ⟨.inl started, fun earlier first => ?_, fun n below => absurd below n.not_lt_zero⟩
      rw [Nat.le_zero.mp first]
  | succ calls inductionHypothesis =>
      have earlierCalls := inductionHypothesis fun n below => law n (Nat.lt_succ_of_lt below)
      have here := law calls (Nat.lt_succ_self calls)
      have kept : shown (calls + 1) = shown calls → shown (calls + 1) = [] ∨
          ∃ n < calls + 1, ∃ message, parse n = some message ∧
            shown (calls + 1) = message.content := by
        intro same
        rw [same]
        obtain nothing | ⟨n, below, found⟩ := earlierCalls.parsed
        · exact .inl nothing
        · exact .inr ⟨n, Nat.lt_succ_of_lt below, found⟩
      refine ⟨?_, fun earlier upTo => ?_, fun n below message made last extends_ => ?_⟩
      · cases made : parse calls with
        | none => exact kept (here.unparsed made)
        | some message =>
            obtain same | content := here.parsed message made
            · exact kept same
            · exact .inr ⟨calls, Nat.lt_succ_self calls, message, made, content⟩
      · obtain rfl | below := Nat.eq_or_lt_of_le upTo
        · exact List.prefix_rfl
        · exact (earlierCalls.extended earlier (Nat.le_of_lt_succ below)).trans here.extended
      · obtain rfl | before := Nat.eq_or_lt_of_le (Nat.le_of_lt_succ below)
        · exact here.continued message made extends_
        · rw [here.unparsed (last calls before (Nat.lt_succ_self calls))]
          exact earlierCalls.latest n before message made
            (fun later behind inFront => last later behind (Nat.lt_succ_of_lt inFront)) extends_

namespace Stream

/-- The successful parse call number `n` makes of a parser that has read `before`: the
calls push `chunks` and finish. -/
def callParse (state : ParseState common) : (before : Bytes) → (chunks : List Bytes) → (n : Nat) →
    Option CommonChatMsg
  | before, [], 0 => (common.chatParse before false state).toOption
  | _, [], _ + 1 => none
  | before, text :: _, 0 =>
      if text = [] then none else (common.chatParse (before ++ text) true state).toOption
  | before, text :: rest, n + 1 => callParse state (before ++ text) rest n

/-- A parse that succeeds adds to what is shown as the law says. -/
theorem callLaw_newlyVisible (emitted : Bytes) (message : CommonChatMsg) :
    CallLaw emitted (emitted ++ newlyVisible emitted message.content) (some message) := by
  refine ⟨List.prefix_append _ _, nofun, ?_, ?_⟩
  · rintro _ ⟨⟩
    exact append_newlyVisible_eq_or emitted message.content
  · rintro _ ⟨⟩ extends_
    exact append_newlyVisible extends_

/-- Nothing is added without a parse, and nothing by an empty message. -/
theorem callLaw_nothing {emitted : Bytes} {parse : Option CommonChatMsg}
    (empty : ∀ message, parse = some message → message.content = []) :
    CallLaw emitted emitted parse := by
  refine ⟨List.prefix_rfl, fun _ => rfl, fun _ _ => .inl rfl, fun message made extends_ => ?_⟩
  rw [empty message made] at extends_ ⊢
  exact List.prefix_nil.mp extends_

/-- What a parse adds to what is shown, and what it leaves alone. -/
theorem advance_law {isPartial : Bool} {stream after : Stream common} {advanced : Advance}
    (ran : advance isPartial stream = (.ok advanced, after)) :
    CallLaw stream.emitted (stream.emitted ++ advanced.delta)
        (common.chatParse stream.accumulated isPartial stream.state).toOption ∧
      after.emitted = stream.emitted ++ advanced.delta ∧ after.state = stream.state ∧
      after.accumulated = stream.accumulated := by
  obtain ⟨parse, advancing⟩ | ⟨what, parse, advancing⟩ | ⟨next, parse, empty, advancing⟩ |
    ⟨next, parse, _, advancing⟩ := advance_cases isPartial stream
  · rw [advancing] at ran
    cases ran
  · rw [advancing] at ran
    cases ran
    rw [parse, List.append_nil]
    exact ⟨callLaw_nothing nofun, rfl, rfl, rfl⟩
  · rw [advancing] at ran
    cases ran
    rw [parse, List.append_nil]
    refine ⟨callLaw_nothing ?_, rfl, rfl, rfl⟩
    rintro _ ⟨⟩
    exact CommonChatMsg.content_of_empty empty
  · rw [advancing] at ran
    cases ran
    rw [parse]
    exact ⟨callLaw_newlyVisible _ _, rfl, rfl, rfl⟩

/-- What a push that returns adds to what is shown. -/
theorem push_law {text delta : Bytes} {stream after : Stream common}
    (ran : push text stream = (.ok delta, after)) (rest : List Bytes) :
    CallLaw stream.emitted (stream.emitted ++ delta)
        (callParse stream.state stream.accumulated (text :: rest) 0) ∧
      after.emitted = stream.emitted ++ delta ∧ after.state = stream.state ∧
      after.accumulated = stream.accumulated ++ text := by
  by_cases blank : text = []
  · simp only [push, blank, List.isEmpty_nil, if_true, pure_apply] at ran
    cases ran
    rw [callParse, if_pos blank, blank, List.append_nil, List.append_nil]
    exact ⟨callLaw_nothing (fun message none => absurd none (Option.some_ne_none message).symm),
      rfl, rfl, rfl⟩
  · simp only [push, List.isEmpty_iff, blank, if_false, bind_eq_ok_iff, modify_apply] at ran
    obtain ⟨_, grown, same, advanced, final, advancing, returned⟩ := ran
    cases same
    cases returned
    rw [callParse, if_neg blank]
    exact advance_law advancing

/-- What a `finish` whose parse succeeds adds to what is shown. -/
theorem finish_law {stream after : Stream common} {last : Final} {final : CommonChatMsg}
    (parses : common.chatParse stream.accumulated false stream.state = .ok final)
    (ran : finish stream = (.ok last, after)) :
    CallLaw stream.emitted (stream.emitted ++ last.contentTail)
      (callParse stream.state stream.accumulated [] 0) := by
  rw [callParse, parses]
  obtain ⟨empty, finished⟩ | ⟨_, finished⟩ := finish_of_parses parses
  · rw [finished] at ran
    cases ran
    rw [List.append_nil]
    refine callLaw_nothing ?_
    rintro _ ⟨⟩
    exact CommonChatMsg.content_of_empty empty
  · rw [finished] at ran
    cases ran
    exact callLaw_newlyVisible _ _

/-- What was shown when `calls` calls of a run had returned. -/
def shownBy (emitted : Bytes) (shown : List Bytes) (last : Final) (calls : Nat) : Bytes :=
  emitted ++ ((shown ++ [last.contentTail]).take calls).flatten

/-- Every call of a run keeps the law. -/
theorem run_law {stream after : Stream common} {chunks shown : List Bytes} {last : Final}
    {final : CommonChatMsg}
    (parses : common.chatParse (stream.accumulated ++ chunks.flatten) false stream.state = .ok final)
    (ran : run chunks stream = (.ok (shown, last), after)) :
    shown.length = chunks.length ∧ ∀ n < chunks.length + 1,
      CallLaw (shownBy stream.emitted shown last n) (shownBy stream.emitted shown last (n + 1))
        (callParse stream.state stream.accumulated chunks n) := by
  induction chunks generalizing stream shown with
  | nil =>
      simp only [run, pushAll, bind_eq_ok_iff, pure_apply] at ran
      obtain ⟨_, middle, same, last, _, finished, returned⟩ := ran
      cases same
      cases returned
      rw [List.flatten_nil, List.append_nil] at parses
      refine ⟨rfl, fun n below => ?_⟩
      obtain rfl : n = 0 := Nat.lt_one_iff.mp below
      simpa [shownBy] using finish_law parses finished
  | cons text rest inductionHypothesis =>
      simp only [run, pushAll, bind_eq_ok_iff, pure_apply] at ran
      obtain ⟨_, middle, ⟨delta, pushed, first, more, ending, others, gathered⟩, last, _, finished,
        returned⟩ := ran
      cases gathered
      cases returned
      obtain ⟨law, emitted, state, accumulated⟩ := push_law first rest
      have restRan : run rest pushed = (.ok (more, last), after) := by
        rw [run, bind_of_ok others, bind_of_ok finished, pure_apply]
      rw [List.flatten_cons, ← List.append_assoc, ← accumulated, ← state] at parses
      obtain ⟨sameLength, laws⟩ := inductionHypothesis parses restRan
      refine ⟨congrArg (· + 1) sameLength, fun n below => ?_⟩
      cases n with
      | zero => simpa [shownBy] using law
      | succ n =>
          have later := laws n (Nat.lt_of_succ_lt_succ below)
          rw [emitted, state, accumulated] at later
          simpa [shownBy, callParse] using later

/-- Whatever the parser does: after every call of a run whose final parse succeeds, what
the calls returned is together nothing or the content of a parse made so far, it extends
what was returned before, and it is the content of the latest parse wherever that extends
what was shown in front of it. -/
theorem run_onlyParsed {state : ParseState common} {rng : common.Rng} {chunks shown : List Bytes}
    {last : Final} {after : Stream common} {final : CommonChatMsg}
    (parses : common.chatParse chunks.flatten false state = .ok final)
    (ran : run chunks (fresh state rng) = (.ok (shown, last), after)) :
    shown.length = chunks.length ∧ ∀ calls ≤ chunks.length + 1,
      OnlyParsed (fun calls => ((shown ++ [last.contentTail]).take calls).flatten)
        (callParse state [] chunks) calls := by
  obtain ⟨sameLength, laws⟩ := @run_law _ (fresh state rng) _ _ _ _ _ parses ran
  refine ⟨sameLength, fun calls upTo => .of_law rfl fun n below => ?_⟩
  exact laws n (Nat.lt_of_lt_of_le below upTo)

/-- A parser that takes back content at `ab`, fails at `abc` and settles at the end. -/
def wavering (text : Bytes) (isPartial : Bool) : Except Foreign CommonChatMsg :=
  if text = [0x61] then .ok { content := [0x78, 0x79] }
  else if text = [0x61, 0x62] then .ok { content := [0x78] }
  else if isPartial then .error (.standard (literal "not enough input"))
  else .ok { content := [0x78, 0x79, 0x7A] }

/-- `abc` byte by byte shows `xy`, nothing, nothing and `z`. -/
theorem run_onlyParsed_wavering :
    ([[0x78, 0x79], [], []] : List Bytes).length = 3 ∧ ∀ calls ≤ 3 + 1,
      OnlyParsed
        (fun calls => (([[0x78, 0x79], [], []] ++ [[0x7A]] : List Bytes).take calls).flatten)
        (callParse (Common.parsingState (fun _ => true) wavering) [] [[0x61], [0x62], [0x63]])
        calls :=
  @run_onlyParsed (Common.parsing (fun _ => true) wavering)
    (Common.parsingState (fun _ => true) wavering) () [[0x61], [0x62], [0x63]] _
    { contentTail := [0x7A] } _ { content := [0x78, 0x79, 0x7A] } rfl rfl

end Stream

end Llamad
