import Llamad.Semantics.Transition
import Llamad.Service.Wire
import Mathlib.Data.List.Infix

/-!
# The conversation of a client

The terminal client of `chat.py`. The daemon keeps no conversation, so the client sends all of
it with every message and runs the tools that the model calls. A `World` is everything the
client talks to: the daemon, the clock, and the keyboard that interrupts it.

A client keeps a record of its contacts with the world, and `World.Answers` says that a record
is what the world really answers. `Turn` is an exchange that came to its end, `Chat` the
conversation as its user sees it, and `Chat.Moves` what a line may make of it by what the turn's
own contacts returned or raised; the client refines it.
-/

namespace Llamad.Client

open Logical Semantics Program

/-- The message every conversation starts with. -/
def system : V1.ChatMessage where
  role := literal "system"
  content := literal "You are a concise, friendly assistant."

/-- How replies are sampled. -/
def sampling : V1.SamplingParams := { temperature := some 0, maxTokens := some 512 }

/-- The tools that are offered to the model. -/
def tools : List V1.Tool :=
  [{ name := literal "get_current_time"
     description := literal "Get the current local date and time on this computer."
     parametersJsonSchema := [] }]

/-- Replies per turn. -/
def maxToolRounds : Nat := 4

/-- What is raised while a turn is going on. -/
inductive Raised where
  | rpcError (code details : Bytes)
  | runtimeError (what : Bytes)
  | keyboardInterrupt
deriving DecidableEq

/-- An error in the words the client prints. -/
def describe : Raised → Bytes
  | .rpcError code details => code ++ literal ": " ++ details
  | .runtimeError what => what
  | .keyboardInterrupt => []

/-- The chunks that arrive of one Chat call, and what the stream raises behind them. -/
structure Reply where
  chunks : List V1.GenerateChunk
  raises : Option Raised := none

/-- What a client talks to. -/
structure World where
  State : Type
  /-- A call of Chat. -/
  chat : V1.ChatRequest → State → Reply × State
  /-- The time as `run_tool` writes it, unless the user interrupts. -/
  now : State → Option Bytes × State

/-- A call that a client made, and what came of it. -/
inductive Contact where
  | chat (request : V1.ChatRequest) (reply : Reply)
  | now (time : Option Bytes)

/-- A running client. -/
structure Conversation (world : World) where
  host : world.State
  history : List V1.ChatMessage := [system]
  failed : Bool := false
  /-- The errors that were printed. -/
  reported : List Bytes := []
  /-- The calls that were made, oldest first. -/
  contacts : List Contact := []

section Turns

variable {world : World}

/-- One chunk of the loop over a stream. -/
def hear (heard : Bytes × Option V1.Finish) : V1.GenerateChunk → Bytes × Option V1.Finish
  | .text text => (heard.1 ++ text, heard.2)
  | .finish finish => (heard.1, some finish)

/-- What becomes of a stream: its text and the finish chunk, or what is raised. -/
def Reply.outcome (reply : Reply) : Except Raised (Bytes × V1.Finish) :=
  match reply.raises, reply.chunks.foldl hear ([], none) with
  | some raised, _ => .error raised
  | none, (_, none) => .error (.runtimeError (literal "the stream ended without a finish chunk"))
  | none, (text, some finish) => .ok (text, finish)

/-- The request for the reply to some messages. -/
def ask (messages : List V1.ChatMessage) : V1.ChatRequest where
  messages := messages
  sampling := sampling
  tools := tools

/-- A call of Chat. -/
def chat (request : V1.ChatRequest) : Program (Conversation world) Raised Reply := do
  let conversation ← get
  let (reply, host) := world.chat request conversation.host
  modify fun conversation => { conversation with
    host := host, contacts := conversation.contacts ++ [.chat request reply] }
  return reply

/-- The text of a reply and its finish chunk. -/
def streamReply (messages : List V1.ChatMessage) :
    Program (Conversation world) Raised (Bytes × V1.Finish) := do
  let reply ← chat (ask messages)
  attempt reply.outcome

/-- The time, in the words of the tool. -/
def now : Program (Conversation world) Raised Bytes := do
  let conversation ← get
  let (time, host) := world.now conversation.host
  modify fun conversation => { conversation with
    host := host, contacts := conversation.contacts ++ [.now time] }
  match time with
  | some time => return time
  | none => throw .keyboardInterrupt

/-- The result of a call. -/
def runTool (call : V1.ToolCall) : Program (Conversation world) Raised Bytes :=
  if call.name = literal "get_current_time" then now
  else return literal "error: unknown tool " ++ call.name

/-- What the user says. -/
def userMessage (line : Bytes) : V1.ChatMessage := { role := literal "user", content := line }

/-- What the model says, and the tools it calls. -/
def assistantMessage (text : Bytes) (calls : List V1.ToolCall) : V1.ChatMessage where
  role := literal "assistant"
  content := text
  toolCalls := calls

/-- The result of a call for the model. -/
def toolMessage (call : V1.ToolCall) (result : Bytes) : V1.ChatMessage where
  role := literal "tool"
  toolCallId := call.id
  content := result

/-- The calls of one reply, run one after the other. -/
def runTools : List V1.ToolCall → Program (Conversation world) Raised (List V1.ChatMessage)
  | [] => return []
  | call :: calls => do
      let result ← runTool call
      let messages ← runTools calls
      return toolMessage call result :: messages

/-- The loop of `chat_turn`, with the replies that are left to it. -/
def toolRounds (history : List V1.ChatMessage) : Nat → List V1.ChatMessage →
    Program (Conversation world) Raised (Option (List V1.ChatMessage))
  | 0, _ => return none
  | left + 1, turn => do
      let reply ← streamReply (history ++ turn)
      let results ← runTools reply.2.toolCalls
      let turn := turn ++ assistantMessage reply.1 reply.2.toolCalls :: results
      if reply.2.reason ≠ .toolCalls then
        return some turn
      else
        toolRounds history left turn

/-- Answers one message: the messages of the turn, or `none` when the model still calls tools
after the last reply it is allowed. -/
def chatTurn (history : List V1.ChatMessage) (user : V1.ChatMessage) :
    Program (Conversation world) Raised (Option (List V1.ChatMessage)) :=
  toolRounds history maxToolRounds [user]

end Turns

section Lines

variable {world : World}

/-- A message for the model, rather than a blank line or a command. -/
def isMessage (line : Bytes) : Bool := !line.isEmpty && line.head? != some 0x2F

/-- A turn for a message. -/
def Conversation.say (line : Bytes) (conversation : Conversation world) : Conversation world :=
  match chatTurn conversation.history (userMessage line) conversation with
  | (.error .keyboardInterrupt, after) => after
  | (.error raised, after) =>
      { after with failed := true, reported := after.reported ++ [describe raised] }
  | (.ok none, after) => after
  | (.ok (some turn), after) => { after with history := after.history ++ turn }

/-- A line other than `/quit`, without the blanks around it. -/
def Conversation.enter (conversation : Conversation world) (line : Bytes) : Conversation world :=
  if line = literal "/clear" then { conversation with history := [system] }
  else if isMessage line then conversation.say line
  else conversation

/-- The lines in front of `/quit`, or of the end of the input. -/
def entered (lines : List Bytes) : List Bytes := lines.takeWhile (· ≠ literal "/quit")

/-- A client that was given some lines. -/
def typed (host : world.State) (lines : List Bytes) : Conversation world :=
  lines.foldl Conversation.enter { host := host }

/-- The loop of `main`. -/
def converse (host : world.State) (lines : List Bytes) : Conversation world :=
  typed host (entered lines)

end Lines

section Dialogue

/-- A result that a call may be answered with. -/
def Results (call : V1.ToolCall) (result : Bytes) : Prop :=
  call.name ≠ literal "get_current_time" → result = literal "error: unknown tool " ++ call.name

/-- A reply that calls tools, and a result for each of its calls. -/
structure Round where
  reply : Reply
  text : Bytes
  finish : V1.Finish
  results : List Bytes
  heard : reply.outcome = .ok (text, finish)
  called : finish.toolCalls ≠ []
  answered : List.Forall₂ Results finish.toolCalls results

/-- The messages of a round. -/
def Round.messages (round : Round) : List V1.ChatMessage :=
  assistantMessage round.text round.finish.toolCalls ::
    List.zipWith toolMessage round.finish.toolCalls round.results

/-- What is said in a turn before the reply that ends it. -/
def opening (user : Bytes) (rounds : List Round) : List V1.ChatMessage :=
  userMessage user :: rounds.flatMap Round.messages

/-- A message and the rounds behind it, few enough for one more reply. -/
structure Exchange where
  user : Bytes
  rounds : List Round
  few : rounds.length < maxToolRounds

/-- An exchange that ends with a reply that calls no tool. -/
structure Turn extends Exchange where
  reply : Reply
  text : Bytes
  finish : V1.Finish
  heard : reply.outcome = .ok (text, finish)
  silent : finish.toolCalls = []

/-- The messages of a turn. -/
def Turn.messages (turn : Turn) : List V1.ChatMessage :=
  opening turn.user turn.rounds ++ [assistantMessage turn.text []]

/-- The messages of a conversation. -/
def transcript (dialogue : List Turn) : List V1.ChatMessage :=
  system :: dialogue.flatMap Turn.messages

/-- One request for each reply of an exchange, with everything that was said before it. -/
def requests (history : List V1.ChatMessage) (user : Bytes) (rounds : List Round) :
    List V1.ChatRequest :=
  rounds.inits.map fun front => ask (history ++ opening user front)

/-- The readings of the clock that calls were answered with. -/
def readings (calls : List V1.ToolCall) (results : List Bytes) : List Contact :=
  (calls.zip results).filterMap fun answer =>
    if answer.1.name = literal "get_current_time" then some (.now (some answer.2)) else none

/-- The contacts of some rounds behind what was said: a request with everything said so far, its
reply, and the tools that the reply calls. -/
def played (said : List V1.ChatMessage) : List Round → List Contact
  | [] => []
  | round :: rounds =>
      .chat (ask said) round.reply :: readings round.finish.toolCalls round.results ++
        played (said ++ round.messages) rounds

/-- The contacts of an exchange. -/
def Exchange.played (exchange : Exchange) (history : List V1.ChatMessage) : List Contact :=
  Client.played (history ++ [userMessage exchange.user]) exchange.rounds

/-- The contacts of a turn. -/
def Turn.contacts (turn : Turn) (history : List V1.ChatMessage) : List Contact :=
  turn.played history ++ [.chat (ask (history ++ opening turn.user turn.rounds)) turn.reply]

/-- How a turn is broken off behind what was said: a reply raises, or the user interrupts a tool
that a reply calls. -/
inductive Breaks (said : List V1.ChatMessage) : Raised → List Contact → Prop
  | reply {reply : Reply} {raised : Raised} (raises : reply.outcome = .error raised) :
      Breaks said raised [.chat (ask said) reply]
  | tool {reply : Reply} {text : Bytes} {finish : V1.Finish} {calls more : List V1.ToolCall}
      {call : V1.ToolCall} {results : List Bytes} (heard : reply.outcome = .ok (text, finish))
      (called : finish.toolCalls = calls ++ call :: more)
      (answered : List.Forall₂ Results calls results)
      (clock : call.name = literal "get_current_time") :
      Breaks said .keyboardInterrupt
        (.chat (ask said) reply :: readings calls results ++ [.now none])

/-- The requests of some contacts. -/
def requested (contacts : List Contact) : List V1.ChatRequest :=
  contacts.filterMap fun contact =>
    match contact with
    | .chat request _ => some request
    | .now _ => none

/-- A message of the model is a reply to what was said before it. -/
def Heard (contacts : List Contact) (before : List V1.ChatMessage) (message : V1.ChatMessage) :
    Prop :=
  ∃ reply finish, .chat (ask before) reply ∈ contacts ∧
    reply.outcome = .ok (message.content, finish) ∧ message.toolCalls = finish.toolCalls

/-- Every message of the model in `messages` is one that `replied` allows behind what was said
before it. -/
def Grounded (replied : List V1.ChatMessage → V1.ChatMessage → Prop)
    (before messages : List V1.ChatMessage) : Prop :=
  ∀ front message back, messages = front ++ message :: back →
    message.role = literal "assistant" → replied (before ++ front) message

section Grounded

variable {replied : List V1.ChatMessage → V1.ChatMessage → Prop}
  {before messages more : List V1.ChatMessage}

theorem Grounded.append (grounded : Grounded replied before messages)
    (further : Grounded replied (before ++ messages) more) :
    Grounded replied before (messages ++ more) := by
  intro front message back same assistant
  obtain ⟨middle, rfl, rest⟩ | ⟨middle, rfl, rest⟩ := List.append_eq_append_iff.mp same
  · rw [← List.append_assoc]
    exact further middle message back rest assistant
  · cases middle with
    | nil =>
        rw [List.nil_append] at rest
        have there := further [] message back rest.symm assistant
        rwa [List.append_nil, List.append_nil] at there
    | cons first middle =>
        obtain ⟨rfl, rfl⟩ := List.cons.inj rest
        exact grounded front _ middle rfl assistant

theorem grounded_of_others (others : ∀ message ∈ messages, message.role ≠ literal "assistant") :
    Grounded replied before messages := by
  rintro front message back rfl assistant
  exact absurd assistant (others message (by simp))

theorem grounded_singleton {message : V1.ChatMessage} (holds : replied before message) :
    Grounded replied before [message] := by
  intro front other back same assistant
  cases front with
  | nil =>
      cases same
      rwa [List.append_nil]
  | cons first front =>
      have length := congrArg List.length same
      simp at length

end Grounded

theorem opening_snoc (user : Bytes) (rounds : List Round) (round : Round) :
    opening user (rounds ++ [round]) = opening user rounds ++ round.messages := by
  simp [opening]

theorem append_opening (history : List V1.ChatMessage) (user : Bytes) (rounds : List Round) :
    history ++ opening user rounds =
      history ++ [userMessage user] ++ rounds.flatMap Round.messages := by
  simp [opening]

theorem transcript_snoc (dialogue : List Turn) (turn : Turn) :
    transcript (dialogue ++ [turn]) = transcript dialogue ++ turn.messages := by
  simp [transcript]

theorem played_snoc (said : List V1.ChatMessage) (rounds : List Round) (round : Round) :
    played said (rounds ++ [round]) = played said rounds ++
      (.chat (ask (said ++ rounds.flatMap Round.messages)) round.reply ::
        readings round.finish.toolCalls round.results) := by
  induction rounds generalizing said with
  | nil => simp [played]
  | cons first rounds inductionHypothesis => simp [played, inductionHypothesis]

@[simp] theorem requested_append (first second : List Contact) :
    requested (first ++ second) = requested first ++ requested second :=
  List.filterMap_append

@[simp] theorem requested_chat (request : V1.ChatRequest) (reply : Reply)
    (contacts : List Contact) :
    requested (.chat request reply :: contacts) = request :: requested contacts := rfl

@[simp] theorem requested_readings (calls : List V1.ToolCall) (results : List Bytes) :
    requested (readings calls results) = [] := by
  rw [requested, readings, List.filterMap_filterMap, List.filterMap_eq_nil_iff]
  intro answer _
  by_cases clock : answer.1.name = literal "get_current_time"
  · rw [if_pos clock]
    rfl
  · rw [if_neg clock]
    rfl

/-- The requests of an exchange are one for each of its rounds and one for the reply behind
them. -/
theorem requests_eq (history : List V1.ChatMessage) (user : Bytes) (rounds : List Round) :
    requests history user rounds = requested (played (history ++ [userMessage user]) rounds) ++
      [ask (history ++ opening user rounds)] := by
  induction rounds using List.reverseRecOn with
  | nil => rfl
  | append_singleton rounds round inductionHypothesis =>
      have more : requests history user (rounds ++ [round]) =
          requests history user rounds ++ [ask (history ++ opening user (rounds ++ [round]))] := by
        simp [requests, List.inits_append]
      rw [more, inductionHypothesis, played_snoc, requested_append, requested_chat,
        requested_readings, ← append_opening]

theorem Breaks.requested {said : List V1.ChatMessage} {raised : Raised} {contacts : List Contact}
    (broken : Breaks said raised contacts) : requested contacts = [ask said] := by
  cases broken with
  | reply raises => rfl
  | tool heard called answered clock =>
      rw [List.cons_append, requested_chat, requested_append, requested_readings]
      rfl

/-- The roles a client speaks in are not the model's. -/
theorem not_assistant : literal "system" ≠ literal "assistant" ∧
    literal "user" ≠ literal "assistant" ∧ literal "tool" ≠ literal "assistant" := by
  decide +kernel

theorem Heard.mono {contacts more : List Contact} {before : List V1.ChatMessage}
    {message : V1.ChatMessage} (heard : Heard contacts before message)
    (within : contacts ⊆ more) : Heard more before message := by
  obtain ⟨reply, finish, member, outcome, toolCalls⟩ := heard
  exact ⟨reply, finish, within member, outcome, toolCalls⟩

theorem Grounded.mono {contacts more : List Contact} {before messages : List V1.ChatMessage}
    (grounded : Grounded (Heard contacts) before messages) (within : contacts ⊆ more) :
    Grounded (Heard more) before messages :=
  fun front message back same assistant => (grounded front message back same assistant).mono within

theorem grounded_transcript_nil {replied : List V1.ChatMessage → V1.ChatMessage → Prop} :
    Grounded replied [] (transcript []) := by
  refine grounded_of_others fun message member => ?_
  cases List.mem_singleton.mp member
  exact not_assistant.1

/-- What the model says in some rounds is what their contacts heard. -/
theorem grounded_rounds {contacts : List Contact} (said : List V1.ChatMessage)
    (rounds : List Round) (within : played said rounds ⊆ contacts) :
    Grounded (Heard contacts) said (rounds.flatMap Round.messages) := by
  induction rounds generalizing said with
  | nil =>
      refine grounded_of_others fun message member => ?_
      cases member
  | cons round rounds inductionHypothesis =>
      rw [played, List.cons_append, List.cons_subset, List.append_subset] at within
      obtain ⟨here, _, later⟩ := within
      have spoken : Grounded (Heard contacts) said
          [assistantMessage round.text round.finish.toolCalls] :=
        grounded_singleton ⟨round.reply, round.finish, here, round.heard, rfl⟩
      have tools : Grounded (Heard contacts)
          (said ++ [assistantMessage round.text round.finish.toolCalls])
          (List.zipWith toolMessage round.finish.toolCalls round.results) := by
        refine grounded_of_others fun message member => ?_
        rw [← List.map_uncurry_zip_eq_zipWith, List.mem_map] at member
        obtain ⟨answered, _, rfl⟩ := member
        exact not_assistant.2.2
      exact Grounded.append (spoken.append tools) (inductionHypothesis _ later)

/-- What the model says in a turn is what the turn's contacts heard. -/
theorem Turn.grounded (turn : Turn) {contacts : List Contact} (history : List V1.ChatMessage)
    (within : turn.contacts history ⊆ contacts) :
    Grounded (Heard contacts) history turn.messages := by
  rw [Turn.contacts, List.append_subset, List.cons_subset] at within
  obtain ⟨before, last, _⟩ := within
  have user : Grounded (Heard contacts) history [userMessage turn.user] := by
    refine grounded_of_others fun message member => ?_
    cases List.mem_singleton.mp member
    exact not_assistant.2.1
  have opened : Grounded (Heard contacts) history (opening turn.user turn.rounds) :=
    user.append (grounded_rounds _ _ before)
  exact opened.append (grounded_singleton ⟨turn.reply, turn.finish, last, turn.heard,
    turn.silent.symm⟩)

/-- The conversation as its user sees it. -/
structure Chat where
  dialogue : List Turn := []
  /-- The errors that were printed. -/
  reported : List Bytes := []
  /-- The calls that were made. -/
  contacts : List Contact := []

/-- Some more calls. -/
def Chat.contact (chat : Chat) (contacts : List Contact) : Chat :=
  { chat with contacts := chat.contacts ++ contacts }

/-- An exchange that became a turn. -/
def Chat.keep (chat : Chat) (turn : Turn) : Chat :=
  { chat.contact (turn.contacts (transcript chat.dialogue)) with
    dialogue := chat.dialogue ++ [turn] }

/-- What a line may make of a conversation, by what the calls of its turn returned or raised. -/
inductive Chat.Moves : Bytes → Chat → Chat → Prop
  | clear (chat : Chat) : Moves (literal "/clear") chat { chat with dialogue := [] }
  | command (chat : Chat) {line : Bytes} (other : line ≠ literal "/clear")
      (command : ¬ isMessage line) : Moves line chat chat
  | answered (chat : Chat) (turn : Turn) (message : isMessage turn.user) :
      Moves turn.user chat (chat.keep turn)
  | exhausted (chat : Chat) {user : Bytes} (message : isMessage user) (rounds : List Round)
      (full : rounds.length = maxToolRounds) :
      Moves user chat
        (chat.contact (played (transcript chat.dialogue ++ [userMessage user]) rounds))
  | interrupted (chat : Chat) (exchange : Exchange) (message : isMessage exchange.user)
      {contacts : List Contact}
      (broken : Breaks (transcript chat.dialogue ++ opening exchange.user exchange.rounds)
        .keyboardInterrupt contacts) :
      Moves exchange.user chat
        (chat.contact (exchange.played (transcript chat.dialogue) ++ contacts))
  | failed (chat : Chat) (exchange : Exchange) (message : isMessage exchange.user)
      {raised : Raised} {contacts : List Contact}
      (broken : Breaks (transcript chat.dialogue ++ opening exchange.user exchange.rounds)
        raised contacts)
      (error : raised ≠ .keyboardInterrupt) :
      Moves exchange.user chat
        { chat.contact (exchange.played (transcript chat.dialogue) ++ contacts) with
          reported := chat.reported ++ [describe raised] }

end Dialogue

section World

variable (world : World)

/-- The world answers some calls, one after the other, with what they report. -/
inductive World.Answers (host : world.State) : List Contact → world.State → Prop
  | refl : Answers host [] host
  | chat {contacts : List Contact} {state : world.State} (before : Answers host contacts state)
      (request : V1.ChatRequest) :
      Answers host (contacts ++ [.chat request (world.chat request state).1])
        (world.chat request state).2
  | now {contacts : List Contact} {state : world.State} (before : Answers host contacts state) :
      Answers host (contacts ++ [.now (world.now state).1]) (world.now state).2

variable {world} in
theorem World.Answers.append {host middle final : world.State} {first second : List Contact}
    (answers : world.Answers host first middle) (further : world.Answers middle second final) :
    world.Answers host (first ++ second) final := by
  induction further with
  | refl => rwa [List.append_nil]
  | chat _ request inductionHypothesis =>
      rw [← List.append_assoc]
      exact inductionHypothesis.chat request
  | now _ inductionHypothesis =>
      rw [← List.append_assoc]
      exact inductionHypothesis.now

/-- The daemon says that it calls tools exactly when it does. -/
def World.Consistent : Prop :=
  ∀ request state text finish, (world.chat request state).1.outcome = .ok (text, finish) →
    finish.Consistent

end World

section Refinement

variable {world : World} {before : Conversation world} {contacts : List Contact}

/-- The turn of a conversation has made some calls, and nothing else has changed. -/
structure Extends (before after : Conversation world) (made : List Contact) : Prop where
  history : after.history = before.history
  failed : after.failed = before.failed
  reported : after.reported = before.reported
  contacts : after.contacts = before.contacts ++ made
  answers : world.Answers before.host made after.host

theorem Extends.snoc {after : Conversation world} (prior : Extends before after contacts)
    {contact : Contact} {host : world.State}
    (answers : world.Answers before.host (contacts ++ [contact]) host) :
    Extends before { after with host := host, contacts := after.contacts ++ [contact] }
      (contacts ++ [contact]) :=
  ⟨prior.history, prior.failed, prior.reported, by rw [prior.contacts, List.append_assoc], answers⟩

theorem streamReply_triple (consistent : world.Consistent) (messages : List V1.ChatMessage) :
    Triple (Extends before · contacts) (streamReply messages)
      (fun heard after => ∃ reply : Reply, reply.outcome = .ok heard ∧ heard.2.Consistent ∧
        Extends before after (contacts ++ [.chat (ask messages) reply]))
      (fun raised after => ∃ reply : Reply, reply.outcome = .error raised ∧
        Extends before after (contacts ++ [.chat (ask messages) reply])) := by
  intro conversation prior
  have sent := prior.snoc (prior.answers.chat (ask messages))
  simp only [streamReply, chat, bind_apply, get_apply, modify_apply, pure_apply, attempt_apply]
  cases outcome : (world.chat (ask messages) conversation.host).1.outcome with
  | ok heard => exact ⟨_, outcome, consistent _ _ _ _ outcome, sent⟩
  | error raised => exact ⟨_, outcome, sent⟩

theorem runTool_triple (call : V1.ToolCall) :
    Triple (Extends before · contacts) (runTool call)
      (fun result after => Results call result ∧
        Extends before after (contacts ++ readings [call] [result]))
      (fun raised after => raised = .keyboardInterrupt ∧
        call.name = literal "get_current_time" ∧
          Extends before after (contacts ++ [.now none])) := by
  intro conversation prior
  rw [runTool]
  split
  · rename_i clock
    have read := prior.snoc prior.answers.now
    simp only [now, bind_apply, get_apply, modify_apply]
    cases time : (world.now conversation.host).1 with
    | some result =>
        rw [time] at read
        refine ⟨fun other => absurd clock other, ?_⟩
        simpa [readings, clock] using read
    | none =>
        rw [time] at read
        exact ⟨rfl, clock, read⟩
  · rename_i other
    refine ⟨fun _ => rfl, ?_⟩
    simpa [readings, other] using prior

/-- The tools of a reply: every call has its result, or the user interrupts one of them. -/
theorem runTools_triple (calls : List V1.ToolCall) :
    Triple (Extends before · contacts) (runTools calls)
      (fun messages after => ∃ results, List.Forall₂ Results calls results ∧
        messages = List.zipWith toolMessage calls results ∧
          Extends before after (contacts ++ readings calls results))
      (fun raised after => raised = .keyboardInterrupt ∧ ∃ front call back results,
        calls = front ++ call :: back ∧ List.Forall₂ Results front results ∧
          call.name = literal "get_current_time" ∧
            Extends before after (contacts ++ readings front results ++ [.now none])) := by
  induction calls generalizing contacts with
  | nil => exact .pure fun after prior => ⟨[], .nil, rfl, by simpa [readings] using prior⟩
  | cons call calls inductionHypothesis =>
      have joined (result : Bytes) (front : List V1.ToolCall) (results : List Bytes) :
          contacts ++ readings [call] [result] ++ readings front results =
            contacts ++ readings (call :: front) (result :: results) := by
        rw [List.append_assoc, readings, readings, readings, ← List.filterMap_append]
        rfl
      refine .bind ((runTool_triple call).consequence (fun _ _ => id) ?_) fun result => ?_
      · rintro _ after ⟨rfl, clock, broken⟩
        exact ⟨rfl, [], call, calls, [], rfl, .nil, clock, by simpa [readings] using broken⟩
      rintro conversation ⟨answers, prior⟩
      refine Triple.bind (inductionHypothesis.consequence (fun _ _ => id) ?_)
        (fun messages => .pure ?_) conversation prior
      · rintro _ after ⟨rfl, front, other, back, results, rfl, answered, clock, broken⟩
        refine ⟨rfl, call :: front, other, back, result :: results, rfl, .cons answers answered,
          clock, ?_⟩
        rwa [joined] at broken
      · rintro after ⟨results, answered, rfl, still⟩
        refine ⟨result :: results, .cons answers answered, rfl, ?_⟩
        rwa [joined] at still

/-- How a turn ends by itself. -/
def Ends (before : Conversation world) (user : Bytes) :
    Option (List V1.ChatMessage) → Conversation world → Prop
  | some messages, after => ∃ turn : Turn, turn.user = user ∧ messages = turn.messages ∧
      Extends before after (turn.contacts before.history)
  | none, after => ∃ rounds : List Round, rounds.length = maxToolRounds ∧
      Extends before after (played (before.history ++ [userMessage user]) rounds)

/-- How a turn is broken off. -/
def BrokenOff (before : Conversation world) (user : Bytes) (raised : Raised)
    (after : Conversation world) : Prop :=
  ∃ exchange : Exchange, exchange.user = user ∧ ∃ contacts,
    Breaks (before.history ++ opening user exchange.rounds) raised contacts ∧
      Extends before after (exchange.played before.history ++ contacts)

/-- The rounds that are left to a turn, behind those that it had. -/
theorem toolRounds_triple (consistent : world.Consistent) (user : Bytes) (left : Nat)
    (rounds : List Round) (count : rounds.length + left = maxToolRounds) :
    Triple (Extends before · (played (before.history ++ [userMessage user]) rounds))
      (toolRounds before.history left (opening user rounds)) (Ends before user)
      (BrokenOff before user) := by
  induction left generalizing rounds with
  | zero => exact .pure fun after prior => ⟨rounds, count, prior⟩
  | succ left inductionHypothesis =>
      let exchange : Exchange := ⟨user, rounds, by omega⟩
      refine .bind ((streamReply_triple consistent _).consequence (fun _ _ => id) ?_)
        fun heard => ?_
      · rintro raised after ⟨reply, raises, broken⟩
        exact ⟨exchange, rfl, _, .reply raises, broken⟩
      rintro conversation ⟨reply, outcome, exact, prior⟩
      obtain ⟨text, finish⟩ := heard
      refine Triple.bind ((runTools_triple _).consequence (fun _ _ => id) ?_)
        (fun messages => ?_) conversation prior
      · rintro _ after ⟨rfl, front, call, back, results, called, answered, clock, broken⟩
        refine ⟨exchange, rfl, _, .tool outcome called answered clock, ?_⟩
        simpa [Exchange.played] using broken
      rintro after ⟨results, answered, rfl, still⟩
      split
      · rename_i final
        have silent : finish.toolCalls = [] := by
          by_contra calls
          exact final (exact.mp calls)
        let turn : Turn := ⟨exchange, reply, text, finish, outcome, silent⟩
        refine ⟨turn, rfl, ?_, ?_⟩
        · rw [silent] at answered ⊢
          cases answered
          rfl
        · rw [silent] at answered still
          cases answered
          simpa [readings, Turn.contacts, Exchange.played] using still
      · rename_i more
        rw [not_not] at more
        let round : Round := ⟨reply, text, finish, results, outcome, exact.mpr more, answered⟩
        have said : opening user rounds ++ assistantMessage text finish.toolCalls ::
            List.zipWith toolMessage finish.toolCalls results = opening user (rounds ++ [round]) :=
          (opening_snoc user rounds round).symm
        rw [said]
        refine inductionHypothesis (rounds ++ [round]) ?_ after ?_
        · rw [List.length_append, List.length_singleton]
          omega
        · rw [played_snoc, ← append_opening]
          simpa using still

/-- A turn makes the calls of one exchange and changes nothing else. -/
theorem chatTurn_triple (consistent : world.Consistent) (user : Bytes) :
    Triple (Extends before · []) (chatTurn before.history (userMessage user))
      (Ends before user) (BrokenOff before user) :=
  toolRounds_triple consistent user maxToolRounds [] (Nat.zero_add _)

/-- What a client knows of the conversation that its user sees. -/
structure Conversation.Shows (conversation : Conversation world) (chat : Chat) : Prop where
  history : conversation.history = transcript chat.dialogue
  failed : conversation.failed = true ↔ chat.reported ≠ []
  reported : conversation.reported = chat.reported
  contacts : conversation.contacts = chat.contacts

variable {conversation : Conversation world} {chat : Chat}

theorem Conversation.Shows.contact (shows : conversation.Shows chat) {after : Conversation world}
    (turned : Extends conversation after contacts) : after.Shows (chat.contact contacts) where
  history := turned.history.trans shows.history
  failed := turned.failed ▸ shows.failed
  reported := turned.reported.trans shows.reported
  contacts := by rw [turned.contacts, shows.contacts, Chat.contact]

/-- A message is answered, or dropped for a reason. -/
theorem Conversation.Shows.say (consistent : world.Consistent) (shows : conversation.Shows chat)
    {line : Bytes} (message : isMessage line) :
    ∃ next, chat.Moves line next ∧ (conversation.say line).Shows next ∧
      ∃ contacts, (conversation.say line).contacts = conversation.contacts ++ contacts ∧
        world.Answers conversation.host contacts (conversation.say line).host := by
  have ended := chatTurn_triple consistent line conversation
    ⟨rfl, rfl, rfl, (List.append_nil _).symm, .refl⟩
  rw [Conversation.say]
  rcases ran : chatTurn conversation.history (userMessage line) conversation with
    ⟨raised | turn, after⟩ <;> rw [ran] at ended
  · obtain ⟨exchange, rfl, contacts, broken, turned⟩ := ended
    have dropped := shows.contact turned
    rw [shows.history] at broken dropped
    cases raised with
    | keyboardInterrupt =>
        exact ⟨_, .interrupted chat exchange message broken, dropped, _, turned.contacts,
          turned.answers⟩
    | rpcError code details =>
        refine ⟨_, .failed chat exchange message broken (by simp), ?_, _, turned.contacts,
          turned.answers⟩
        exact ⟨dropped.history, by simp, congrArg (· ++ [_]) dropped.reported, dropped.contacts⟩
    | runtimeError what =>
        refine ⟨_, .failed chat exchange message broken (by simp), ?_, _, turned.contacts,
          turned.answers⟩
        exact ⟨dropped.history, by simp, congrArg (· ++ [_]) dropped.reported, dropped.contacts⟩
  · cases turn with
    | none =>
        obtain ⟨rounds, full, turned⟩ := ended
        have dropped := shows.contact turned
        rw [shows.history] at dropped
        exact ⟨_, .exhausted chat message rounds full, dropped, _, turned.contacts,
          turned.answers⟩
    | some messages =>
        obtain ⟨turn, rfl, rfl, turned⟩ := ended
        have kept := shows.contact turned
        rw [shows.history] at kept
        refine ⟨_, .answered chat turn message, ⟨?_, kept.failed, kept.reported, kept.contacts⟩, _,
          turned.contacts, turned.answers⟩
        rw [Chat.keep, transcript_snoc]
        exact congrArg (· ++ turn.messages) kept.history

/-- Every line is a move of the conversation that the user sees. -/
theorem Conversation.Shows.enter (consistent : world.Consistent) (shows : conversation.Shows chat)
    (line : Bytes) :
    ∃ next, chat.Moves line next ∧ (conversation.enter line).Shows next ∧
      ∃ contacts, (conversation.enter line).contacts = conversation.contacts ++ contacts ∧
        world.Answers conversation.host contacts (conversation.enter line).host := by
  rw [Conversation.enter]
  split
  · rename_i clear
    subst clear
    exact ⟨_, .clear chat, ⟨rfl, shows.failed, shows.reported, shows.contacts⟩, [],
      (List.append_nil _).symm, .refl⟩
  · rename_i other
    split
    · rename_i message
      exact shows.say consistent message
    · rename_i command
      exact ⟨chat, .command chat other command, shows, [], (List.append_nil _).symm, .refl⟩

/-- What a client knows, and that its calls are those the world answered. -/
structure Conversation.Stands (host : world.State) (conversation : Conversation world)
    (chat : Chat) : Prop extends Conversation.Shows conversation chat where
  answers : world.Answers host conversation.contacts conversation.host

theorem typed_refines (consistent : world.Consistent) (host : world.State) (lines : List Bytes) :
    ∃ chat, Path Chat.Moves {} lines chat ∧ (typed host lines).Stands host chat := by
  have start : Conversation.Stands host ({ host := host } : Conversation world) {} :=
    ⟨⟨rfl, by simp, rfl, rfl⟩, .refl⟩
  have simulates {conversation : Conversation world} {chat : Chat}
      (stands : conversation.Stands host chat) (line : Bytes) :
      ∃ next, chat.Moves line next ∧ (conversation.enter line).Stands host next := by
    obtain ⟨next, moved, shows, contacts, more, answers⟩ :=
      stands.toShows.enter consistent line
    exact ⟨next, moved, shows, more ▸ stands.answers.append answers⟩
  exact Path.simulate simulates start lines

end Refinement

section Accounting

variable {world : World}

/-- The messages since the conversation was last cleared. -/
def spoken (lines : List Bytes) : List Bytes :=
  lines.foldl (fun said line => if line = literal "/clear" then []
    else if isMessage line then said ++ [line] else said) []

theorem spoken_snoc (lines : List Bytes) (line : Bytes) :
    spoken (lines ++ [line]) = if line = literal "/clear" then []
      else if isMessage line then spoken lines ++ [line] else spoken lines := by
  rw [spoken, List.foldl_append]
  rfl

theorem isMessage_ne_clear {line : Bytes} (message : isMessage line) : line ≠ literal "/clear" := by
  rintro rfl
  revert message
  decide +kernel

theorem spoken_message {line : Bytes} (lines : List Bytes) (message : isMessage line) :
    spoken (lines ++ [line]) = spoken lines ++ [line] := by
  rw [spoken_snoc, if_neg (isMessage_ne_clear message), if_pos message]

/-- The dialogue is about messages of these lines, since they last cleared it. -/
def About (lines : List Bytes) (dialogue : List Turn) : Prop :=
  (dialogue.map fun turn => turn.user).Sublist (spoken lines)

/-- What is true of every conversation after some lines. -/
structure Chat.Accounted (lines : List Bytes) (chat : Chat) : Prop where
  users : About lines chat.dialogue
  grounded : Grounded (Heard chat.contacts) [] (transcript chat.dialogue)

variable {lines : List Bytes} {line : Bytes} {chat next : Chat}

theorem Chat.Accounted.contact (accounted : chat.Accounted lines) (message : isMessage line)
    (made : List Contact) : (chat.contact made).Accounted (lines ++ [line]) where
  users := by
    rw [About, spoken_message lines message]
    exact accounted.users.trans (List.sublist_append_left _ _)
  grounded := accounted.grounded.mono (List.subset_append_left _ _)

theorem Chat.Accounted.moves (accounted : chat.Accounted lines)
    (moved : chat.Moves line next) : next.Accounted (lines ++ [line]) := by
  cases moved with
  | clear => exact ⟨List.nil_sublist _, grounded_transcript_nil⟩
  | command _ other command =>
      refine ⟨?_, accounted.grounded⟩
      rw [About, spoken_snoc, if_neg other, if_neg command]
      exact accounted.users
  | answered _ turn message =>
      have kept := accounted.contact message (turn.contacts (transcript chat.dialogue))
      refine ⟨?_, ?_⟩
      · rw [About, spoken_message lines message, Chat.keep, List.map_append]
        exact accounted.users.append (List.Sublist.refl _)
      · rw [Chat.keep, transcript_snoc]
        exact kept.grounded.append (turn.grounded _ (List.subset_append_right _ _))
  | exhausted _ message rounds => exact accounted.contact message _
  | interrupted _ exchange message => exact accounted.contact message _
  | failed _ exchange message =>
      have dropped (made : List Contact) := accounted.contact message made
      exact ⟨(dropped []).users, (dropped _).grounded⟩

theorem Chat.accounted (path : Path Chat.Moves {} lines chat) : chat.Accounted lines := by
  refine Path.invariant (fun lines chat => chat.Accounted lines) ?_ ?_ path
  · exact ⟨List.nil_sublist _, grounded_transcript_nil⟩
  · exact fun accounted moved => accounted.moves moved

/-- What the model says in the history is what a call returned for what stands before it. -/
theorem converse_grounded (consistent : world.Consistent) (host : world.State)
    (lines : List Bytes) :
    Grounded (Heard (converse host lines).contacts) [] (converse host lines).history := by
  obtain ⟨chat, path, stands⟩ := typed_refines consistent host (entered lines)
  rw [converse, stands.history, stands.contacts]
  exact (Chat.accounted path).grounded

/-- The calls of a message: they go through some rounds and ask for one more reply, each time with
everything that was said before, and not more often than a turn may. -/
def Asks (history : List V1.ChatMessage) (line : Bytes) (made : List Contact) : Prop :=
  ∃ rounds : List Round, rounds.length < maxToolRounds ∧
    played (history ++ [userMessage line]) rounds <+: made ∧
      requested made = requests history line rounds ∧ (requested made).length ≤ maxToolRounds

theorem length_requests (history : List V1.ChatMessage) (user : Bytes) (rounds : List Round) :
    (requests history user rounds).length = rounds.length + 1 := by
  rw [requests, List.length_map, List.length_inits]

theorem asks_of_requested {history : List V1.ChatMessage} {rounds : List Round}
    {made : List Contact} (few : rounds.length < maxToolRounds)
    (asked : requested made = [ask (history ++ opening line rounds)]) :
    Asks history line (played (history ++ [userMessage line]) rounds ++ made) := by
  have all : requested (played (history ++ [userMessage line]) rounds ++ made) =
      requests history line rounds := by
    rw [requested_append, asked, requests_eq]
  refine ⟨rounds, few, List.prefix_append _ _, all, ?_⟩
  rw [all, length_requests]
  exact few

/-- The calls that a line costs. -/
theorem Chat.Moves.made (moved : chat.Moves line next) :
    ∃ made, next.contacts = chat.contacts ++ made ∧
      (isMessage line → Asks (transcript chat.dialogue) line made) ∧
        (¬ isMessage line → made = []) := by
  cases moved with
  | clear =>
      exact ⟨[], (List.append_nil _).symm, fun message => absurd rfl (isMessage_ne_clear message),
        fun _ => rfl⟩
  | command _ other command =>
      exact ⟨[], (List.append_nil _).symm, fun message => absurd message command, fun _ => rfl⟩
  | answered _ turn message =>
      exact ⟨_, rfl, fun _ => asks_of_requested turn.few rfl, fun command => absurd message command⟩
  | exhausted _ message rounds full =>
      refine ⟨_, rfl, fun _ => ?_, fun command => absurd message command⟩
      obtain rfl | ⟨front, last, rfl⟩ := List.eq_nil_or_concat rounds
      · cases full
      · rw [List.concat_eq_append, List.length_append] at full
        rw [List.concat_eq_append, played_snoc, ← append_opening]
        refine asks_of_requested (full ▸ Nat.lt_succ_self front.length) ?_
        rw [requested_chat, requested_readings]
  | interrupted _ exchange message broken =>
      exact ⟨_, rfl, fun _ => asks_of_requested exchange.few broken.requested,
        fun command => absurd message command⟩
  | failed _ exchange message broken =>
      exact ⟨_, rfl, fun _ => asks_of_requested exchange.few broken.requested,
        fun command => absurd message command⟩

end Accounting

end Llamad.Client
