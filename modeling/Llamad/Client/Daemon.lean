import Llamad.Client.Conversation
import Llamad.Service.StreamShape

/-!
# The daemon behind a conversation

The world of a client whose Chat calls are handled by the service. The engine is as the calls of
all its clients have left it, the handler sees any pattern of cancellations and broken writes,
and a stream may break for the client after any of its chunks.
-/

namespace Llamad

open Logical Semantics Program Session

/-- The chunks that the client of a call was sent. -/
def Event.delivered? : Event → Option V1.GenerateChunk
  | .wrote chunk true => some chunk
  | _ => none

/-- The chunks of a log that were sent. -/
def delivered (log : List Event) : List V1.GenerateChunk := log.filterMap Event.delivered?

/-- The name of a status code. -/
def StatusCode.name : StatusCode → Bytes
  | .ok => literal "OK"
  | .cancelled => literal "CANCELLED"
  | .invalidArgument => literal "INVALID_ARGUMENT"
  | .failedPrecondition => literal "FAILED_PRECONDITION"
  | .internal => literal "INTERNAL"

variable {llama : Llama} {common : Common}

section Log

variable {log : List Event}

theorem delivered_append (first second : List Event) :
    delivered (first ++ second) = delivered first ++ delivered second :=
  List.filterMap_append

/-- As long as nothing has ended a call, its client was sent everything. -/
theorem Unbroken.delivered (unbroken : Unbroken log) : delivered log = attempted log := by
  refine List.filterMap_congr fun event member => ?_
  have goesOn := unbroken event member
  cases event with
  | asked cancelled => rfl
  | wrote chunk accepted =>
      cases accepted with
      | true => rfl
      | false => exact absurd rfl goesOn

theorem mem_attempted_of_delivered {chunk : V1.GenerateChunk} (member : chunk ∈ delivered log) :
    chunk ∈ attempted log := by
  obtain ⟨event, logged, sent⟩ := List.mem_filterMap.mp member
  refine List.mem_filterMap.mpr ⟨event, logged, ?_⟩
  cases event with
  | asked cancelled => cases sent
  | wrote other accepted =>
      cases accepted with
      | true => exact sent
      | false => cases sent

end Log

/-- The log of a stream: its finish is the last thing in it, or it has none. -/
def Call.Logged (call : Call llama common) : Prop :=
  call.Halted ∨ ∃ result, call.Finished result

section Chat

variable {peer : Peer}

theorem streamGeneration_logged (config : EngineConfig) (entropy : llama.Entropy) (prompt : Bytes)
    (params : SamplingParams) :
    Triple (fun session : Session llama (Call llama common) => session.receiver.client.Open)
      (streamGeneration peer config entropy prompt params)
      (fun _ after => after.receiver.client.Logged)
      (fun _ after => after.receiver.client.Logged) := by
  refine .bind (((Call.callbackRule peer).generate entropy prompt params).consequence
    (fun _ _ => id) fun _ _ => .inl) fun result => .bind ?_ fun _ => .pure fun _ => id
  intro session either
  have concluded := @Call.conclude_triple _ _ peer result session.receiver.client either
  rw [onClient_apply]
  rcases ran : Call.conclude peer result session.receiver.client with ⟨error | done, client⟩ <;>
    rw [ran] at concluded
  · exact .inl concluded
  · exact concluded.elim (fun finished => .inr ⟨result, finished⟩) fun gone => .inl gone.1

variable (service : LlamaService common)

theorem chatBody_logged (entropy : llama.Entropy) (rng : common.Rng) (request : V1.ChatRequest) :
    Triple (fun session : Session llama (Call llama common) => session.receiver.client.Open)
      (service.chatBody peer entropy rng request)
      (fun _ after => after.receiver.client.Logged)
      (fun _ after => after.receiver.client.Logged) := by
  have answered (status : Status) :
      Triple (fun session : Session llama (Call llama common) => session.receiver.client.Open)
        (pure status : Program (Session llama (Call llama common)) Exception Status)
        (fun _ after => after.receiver.client.Logged)
        (fun _ after => after.receiver.client.Logged) :=
    .pure fun _ isOpen => .inl isOpen.halted
  have attempted {Value : Type} (result : Except Exception Value) :
      Triple (fun session : Session llama (Call llama common) => session.receiver.client.Open)
        (attempt result) (fun _ after => after.receiver.client.Open)
        (fun _ after => after.receiver.client.Logged) :=
    .attempt (fun _ _ isOpen _ => isOpen) fun _ _ isOpen _ => .inl isOpen.halted
  rw [LlamaService.chatBody]
  split
  · exact answered _
  split
  · exact answered _
  split
  · exact answered _
  refine .bind (attempted _) fun rendered => .bind (attempted _) fun stream => ?_
  have parsing : Triple
      (fun session : Session llama (Call llama common) => session.receiver.client.Open)
      (onClient (modify fun call => { call with stream := some stream }))
      (fun _ after => after.receiver.client.Open) (fun _ after => after.receiver.client.Logged) :=
    fun _ isOpen => isOpen
  exact .bind parsing fun _ => streamGeneration_logged _ _ _ _

/-- A handled Chat call leaves such a log. -/
theorem chat_logged (entropy : llama.Entropy) (rng : common.Rng) (request : V1.ChatRequest)
    (impl : Impl llama) :
    (service.handle peer (.chat entropy rng request) impl).2.receiver.client.Logged := by
  let session : Session llama (Call llama common) := LlamaService.opened impl
  have isOpen : session.receiver.client.Open :=
    ⟨by simp [session, Unbroken, LlamaService.opened],
      by simp [session, TextsOnly, attempted, LlamaService.opened], rfl⟩
  have logged := @chatBody_logged _ _ peer service entropy rng request session isOpen
  change Meets _ _ (service.body peer (.chat entropy rng request) session) at logged
  rw [LlamaService.handle, guarded]
  rcases ran : service.body peer (.chat entropy rng request) session with
    ⟨error | status, after⟩ <;> rw [ran] at logged <;> exact logged

end Chat

namespace Client

/-- What a call of Chat meets on its way. -/
structure Circumstances (llama : Llama) (common : Common) where
  peer : Peer
  entropy : llama.Entropy
  rng : common.Rng
  /-- The engine as the calls before have left it. -/
  impl : Impl llama
  /-- After how many chunks the stream breaks for the client, and what is raised then. -/
  breaks : Option (Nat × Raised) := none

/-- A handled call. -/
def Circumstances.answer (service : LlamaService common) (call : Circumstances llama common)
    (request : V1.ChatRequest) : Status × Session llama (Call llama common) :=
  service.handle call.peer (.chat call.entropy call.rng request) call.impl

/-- What the client is given of a call. -/
def Circumstances.reply (service : LlamaService common) (call : Circumstances llama common)
    (request : V1.ChatRequest) : Reply :=
  let answer := call.answer service request
  let chunks := delivered answer.2.receiver.client.log
  match call.breaks with
  | some (count, raised) => ⟨chunks.take count, some raised⟩
  | none =>
      if answer.1.code = .ok then ⟨chunks, none⟩
      else ⟨chunks, some (.rpcError answer.1.code.name answer.1.message)⟩

/-- The world of a client of the service, whose calls meet these circumstances one after the
other. -/
def served (service : LlamaService common) (calls : Nat → Circumstances llama common)
    (clock : Nat → Option Bytes) : World where
  State := Nat
  chat request done := ((calls done).reply service request, done + 1)
  now done := (clock done, done + 1)

/-- A call whose whole stream reached the client: some texts, none empty, and the finish. -/
structure Circumstances.Completes (service : LlamaService common)
    (call : Circumstances llama common) (request : V1.ChatRequest) (text : Bytes)
    (finish : V1.Finish) : Prop where
  ok : (call.answer service request).1.code = .ok
  unbroken : Unbroken (call.answer service request).2.receiver.client.log
  stream : ∃ texts : List Bytes, [] ∉ texts ∧ text = texts.flatten ∧
    attempted (call.answer service request).2.receiver.client.log =
      texts.map .text ++ [.finish finish]
  consistent : finish.Consistent

theorem foldl_hear_texts (texts : List Bytes) (heard : Bytes × Option V1.Finish) :
    (texts.map V1.GenerateChunk.text).foldl hear heard = (heard.1 ++ texts.flatten, heard.2) := by
  induction texts generalizing heard with
  | nil => simp
  | cons text texts inductionHypothesis =>
      rw [List.map_cons, List.foldl_cons, inductionHypothesis]
      simp [hear]

/-- A log without a finish gives the client none. -/
theorem foldl_hear_halted {halted : Call llama common} (texts : halted.Halted) :
    ((delivered halted.log).foldl hear ([], none)).2 = none := by
  have noFinish (chunk : V1.GenerateChunk) (member : chunk ∈ delivered halted.log) :
      ∃ text, chunk = .text text := by
    obtain ⟨text, same, _⟩ := texts.2 _ (mem_attempted_of_delivered member)
    exact ⟨text, same⟩
  generalize delivered halted.log = chunks at noFinish
  obtain ⟨texts, rfl⟩ : ∃ texts : List Bytes, chunks = texts.map .text := by
    induction chunks with
    | nil => exact ⟨[], rfl⟩
    | cons chunk chunks inductionHypothesis =>
        rw [List.forall_mem_cons] at noFinish
        obtain ⟨⟨text, rfl⟩, others⟩ := noFinish
        obtain ⟨texts, rfl⟩ := inductionHypothesis others
        exact ⟨text :: texts, rfl⟩
  rw [foldl_hear_texts]

variable {service : LlamaService common} {call : Circumstances llama common}
  {request : V1.ChatRequest} {text : Bytes} {finish : V1.Finish}

theorem outcome_eq_ok_iff {reply : Reply} :
    reply.outcome = .ok (text, finish) ↔
      reply.raises = none ∧ reply.chunks.foldl hear ([], none) = (text, some finish) := by
  rw [Reply.outcome]
  rcases reply.raises with _ | raised
  · rcases reply.chunks.foldl hear ([], none) with ⟨heard, _ | last⟩
    · simp
    · simp
  · simp

/-- A reply is complete only when its call was, and to its end. -/
theorem Circumstances.completes
    (replied : (call.reply service request).outcome = .ok (text, finish)) :
    call.Completes service request text finish := by
  obtain ⟨quiet, heard⟩ := outcome_eq_ok_iff.mp replied
  have logged : (call.answer service request).2.receiver.client.Logged :=
    chat_logged service call.entropy call.rng request call.impl
  rw [Circumstances.reply] at quiet heard
  split at quiet
  · cases quiet
  rename_i whole
  split at quiet
  · rename_i ok
    simp only [whole, ok, if_true] at heard
    obtain halted | ⟨result, front, toolCalls, accepted, log, unbroken, textsOnly⟩ := logged
    · exact absurd (foldl_hear_halted halted) (by simp [heard])
    · obtain ⟨last, isLast, consistent, _⟩ :=
        Wire.finishChunk_consistent result.reason result.stats toolCalls
      obtain ⟨texts, same, full⟩ := textsOnly.exists_texts
      rw [log, delivered_append, unbroken.delivered, same, isLast, List.foldl_append,
        foldl_hear_texts] at heard
      cases accepted with
      | false => cases heard
      | true =>
          cases heard
          refine ⟨ok, ?_, ⟨texts, full, by simp, ?_⟩, consistent⟩
          · rw [log]
            exact unbroken.snoc (by simp [Event.Ends])
          · rw [log, attempted_append, same, isLast, attempted_wrote]
  · cases quiet


variable {calls : Nat → Circumstances llama common} {clock : Nat → Option Bytes}

theorem served_consistent (calls : Nat → Circumstances llama common) (clock : Nat → Option Bytes) :
    (served service calls clock).Consistent := by
  intro request index text finish replied
  exact (Circumstances.completes replied).consistent

/-- The calls that the world of the service answers meet its circumstances one after the other. -/
theorem served_answers {contacts : List Contact} {done : (served service calls clock).State}
    (answers : (served service calls clock).Answers (0 : Nat) contacts done) :
    done = (contacts.length : Nat) ∧ ∀ (index : Nat) request reply,
      contacts[index]? = some (.chat request reply) →
        reply = (calls index).reply service request := by
  have next (front : List Contact) (last : Contact) (index : Nat)
      {request : V1.ChatRequest} {reply : Reply}
      (found : (front ++ [last])[index]? = some (.chat request reply)) :
      front[index]? = some (.chat request reply) ∨
        index = front.length ∧ last = .chat request reply := by
    obtain inside | last_ := Nat.lt_or_ge index front.length
    · rw [List.getElem?_append_left inside] at found
      exact .inl found
    · obtain ⟨within, _⟩ := List.getElem?_eq_some_iff.mp found
      rw [List.length_append, List.length_singleton] at within
      obtain rfl : index = front.length := by omega
      rw [List.getElem?_concat_length] at found
      exact .inr ⟨rfl, Option.some.inj found⟩
  induction answers with
  | refl => exact ⟨rfl, fun index request reply found => by cases found⟩
  | @chat front state _ asked inductionHypothesis =>
      obtain ⟨here, earlier⟩ := inductionHypothesis
      refine ⟨?_, fun index request reply found => ?_⟩
      · rw [List.length_append, ← here]
        rfl
      · obtain before | ⟨rfl, same⟩ := next _ _ index found
        · exact earlier index request reply before
        · cases same
          rw [← here]
          rfl
  | @now front state _ inductionHypothesis =>
      obtain ⟨here, earlier⟩ := inductionHypothesis
      refine ⟨?_, fun index request reply found => ?_⟩
      · rw [List.length_append, ← here]
        rfl
      · obtain before | ⟨_, same⟩ := next _ _ index found
        · exact earlier index request reply before
        · cases same

/-- A message of the model is the complete reply to a call that the client made on what stands
before it. -/
theorem converse_heard (service : LlamaService common) (calls : Nat → Circumstances llama common)
    (clock : Nat → Option Bytes) (lines : List Bytes) {front back : List V1.ChatMessage}
    {message : V1.ChatMessage}
    (same : (@converse (served service calls clock) (0 : Nat) lines).history =
      front ++ message :: back)
    (assistant : message.role = literal "assistant") :
    ∃ (index : Nat) (finish : V1.Finish),
      (@converse (served service calls clock) (0 : Nat) lines).contacts[index]? =
        some (.chat (ask front) ((calls index).reply service (ask front))) ∧
      (calls index).Completes service (ask front) message.content finish ∧
      message.toolCalls = finish.toolCalls := by
  have consistent := @served_consistent llama common service calls clock
  obtain ⟨reply, finish, member, outcome, toolCalls⟩ :=
    converse_grounded consistent _ lines front message back same assistant
  obtain ⟨index, found⟩ := List.mem_iff_getElem?.mp member
  obtain ⟨chat, _, stands⟩ := typed_refines consistent (0 : Nat) (entered lines)
  have replied := (served_answers stands.answers).2 index _ _ found
  rw [replied] at found outcome
  exact ⟨index, finish, found, Circumstances.completes outcome, toolCalls⟩

/-- A conversation with the service, whatever its handlers, its engine and its model do, however
other calls use the engine in between, and wherever streams break: the client shows a conversation
of whole turns, and every message of the model in its history is, text and tool calls, the whole
stream of a call that succeeded, which the client made on exactly what stands before that
message. -/
theorem converse_served (service : LlamaService common) (calls : Nat → Circumstances llama common)
    (clock : Nat → Option Bytes) (lines : List Bytes) :
    let world := served service calls clock
    let final := @converse world (0 : Nat) lines
    (∃ chat, Path Chat.Moves {} (entered lines) chat ∧ final.Shows chat ∧
      world.Answers (0 : Nat) chat.contacts final.host) ∧
    ∀ front message back, final.history = front ++ message :: back →
      message.role = literal "assistant" → ∃ (index : Nat) (finish : V1.Finish),
        final.contacts[index]? =
          some (.chat (ask front) ((calls index).reply service (ask front))) ∧
        (calls index).Completes service (ask front) message.content finish ∧
        message.toolCalls = finish.toolCalls := by
  intro world final
  have consistent := @served_consistent llama common service calls clock
  obtain ⟨chat, path, stands⟩ := typed_refines consistent (0 : Nat) (entered lines)
  exact ⟨⟨chat, path, stands.toShows, stands.contacts ▸ stands.answers⟩,
    fun front message back same assistant => converse_heard service calls clock lines same assistant⟩

end Client

end Llamad
