import Llamad.Client.Daemon
import Llamad.Engine.CallbackAgreement
import Llamad.Service.ChatDelivery

/-!
# From the sampled tokens to the conversation

A handler learns of its client only what the log of the call shows: a call whose log shows neither
a cancellation nor a refused write went as with a client that stays. Every message of the model in
the history of the chat client came by such a call, so what Chat delivers to a client that stays
says where its text and its tool calls come from.
-/

namespace Llamad

open Logical Semantics Program Session

variable {llama : Llama} {common : Common} {peer : Peer}

theorem unbroken_snoc_iff {log : List Event} {event : Event} :
    Unbroken (log ++ [event]) ↔ Unbroken log ∧ ¬ event.Ends :=
  ⟨fun unbroken => ⟨fun other member => unbroken other (by simp [member]),
    unbroken event (by simp)⟩, fun goesOn => goesOn.1.snoc goesOn.2⟩

namespace Call

/-- Nothing has ended the call. -/
def Intact (call : Call llama common) : Prop := Unbroken call.log

theorem isCancelled_agrees :
    Agrees (@Intact llama common) (isCancelled peer)
      (isCancelled Peer.patient) := by
  intro call intact
  have asked : isCancelled peer call = (.ok (peer.isCancelled call.log),
      { call with log := call.log ++ [.asked (peer.isCancelled call.log)] }) := rfl
  rw [asked] at intact ⊢
  obtain ⟨before, goesOn⟩ := unbroken_snoc_iff.mp intact
  have stays : peer.isCancelled call.log = false := by simpa [Event.Ends] using goesOn
  exact ⟨before, by rw [stays]; rfl⟩

theorem write_agrees (chunk : V1.GenerateChunk) :
    Agrees (@Intact llama common) (write peer chunk)
      (write Peer.patient chunk) := by
  intro call intact
  have wrote : write peer chunk call = (.ok (peer.write call.log chunk),
      { call with log := call.log ++ [.wrote chunk (peer.write call.log chunk)] }) := rfl
  rw [wrote] at intact ⊢
  obtain ⟨before, goesOn⟩ := unbroken_snoc_iff.mp intact
  have stays : peer.write call.log chunk = true := by simpa [Event.Ends] using goesOn
  exact ⟨before, by rw [stays]; rfl⟩

theorem setClientGone_agrees :
    Agrees (@Intact llama common) setClientGone setClientGone :=
  .refl fun _ => id

theorem onStream_agrees {Value : Type} (stream : Stream common)
    (program : Program (Stream common) Exception Value) :
    Agrees (@Intact llama common) (onStream stream program) (onStream stream program) :=
  .refl fun _ => id

theorem writeText_agrees (text : Bytes) :
    Agrees (@Intact llama common) (writeText peer text)
      (writeText Peer.patient text) := by
  refine .bind (write_agrees _) fun accepted => ?_
  cases accepted with
  | true => exact .pure _
  | false => exact .bind setClientGone_agrees fun _ => .pure _

theorem hear_agrees (text : Bytes) :
    Agrees (@Intact llama common) (hear peer text)
      (hear Peer.patient text) := by
  refine .bind isCancelled_agrees fun cancelled => ?_
  cases cancelled with
  | true => exact .bind setClientGone_agrees fun _ => .pure _
  | false =>
      refine .bind .get fun call => ?_
      cases call.stream with
      | none => exact writeText_agrees text
      | some stream =>
          refine .bind (onStream_agrees stream _) fun visible => ?_
          by_cases blank : visible.isEmpty = true
          · simp only [blank, if_true]
            exact .pure _
          · simp only [blank]
            exact writeText_agrees visible

theorem finishStream_agrees :
    Agrees (@Intact llama common) (finishStream peer)
      (finishStream Peer.patient) := by
  refine .bind .get fun call => ?_
  cases call.clientGone with
  | true => exact .pure _
  | false =>
      cases call.stream with
      | none => exact .pure _
      | some stream =>
          refine .bind (onStream_agrees stream _) fun final => ?_
          by_cases blank : final.contentTail.isEmpty = true
          · simp only [blank, if_true]
            exact .pure _
          · simp only [blank]
            exact .bind (writeText_agrees _) fun _ => .pure _

theorem conclude_agrees (result : GenerateResult) :
    Agrees (@Intact llama common) (conclude peer result)
      (conclude Peer.patient result) := by
  have noting : Agrees (@Intact llama common) (noteCancelled peer)
      (noteCancelled Peer.patient) := by
    refine .bind isCancelled_agrees fun cancelled => ?_
    cases cancelled with
    | true => exact setClientGone_agrees
    | false => exact .pure _
  refine .bind noting fun _ => .bind finishStream_agrees fun toolCalls => .bind .get fun call => ?_
  cases call.clientGone with
  | true => exact .pure _
  | false =>
      refine .bind (write_agrees _) fun accepted => ?_
      cases accepted with
      | true => exact .pure _
      | false => exact setClientGone_agrees

end Call

variable (service : LlamaService common)

theorem guarded_snd {State : Type} (body : Program State Exception Status) (state : State) :
    (guarded body state).2 = (body state).2 := by
  rw [guarded]
  rcases body state with ⟨error | status, after⟩ <;> rfl

/-- A Chat call that nothing ended went as with a client that stays. -/
theorem handle_chat_patient {entropy : llama.Entropy} {rng : common.Rng} {request : V1.ChatRequest}
    {impl : Impl llama}
    (unbroken : Unbroken
      (service.handle peer (.chat entropy rng request) impl).2.receiver.client.log) :
    service.handle peer (.chat entropy rng request) impl =
      service.handle Peer.patient (.chat entropy rng request) impl := by
  have agree : Agrees (fun session : Session llama (Call llama common) =>
        session.receiver.client.Intact)
      (service.chatBody peer entropy rng request)
      (service.chatBody Peer.patient entropy rng request) := by
    rw [LlamaService.chatBody, LlamaService.chatBody]
    split
    · exact .pure _
    split
    · exact .pure _
    cases service.chatFormat with
    | none => exact .pure _
    | some format =>
        refine .bind (.attempt _) fun rendered => .bind (.attempt _) fun stream =>
          .bind (.refl fun _ => id) fun _ => ?_
        exact .bind (generate_agrees Call.hear_agrees _ _ _) fun result =>
          .bind (.zoom (fun _ _ => rfl) (.zoom (fun _ _ => rfl) (Call.conclude_agrees result)))
            fun _ => .pure _
  have went : service.handle peer (.chat entropy rng request) impl =
      guarded (service.chatBody peer entropy rng request) (LlamaService.opened impl) := rfl
  rw [went, guarded_snd] at unbroken
  obtain ⟨_, same⟩ := agree (LlamaService.opened impl) unbroken
  rw [went, guarded, same]
  rfl

namespace Client

variable {service : LlamaService common} {call : Circumstances llama common}
  {request : V1.ChatRequest} {text : Bytes} {finish : V1.Finish}

/-- Where a reply comes from: the tokens that were sampled for the rendered request, their texts,
what the filter let through of these, and the parser's run over that. -/
def Circumstances.Delivers (service : LlamaService common) (call : Circumstances llama common)
    (request : V1.ChatRequest) (text : Bytes) (finish : V1.Finish) : Prop :=
  ∃ format rendered state resolved tokens pieces chunks result last texts,
    service.chatFormat = some format ∧
    LlamaService.renderRequest format request = .ok rendered ∧
    rendered.parseState = some state ∧ text = texts.flatten ∧
    ChatDelivers state call.rng (LlamaService.chatParams request rendered)
      (call.answer service request).2 resolved tokens pieces chunks result last texts finish

/-- A stream of texts and a finish says which texts and which finish. -/
theorem stream_unique {texts others : List Bytes} {last : V1.Finish}
    (same : texts.map V1.GenerateChunk.text ++ [.finish finish] =
      others.map V1.GenerateChunk.text ++ [.finish last]) : texts = others ∧ finish = last := by
  obtain ⟨front, back⟩ := List.append_inj' same rfl
  refine ⟨List.map_injective_iff.mpr (fun _ _ => V1.GenerateChunk.text.inj) front, ?_⟩
  cases back
  rfl

/-- A call whose whole stream reached the client delivered what Chat delivers to a client that
stays. -/
theorem Circumstances.Completes.delivers
    (standard : ∀ state : ParseState common, Stream.ThrowsStandard common state)
    (completes : call.Completes service request text finish) :
    call.Delivers service request text finish := by
  have patient : call.answer service request = service.handle Peer.patient
      (.chat call.entropy call.rng request) call.impl :=
    handle_chat_patient service completes.unbroken
  have ok := completes.ok
  rw [patient] at ok
  obtain ⟨format, rendered, state, resolved, tokens, pieces, chunks, result, last, texts, other,
    chosen, render, parser, delivers⟩ :=
    chat_text service Peer.patient_stays standard call.entropy call.rng request call.impl ok
  rw [← patient] at delivers
  obtain ⟨others, _, rfl, stream⟩ := completes.stream
  obtain ⟨rfl, rfl⟩ := stream_unique (stream.symm.trans delivers.stream)
  exact ⟨format, rendered, state, resolved, tokens, pieces, chunks, result, last, others, chosen,
    render, parser, rfl, delivers⟩

/-- A conversation with the service, whatever its engine and its model do, however other calls
use the engine in between and wherever streams break: every message of the model in the history of
the client is, text and tool calls, what a Chat call made of the tokens it sampled, and the client
made that call on exactly what stands before that message. -/
theorem converse_delivers
    (standard : ∀ state : ParseState common, Stream.ThrowsStandard common state)
    (service : LlamaService common) (calls : Nat → Circumstances llama common)
    (clock : Nat → Option Bytes) (lines : List Bytes) :
    let final := @converse (served service calls clock) (0 : Nat) lines
    ∀ front message back, final.history = front ++ message :: back →
      message.role = literal "assistant" → ∃ (index : Nat) (finish : V1.Finish),
        final.contacts[index]? =
          some (.chat (ask front) ((calls index).reply service (ask front))) ∧
        (calls index).Delivers service (ask front) message.content finish ∧
          message.toolCalls = finish.toolCalls := by
  intro final front message back same assistant
  obtain ⟨index, finish, asked, completes, toolCalls⟩ :=
    converse_heard service calls clock lines same assistant
  exact ⟨index, finish, asked, completes.delivers standard, toolCalls⟩

end Client

/-- A backend of four tokens that says `Hi` to everything. -/
def Llama.greeting : Llama :=
  { Llama.bytes fun tokens =>
      if tokens.getLastD 0 = 1 then 2 else if tokens.getLastD 0 = 2 then 3 else 1 with
    nVocab := 4
    isEog := fun token => token = 3
    tokenToPiece := fun token _ _ =>
      (1, if token = 1 then literal "H" else if token = 2 then literal "i" else literal "?") }

/-- A chat layer whose parser finds nothing but content. -/
def Common.echo : Common := Common.parsing (fun _ => true) fun text _ => .ok { content := text }

namespace Client

/-- Circumstances of a call that nothing disturbs. -/
def Circumstances.greeting : Circumstances Llama.greeting Common.echo :=
  ⟨Peer.patient, (), (), Impl.fresh () fun _ => (0 : Int), none⟩

/-- A service with room for the system message. -/
def roomy : LlamaService Common.echo where
  config := ⟨1013, 1013, false, 8, by decide, by decide⟩
  chatFormat := some ⟨(), false⟩

/-- The client after one message to that model. -/
def greeted : Conversation (served roomy (fun _ => .greeting) fun _ => none) :=
  @converse (served roomy (fun _ => .greeting) fun _ => none) (0 : Nat) [literal "Hello"]

/-- The reply to that message. -/
theorem converse_delivers_greeting :
    ∃ (front : List V1.ChatMessage) (message : V1.ChatMessage) (index : Nat) (finish : V1.Finish),
      greeted.history = front ++ [message] ∧ message.content = literal "Hi" ∧
      greeted.contacts[index]? =
        some (.chat (ask front) (Circumstances.greeting.reply roomy (ask front))) ∧
      Circumstances.greeting.Delivers roomy (ask front) message.content finish := by
  have nonempty : greeted.history ≠ [] := by decide +kernel
  have spoken : ∀ given : greeted.history ≠ [],
      (greeted.history.getLast given).role = literal "assistant" ∧
        (greeted.history.getLast given).content = literal "Hi" := by
    decide +kernel
  have split := (List.dropLast_append_getLast nonempty).symm
  obtain ⟨index, finish, asked, delivers, _⟩ := converse_delivers (fun _ _ _ threw => by cases threw)
    roomy (fun _ => .greeting) (fun _ => none) [literal "Hello"] greeted.history.dropLast
    (greeted.history.getLast nonempty) [] split (spoken nonempty).1
  exact ⟨_, _, index, finish, split, (spoken nonempty).2, asked, delivers⟩

end Client

end Llamad
