import Llamad.Engine.CacheTransparency
import Llamad.Engine.Sections
import Llamad.Semantics.Mutex
import Llamad.Service.EmbedWhole

/-!
# Concurrent calls

gRPC runs every call on a thread of its own; what they share is the engine behind its
context mutex. Here a handler is cut at that mutex: what it decides before, its section,
and what it still does after. Whatever the order of their steps, the calls are answered as
if each had been handled alone, in the order in which they took the mutex.
-/

namespace Llamad

open Logical Semantics Program Session

variable {llama : Llama} {common : Common}

namespace LlamaService

variable (service : LlamaService common) (peer : Peer)

variable (llama common) in
/-- Where a call stands while it holds the context mutex. -/
inductive Control where
  | generating (request : Request llama (Call llama common)) (control : GenerateControl llama)
  | embedding (request : V1.EmbedRequest) (control : EmbedControl llama)

/-- What the engine's part of a call returns, with the batch where it is an embedding. -/
abbrev Product (llama : Llama) := GenerateResult ⊕ V1.EmbedRequest × EmbedResult llama.Logit

/-- The status of a call and what its client has of it. -/
abbrev Answer (llama : Llama) (common : Common) := Status × Receiver (Call llama common)

/-- One step of the engine's part of a call. -/
def sectionStep : Control llama common →
    Program (Session llama (Call llama common)) Exception (Control llama common ⊕ Product llama)
  | .generating request control => do
      let result ← generateStep service.config request control
      return Sum.map (.generating request) .inl result
  | .embedding request control => do
      let result ← embedStep (stillThere peer) control
      return Sum.map (.embedding request) (fun result => .inr (request, result)) result

/-- How much of the engine's part of a call is left at most. -/
def sectionMeasure : Control llama common → Session llama (Call llama common) → Nat
  | .generating _ control => generateMeasure service.config control
  | .embedding _ control => embedMeasure control

variable {service peer} in
theorem sectionStep_decreases {control next : Control llama common}
    {session after : Session llama (Call llama common)}
    (stepped : service.sectionStep peer control session = (.ok (.inl next), after)) :
    service.sectionMeasure next after < service.sectionMeasure control session := by
  cases control with
  | generating request control =>
      obtain ⟨result, middle, ran, ends⟩ := bind_eq_ok_iff.mp stepped
      cases result with
      | inl next =>
          cases ends
          exact generateStep_decreases ran
      | inr result => cases ends
  | embedding request control =>
      obtain ⟨result, middle, ran, ends⟩ := bind_eq_ok_iff.mp stepped
      cases result with
      | inl next =>
          cases ends
          exact embedStep_decreases ran
      | inr result => cases ends

/-- A conversation rendered, and the parser of its output. -/
def renderStream (format : ChatFormat common) (rng : common.Rng) (request : V1.ChatRequest) :
    Except Exception (RenderedChat common × Stream common) := do
  let rendered ← renderRequest format request
  let stream ← ChatFormat.stream rendered rng
  return (rendered, stream)

/-- What a handler does before the context mutex: an answer, or what the engine is asked. -/
def prepare : Rpc llama common →
    Answer llama common ⊕ Control llama common × Receiver (Call llama common)
  | .generate entropy request =>
      if service.config.embeddings then
        .inl (⟨.failedPrecondition, kEmbeddingModel⟩, ⟨{}, []⟩)
      else
        .inr (.generating ⟨entropy, request.prompt, Wire.samplingFromProto request.sampling,
          Call.onChunk peer, {}⟩ .entering, ⟨{}, []⟩)
  | .chat entropy rng request =>
      if request.messages.isEmpty then
        .inl (⟨.invalidArgument, literal "messages must not be empty"⟩, ⟨{}, []⟩)
      else if service.config.embeddings then
        .inl (⟨.failedPrecondition, kEmbeddingModel⟩, ⟨{}, []⟩)
      else
        match service.chatFormat with
        | none => .inl (⟨.failedPrecondition, service.chatUnavailableReason⟩, ⟨{}, []⟩)
        | some format =>
            match renderStream format rng request with
            | .error error => .inl (error.status, ⟨{}, []⟩)
            | .ok (rendered, stream) =>
                .inr (.generating ⟨entropy, rendered.prompt, chatParams request rendered,
                  Call.onChunk peer, { stream := some stream }⟩ .entering,
                  ⟨{ stream := some stream }, []⟩)
  | .embed request =>
      if request.inputs.isEmpty then
        .inl (⟨.invalidArgument, literal "inputs must not be empty"⟩, ⟨{}, []⟩)
      else if !service.config.embeddings then
        .inl (⟨.failedPrecondition,
          literal "the model is not an embedding model: its GGUF declares no pooling type"⟩,
          ⟨{}, []⟩)
      else
        match measure service.config llama 0 request.inputs with
        | .error error => .inl (error.status, ⟨{}, []⟩)
        | .ok tokenized => .inr (.embedding request (.entering tokenized), ⟨{}, []⟩)

/-- Run a program of the call of a receiver. -/
def onCall {Value : Type} (program : Program (Call llama common) Exception Value) :
    Program (Receiver (Call llama common)) Exception Value :=
  zoom Receiver.client (fun client receiver => { receiver with client := client }) program

/-- What a handler does after the context mutex. -/
def concludeBody : Except Exception (Product llama) →
    Program (Receiver (Call llama common)) Exception Status
  | .error error => throw error
  | .ok (.inl result) => do
      onCall (Call.conclude peer result)
      return Status.ok
  | .ok (.inr (request, result)) =>
      if result.embeddings.length < request.inputs.length then
        return ⟨.cancelled, literal "the client cancelled the call"⟩
      else do
        onCall (modify fun call => { call with response := Wire.embedResponse result })
        return Status.ok

/-- The calls of one service, each with its client, as calls under one mutex. -/
def system {Thread : Type} (calls : Thread → Peer × Rpc llama common) :
    Mutex.System Thread (Session llama (Call llama common)) (Impl llama)
      (Receiver (Call llama common)) (Control llama common) Exception (Product llama)
      (Answer llama common) where
  join impl receiver := ⟨impl, receiver⟩
  shared := Session.impl
  own := Session.receiver
  join_shared_own _ := rfl
  prepare thread := service.prepare (calls thread).1 (calls thread).2
  step thread := service.sectionStep (calls thread).1
  measure _ := service.sectionMeasure
  decreases := sectionStep_decreases
  conclude thread outcome receiver :=
    guarded (concludeBody (calls thread).1 outcome) receiver

section Alone

variable {Thread : Type} (calls : Thread → Peer × Rpc llama common)

/-- The section of a generating call is the engine's `generate`. -/
theorem whole_generating (thread : Thread) (request : Request llama (Call llama common))
    (session : Session llama (Call llama common)) :
    (service.system calls).whole thread (.generating request .entering) session =
      Prod.map (Except.map .inl) id
        (generate service.config request.entropy request.prompt request.params request.onChunk
          { session with impl := { session.impl with log := [] } }) := by
  rw [← generateSection_entering]
  exact loop_inject fun _ => rfl

/-- The section of an embedding call is the engine's loop over its inputs. -/
theorem whole_embedding (thread : Thread) (request : V1.EmbedRequest)
    (tokenized : List (List Token)) (session : Session llama (Call llama common)) :
    (service.system calls).whole thread (.embedding request (.entering tokenized)) session =
      Prod.map (Except.map fun result => .inr (request, result)) id
        (embedInputs (stillThere (calls thread).1) tokenized {}
          { session with impl := { session.impl with log := [] } }) := by
  rw [← embedSection_entering]
  exact loop_inject fun _ => rfl

/-- What becomes of a call that nobody interrupts. -/
def resume (thread : Thread) (impl : Impl llama) :
    Answer llama common ⊕ Control llama common × Receiver (Call llama common) →
      Status × Session llama (Call llama common)
  | .inl answer => (answer.1, ⟨{ impl with log := [] }, answer.2⟩)
  | .inr (control, receiver) =>
      let ended := (service.system calls).whole thread control ⟨impl, receiver⟩
      let concluded := guarded (concludeBody (calls thread).1 ended.1) ended.2.receiver
      (concluded.1, ⟨ended.2.impl, concluded.2⟩)

theorem guarded_of_ok {State Value : Type} {program : Program State Exception Value}
    {next : Value → Program State Exception Status} {state after : State} {value : Value}
    (returned : program state = (.ok value, after)) :
    guarded (program >>= next) state = guarded (next value) after := by
  rw [guarded, bind_of_ok returned, guarded]

theorem guarded_of_error {State Value : Type} {program : Program State Exception Value}
    {next : Value → Program State Exception Status} {state after : State} {error : Exception}
    (threw : program state = (.error error, after)) :
    guarded (program >>= next) state = (error.status, after) := by
  rw [guarded, bind_of_error threw]

variable {service peer} in
/-- Whatever a section returns or throws, a handler makes of it what the last part of the
handler makes of it. -/
theorem guarded_section {Value : Type} (wrap : Value → Product llama)
    {program : Program (Session llama (Call llama common)) Exception Value}
    {next : Value → Program (Session llama (Call llama common)) Exception Status}
    (concludes : ∀ value, next value = onReceiver (concludeBody peer (.ok (wrap value))))
    (session : Session llama (Call llama common)) :
    guarded (program >>= next) session =
      let ended := Prod.map (Except.map wrap) id (program session)
      let concluded := guarded (concludeBody peer ended.1) ended.2.receiver
      (concluded.1, ⟨ended.2.impl, concluded.2⟩) := by
  rcases ran : program session with ⟨error | value, after⟩
  · rw [guarded_of_error ran]
    rfl
  · rw [guarded_of_ok ran, concludes]
    simp only [guarded, onReceiver_apply, Prod.map, Except.map, id_eq]
    rcases concludeBody peer (.ok (wrap value)) after.receiver with ⟨error | status, receiver⟩
    · rfl
    · rfl

theorem conclude_generated (result : GenerateResult) :
    (do onClient (Call.conclude peer result); return Status.ok :
      Program (Session llama (Call llama common)) Exception Status) =
      onReceiver (concludeBody peer (.ok (.inl result))) := by
  funext session
  rw [concludeBody, bind_apply, onClient_apply, onReceiver_apply, bind_apply, onCall, zoom_apply]
  rcases Call.conclude peer result session.receiver.client with ⟨error | _, client⟩
  · rfl
  · rfl

theorem conclude_embedded (request : V1.EmbedRequest) (result : EmbedResult llama.Logit) :
    (if result.embeddings.length < request.inputs.length then
      return ⟨.cancelled, literal "the client cancelled the call"⟩
    else do
      onClient (modify fun call => { call with response := Wire.embedResponse result })
      return Status.ok :
      Program (Session llama (Call llama common)) Exception Status) =
      onReceiver (concludeBody peer (.ok (.inr (request, result)))) := by
  funext session
  rw [concludeBody]
  split
  · rfl
  · rfl

/-- What follows a generation in a handler is what follows it behind the mutex. -/
theorem guarded_streamGeneration (thread : Thread) (impl : Impl llama)
    (request : Request llama (Call llama common))
    (same : request.onChunk = Call.onChunk (calls thread).1)
    (receiver : Receiver (Call llama common)) :
    guarded (streamGeneration (calls thread).1 service.config request.entropy request.prompt
        request.params) ⟨{ impl with log := [] }, receiver⟩ =
      service.resume calls thread impl (.inr (.generating request .entering, receiver)) := by
  simp only [resume, whole_generating, streamGeneration, same]
  exact guarded_section .inl (conclude_generated (calls thread).1) _

/-- A handler is what it does before the mutex, its section and what it does after it. -/
theorem handle_eq_resume (thread : Thread) (impl : Impl llama) :
    service.handle (calls thread).1 (calls thread).2 impl =
      service.resume calls thread impl
        (service.prepare (calls thread).1 (calls thread).2) := by
  rw [handle, opened]
  cases (calls thread).2 with
  | generate entropy request =>
      rw [body, generateBody, prepare]
      split
      · rfl
      · exact service.guarded_streamGeneration calls thread impl
          ⟨entropy, request.prompt, _, _, {}⟩ rfl _
  | chat entropy rng request =>
      rw [body, chatBody, prepare]
      split
      · rfl
      split
      · rfl
      cases service.chatFormat with
      | none => rfl
      | some format =>
          dsimp only
          cases rendered : renderRequest format request with
          | error error =>
              have failed : renderStream format rng request = .error error := by
                simp only [renderStream, rendered, bind, Except.bind]
              rw [failed]
              exact guarded_of_error (attempt_apply _ _)
          | ok rendering =>
              refine (guarded_of_ok (attempt_apply _ _)).trans ?_
              cases streamed : ChatFormat.stream rendering rng with
              | error error =>
                  have failed : renderStream format rng request = .error error := by
                    simp only [renderStream, rendered, bind, Except.bind, streamed]
                  rw [failed]
                  exact guarded_of_error (attempt_apply _ _)
              | ok stream =>
                  have made : renderStream format rng request = .ok (rendering, stream) := by
                    simp only [renderStream, rendered, bind, Except.bind, streamed, pure,
                      Except.pure]
                  rw [made]
                  refine (guarded_of_ok (attempt_apply _ _)).trans ?_
                  refine (guarded_of_ok (onClient_apply _ _)).trans ?_
                  exact service.guarded_streamGeneration calls thread impl
                    ⟨entropy, rendering.prompt, chatParams request rendering, _,
                      { stream := some stream }⟩ rfl ⟨{ stream := some stream }, []⟩
  | embed request =>
      rw [body, embedBody, prepare]
      split
      · rfl
      split
      · rfl
      rename_i embeddings
      have serves : service.config.embeddings = true := by simpa using embeddings
      rw [embed, if_pos serves]
      cases measured : measure service.config llama 0 request.inputs with
      | error error =>
          exact guarded_of_error (bind_of_error (attempt_apply _ _))
      | ok tokenized =>
          refine (guarded_section (fun result => .inr (request, result))
            (conclude_embedded (calls thread).1 request) _).trans ?_
          simp only [resume, whole_embedding]
          rw [bind_of_ok (attempt_apply _ _)]
          rfl

/-- A call on its own answers as its handler does. -/
theorem alone_answer (thread : Thread) (impl : Impl llama) :
    ((service.system calls).alone thread impl).1 =
      ((service.handle (calls thread).1 (calls thread).2 impl).1,
        (service.handle (calls thread).1 (calls thread).2 impl).2.receiver) := by
  rw [handle_eq_resume]
  cases prepared : service.prepare (calls thread).1 (calls thread).2 with
  | inl answer => simp only [Mutex.System.alone, system, prepared, resume]
  | inr entry => simp only [Mutex.System.alone, system, prepared, resume]

/-- A call that takes the mutex leaves the engine as its handler does. -/
theorem alone_shared {thread : Thread} {entry : Control llama common × Receiver (Call llama common)}
    (prepared : service.prepare (calls thread).1 (calls thread).2 = .inr entry)
    (impl : Impl llama) :
    ((service.system calls).alone thread impl).2 =
      (service.handle (calls thread).1 (calls thread).2 impl).2.impl := by
  rw [handle_eq_resume]
  simp only [Mutex.System.alone, system, prepared, resume]

/-- The engine that handlers leave which run one after the other. -/
def engineAfterCalls (impl : Impl llama) (order : List Thread) : Impl llama :=
  order.foldl
    (fun impl thread => (service.handle (calls thread).1 (calls thread).2 impl).2.impl) impl

theorem serial_eq {order : List Thread}
    (entered : ∀ thread ∈ order, ∃ entry,
      service.prepare (calls thread).1 (calls thread).2 = .inr entry)
    (impl : Impl llama) :
    (service.system calls).serial impl order = service.engineAfterCalls calls impl order := by
  induction order generalizing impl with
  | nil => rfl
  | cons thread order inductionHypothesis =>
      rw [List.forall_mem_cons] at entered
      obtain ⟨⟨entry, prepared⟩, entered⟩ := entered
      rw [Mutex.System.serial, List.foldl_cons, service.alone_shared calls prepared]
      exact inductionHypothesis entered _

variable [DecidableEq Thread]

theorem consistent_run (impl : Impl llama) (schedule : List Thread) :
    (service.system calls).Consistent impl
      ((service.system calls).run { shared := impl } schedule) :=
  (Mutex.System.Consistent.start (service.system calls) impl).run schedule

/-- An answered call was handled after those that took the mutex before it, or took no mutex
and is answered the same by every engine. -/
theorem answered_handled {impl : Impl llama} {schedule : List Thread} {thread : Thread}
    {answer : Answer llama common}
    (answered : ((service.system calls).run { shared := impl } schedule).phase thread =
      .answered answer) :
    let order := ((service.system calls).run { shared := impl } schedule).order
    (∃ before after, order = before ++ thread :: after ∧
      let handled := service.handle (calls thread).1 (calls thread).2
        (service.engineAfterCalls calls impl before)
      answer = (handled.1, handled.2.receiver)) ∨
    thread ∉ order ∧ ∀ engine,
      let handled := service.handle (calls thread).1 (calls thread).2 engine
      answer = (handled.1, handled.2.receiver) := by
  intro order
  have consistent := service.consistent_run calls impl schedule
  have sound := consistent.sound thread
  rw [answered] at sound
  obtain ⟨before, after, ordered, same⟩ | ⟨outside, prepared⟩ := sound
  · refine .inl ⟨before, after, ordered, ?_⟩
    have entered : ∀ earlier ∈ before, ∃ entry,
        service.prepare (calls earlier).1 (calls earlier).2 = .inr entry :=
      fun earlier member => consistent.entered earlier (ordered ▸ List.mem_append_left _ member)
    rw [same, service.serial_eq calls entered, alone_answer]
  · refine .inr ⟨outside, fun engine => ?_⟩
    have answers := service.alone_answer calls thread engine
    rw [Mutex.System.alone, prepared] at answers
    exact answers

/-- Calls whose steps are interleaved in any order are answered as if they had been handled
one after the other in the order in which they took the context mutex; a call that took
none is answered as any engine would have had it answered. Who has had the mutex keeps
its place, and a call that was answered before another began stands in front of it. -/
theorem concurrent_serial (impl : Impl llama) (schedule : List Thread) :
    let final := (service.system calls).run { shared := impl } schedule
    final.order.Nodup ∧
    (final.holder = none → final.shared = service.engineAfterCalls calls impl final.order) ∧
    (∀ thread answer, final.phase thread = .answered answer →
      (∃ before after, final.order = before ++ thread :: after ∧
        let handled := service.handle (calls thread).1 (calls thread).2
          (service.engineAfterCalls calls impl before)
        answer = (handled.1, handled.2.receiver)) ∨
      thread ∉ final.order ∧ ∀ engine,
        let handled := service.handle (calls thread).1 (calls thread).2 engine
        answer = (handled.1, handled.2.receiver)) ∧
    ∀ front back, schedule = front ++ back →
      let past := (service.system calls).run { shared := impl } front
      past.order <+: final.order ∧
      ∀ earlier later answer, past.phase earlier = .answered answer →
        past.phase later = .called → earlier ∈ final.order → later ∈ final.order →
          [earlier, later].Sublist final.order := by
  intro final
  have consistent := service.consistent_run calls impl schedule
  refine ⟨consistent.nodup, fun free => ?_, fun thread answer => service.answered_handled calls, ?_⟩
  · rw [← service.serial_eq calls consistent.entered impl]
    exact consistent.free free
  · rintro front back rfl past
    simp only [final, Mutex.System.run_append]
    exact ⟨(service.system calls).order_grows _ back, fun earlier later answer answered unbegun =>
      (service.consistent_run calls impl front).answered_precedes answered unbegun back⟩

/-- No schedule that lets every call have its turn again and again leaves one of them
unanswered, whatever waits for the context mutex and whoever holds it. -/
theorem concurrent_answered (impl : Impl llama) (all : Finset Thread) (schedule : Nat → Thread)
    (scheduled : ∀ index, schedule index ∈ all)
    (fair : ∀ thread ∈ all, ∀ index, ∃ later, index ≤ later ∧ schedule later = thread) :
    ∃ count, ∀ thread ∈ all, ∃ answer,
      ((service.system calls).run { shared := impl }
        (Mutex.firstSteps schedule count)).phase thread = .answered answer :=
  (Mutex.System.Consistent.start (service.system calls) impl).all_answered
    (by rintro _ ⟨⟩) schedule scheduled fair

end Alone

/-- Two clients that ask for a completion at the same time, on a backend over bytes. -/
def twoCalls : Bool → Peer × Rpc (Llama.bytes fun _ => 256) Common.silent
  | true => (Peer.patient, .generate () { prompt := literal "ab" })
  | false => (Peer.patient, .generate () { prompt := literal "abc" })

/-- Whose turn it is when the two take turns. -/
def turns (index : Nat) : Bool := decide (index % 2 = 0)

theorem turns_fair :
    ∀ thread ∈ Finset.univ, ∀ index, ∃ later, index ≤ later ∧ turns later = thread := by
  intro thread _ index
  cases thread with
  | true => exact ⟨2 * index, by omega, by simp [turns]⟩
  | false => exact ⟨2 * index + 1, by omega, by simp [turns]⟩

/-- Two calls that take turns. -/
theorem concurrent_answered_turns :
    ∃ count,
      (∃ answer, (((small false).system twoCalls).run { shared := Impl.fresh () fun _ => (0 : Int) }
        (Mutex.firstSteps turns count)).phase true = .answered answer) ∧
      ∃ answer, (((small false).system twoCalls).run { shared := Impl.fresh () fun _ => (0 : Int) }
        (Mutex.firstSteps turns count)).phase false = .answered answer := by
  obtain ⟨count, answers⟩ := (small false).concurrent_answered twoCalls
    (Impl.fresh () fun _ => (0 : Int)) Finset.univ turns (fun index => Finset.mem_univ _) turns_fair
  exact ⟨count, answers true (Finset.mem_univ _), answers false (Finset.mem_univ _)⟩

end LlamaService

end Llamad
