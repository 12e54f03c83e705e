import Llamad.Engine.CallbackOrder
import Llamad.Service.Rpc

/-!
# The shape of a stream

What `streamGeneration` attempts to write: texts, then at most one finish, and nothing
once the client is known to be gone. A call is `Open` while nothing has ended it and
`Gone` from then on; every step of a handler keeps it in one of the two until the finish
is written.
-/

namespace Llamad

open Logical Semantics Program Session

/-- From this event on the client is known to be gone. -/
def Event.Ends : Event → Prop
  | .asked cancelled => cancelled = true
  | .wrote _ accepted => accepted = false

/-- The chunk of an attempt to write one. -/
def Event.chunk? : Event → Option V1.GenerateChunk
  | .asked _ => none
  | .wrote chunk _ => some chunk

/-- The chunks a handler attempted to write, in order. -/
def attempted (log : List Event) : List V1.GenerateChunk := log.filterMap Event.chunk?

/-- Neither a cancellation was observed nor a write failed. -/
def Unbroken (log : List Event) : Prop := ∀ event ∈ log, ¬ event.Ends

/-- Only texts were attempted, none of them empty. -/
def TextsOnly (log : List Event) : Prop :=
  ∀ chunk ∈ attempted log, ∃ text, chunk = .text text ∧ text ≠ []

/-- Nothing was attempted once the client was known to be gone. -/
def Silent (log : List Event) : Prop :=
  ∀ before event after, log = before ++ event :: after → event.Ends → attempted after = []

section Log

variable {log : List Event} {event : Event}

@[simp] theorem attempted_append (first second : List Event) :
    attempted (first ++ second) = attempted first ++ attempted second :=
  List.filterMap_append

@[simp] theorem attempted_asked (cancelled : Bool) : attempted [.asked cancelled] = [] := rfl

@[simp] theorem attempted_wrote (chunk : V1.GenerateChunk) (accepted : Bool) :
    attempted [.wrote chunk accepted] = [chunk] := rfl

theorem Unbroken.snoc (unbroken : Unbroken log) (goesOn : ¬ event.Ends) :
    Unbroken (log ++ [event]) := by
  intro other member
  rw [List.mem_append, List.mem_singleton] at member
  obtain member | rfl := member
  · exact unbroken other member
  · exact goesOn

theorem not_unbroken_snoc (ends : event.Ends) : ¬ Unbroken (log ++ [event]) :=
  fun unbroken => unbroken event (by simp) ends

theorem Unbroken.silent (unbroken : Unbroken log) : Silent log := by
  rintro before event after rfl ends
  exact absurd ends (unbroken event (by simp))

theorem Unbroken.silent_snoc (unbroken : Unbroken log) : Silent (log ++ [event]) := by
  intro before other after same ends
  obtain ⟨rfl, rfl, rfl⟩ | ⟨earlier, rfl, rfl⟩ := append_singleton_eq_cut same
  · rfl
  · exact absurd ends (unbroken other (by simp))

theorem Silent.snoc_asked (silent : Silent log) (cancelled : Bool) :
    Silent (log ++ [.asked cancelled]) := by
  intro before other after same ends
  obtain ⟨rfl, rfl, rfl⟩ | ⟨earlier, rfl, rfl⟩ := append_singleton_eq_cut same
  · rfl
  · rw [attempted_append, attempted_asked, List.append_nil]
    exact silent before other earlier rfl ends

theorem TextsOnly.snoc_asked (texts : TextsOnly log) (cancelled : Bool) :
    TextsOnly (log ++ [.asked cancelled]) := by
  rw [TextsOnly, attempted_append, attempted_asked, List.append_nil]
  exact texts

theorem TextsOnly.snoc_text (texts : TextsOnly log) {text : Bytes} (nonempty : text ≠ [])
    (accepted : Bool) : TextsOnly (log ++ [.wrote (.text text) accepted]) := by
  rw [TextsOnly, attempted_append, attempted_wrote]
  intro chunk member
  rw [List.mem_append, List.mem_singleton] at member
  obtain member | rfl := member
  · exact texts chunk member
  · exact ⟨text, rfl, nonempty⟩

end Log

variable {llama : Llama} {common : Common} {peer : Peer}

namespace Call

/-- Nothing has ended the call and only texts were written. -/
def Open (call : Call llama common) : Prop :=
  Unbroken call.log ∧ TextsOnly call.log ∧ call.clientGone = false

/-- No finish was written, and nothing once the client was known to be gone. -/
def Halted (call : Call llama common) : Prop := Silent call.log ∧ TextsOnly call.log

/-- The client is gone and the handler knows it. -/
def Gone (call : Call llama common) : Prop :=
  call.Halted ∧ ¬ Unbroken call.log ∧ call.clientGone = true

/-- The call is going on or known to be over. -/
def OpenOrGone (call : Call llama common) : Prop := call.Open ∨ call.Gone

theorem Open.halted {call : Call llama common} (isOpen : call.Open) : call.Halted :=
  ⟨isOpen.1.silent, isOpen.2.1⟩

theorem OpenOrGone.halted {call : Call llama common} (either : call.OpenOrGone) : call.Halted :=
  either.elim Open.halted And.left

/-- Asking about a cancellation and noting the answer. -/
theorem isCancelled_triple :
    Triple (fun call : Call llama common => call.Open) (isCancelled peer)
      (fun cancelled call =>
        if cancelled then call.Halted ∧ ¬ Unbroken call.log else call.Open)
      (fun _ => Halted) := by
  rintro call ⟨unbroken, texts, here⟩
  change Meets _ _ (.ok (peer.isCancelled call.log),
    { call with log := call.log ++ [Event.asked (peer.isCancelled call.log)] })
  cases answer : peer.isCancelled call.log with
  | true => exact ⟨⟨unbroken.silent_snoc, texts.snoc_asked _⟩, not_unbroken_snoc rfl⟩
  | false => exact ⟨unbroken.snoc (by simp [Event.Ends]), texts.snoc_asked _, here⟩

theorem setClientGone_triple {fail : Exception → Call llama common → Prop} :
    Triple (fun call : Call llama common => call.Halted ∧ ¬ Unbroken call.log) setClientGone
      (fun _ => Gone) fail :=
  .modify fun _ halts => ⟨halts.1, halts.2, rfl⟩

/-- Writing a text to a client that was there. -/
theorem writeText_triple {text : Bytes} (nonempty : text ≠ []) :
    Triple (fun call : Call llama common => call.Open) (writeText peer text)
      (fun accepted call => if accepted then call.Open else call.Gone)
      (fun _ => Halted) := by
  have writing : Triple (fun call : Call llama common => call.Open) (write peer (.text text))
      (fun accepted call =>
        if accepted then call.Open else call.Halted ∧ ¬ Unbroken call.log) (fun _ => Halted) := by
    rintro call ⟨unbroken, texts, here⟩
    change Meets _ _ (.ok (peer.write call.log (.text text)),
      { call with log := call.log ++ [Event.wrote (.text text) (peer.write call.log (.text text))] })
    cases answer : peer.write call.log (.text text) with
    | true => exact ⟨unbroken.snoc (by simp [Event.Ends]), texts.snoc_text nonempty _, here⟩
    | false => exact ⟨⟨unbroken.silent_snoc, texts.snoc_text nonempty _⟩, not_unbroken_snoc rfl⟩
  refine .bind writing fun accepted => ?_
  cases accepted with
  | true => exact .pure fun call isOpen => isOpen
  | false => exact .bind setClientGone_triple fun _ => .pure fun call gone => gone

/-- The parser changes nothing the client sees. -/
theorem onStream_triple {Value : Type} (stream : Stream common)
    (program : Program (Stream common) Exception Value) :
    Triple (fun call : Call llama common => call.Open) (onStream stream program) (fun _ => Open)
      (fun _ => Halted) := by
  intro call isOpen
  change Meets _ _ ((program stream).1, { call with stream := some (program stream).2 })
  cases (program stream).1 with
  | ok value => exact isOpen
  | error error => exact isOpen.halted

/-- One piece of generated text leaves the call open or the client gone. -/
theorem hear_triple {text : Bytes} (nonempty : text ≠ []) :
    Triple (fun call : Call llama common => call.Open) (hear peer text)
      (fun accepted call => if accepted then call.Open else call.Gone)
      (fun _ => Halted) := by
  refine .bind isCancelled_triple fun cancelled => ?_
  cases cancelled with
  | true => exact .bind setClientGone_triple fun _ => .pure fun call gone => gone
  | false =>
      have reading : Triple (fun call : Call llama common => call.Open) get (fun _ => Open)
          (fun (_ : Exception) => Halted) := .get fun _ => id
      refine .bind reading fun call => ?_
      cases call.stream with
      | none => exact writeText_triple nonempty
      | some stream =>
          refine .bind (onStream_triple stream _) fun visible => ?_
          by_cases blank : visible = []
          · simp only [blank, List.isEmpty_nil, if_true]
            exact .pure fun call isOpen => isOpen
          · simp only [List.isEmpty_iff, blank, if_false]
            exact writeText_triple blank

/-- The final parse and its text. -/
theorem finishStream_triple :
    Triple (fun call : Call llama common => call.OpenOrGone) (finishStream peer)
      (fun _ => OpenOrGone) (fun _ => Halted) := by
  intro call either
  simp only [finishStream, bind_apply, get_apply]
  cases gone : call.clientGone with
  | true => exact either
  | false =>
      cases call.stream with
      | none => exact either
      | some stream =>
          have isOpen : call.Open := either.resolve_right fun halts => by simp [halts.2.2] at gone
          refine Triple.bind (onStream_triple stream Stream.finish) (fun final => ?_) call isOpen
          by_cases blank : final.contentTail = []
          · simp only [blank, List.isEmpty_nil, if_true]
            exact .pure fun call isOpen => .inl isOpen
          · simp only [List.isEmpty_iff, blank, if_false]
            refine .bind (writeText_triple blank) fun accepted => .pure fun call holds => ?_
            cases accepted with
            | true => exact .inl holds
            | false => exact .inr holds

/-- The finish was the last thing written, to a client that was there. -/
def Finished (result : GenerateResult) (call : Call llama common) : Prop :=
  ∃ front toolCalls accepted,
    call.log = front ++ [.wrote (Wire.finishChunk result.reason result.stats toolCalls) accepted] ∧
      Unbroken front ∧ TextsOnly front

/-- The last chunk. -/
theorem writeFinish_triple (result : GenerateResult) (toolCalls : List ToolCall) :
    Triple (fun call : Call llama common => call.OpenOrGone) (writeFinish peer result toolCalls)
      (fun _ call => call.Finished result ∨ call.Gone) (fun _ => Halted) := by
  intro call either
  simp only [writeFinish, bind_apply, get_apply]
  split
  · rename_i gone
    exact .inr (either.resolve_left fun isOpen => by simp [isOpen.2.2] at gone)
  · rename_i here
    have isOpen : call.Open := either.resolve_right fun gone => here gone.2.2
    simp only [write, bind_apply, get_apply, modify_apply, pure_apply]
    split
    · exact .inl ⟨_, _, _, rfl, isOpen.1, isOpen.2.1⟩
    · exact .inl ⟨_, _, _, rfl, isOpen.1, isOpen.2.1⟩

theorem noteCancelled_triple :
    Triple (fun call : Call llama common => call.OpenOrGone) (noteCancelled peer)
      (fun _ => OpenOrGone) (fun _ => Halted) := by
  rintro call (isOpen | gone)
  · refine Triple.bind isCancelled_triple (fun cancelled => ?_) call isOpen
    cases cancelled with
    | true => exact setClientGone_triple.consequence (fun _ _ => .inr) fun _ _ => id
    | false => exact .pure fun call isOpen => .inl isOpen
  · obtain ⟨⟨silent, texts⟩, broken, known⟩ := gone
    have stays : ¬ Unbroken (call.log ++ [Event.asked (peer.isCancelled call.log)]) :=
      fun unbroken => broken fun event member => unbroken event (by simp [member])
    simp only [noteCancelled, isCancelled, bind_apply, get_apply, modify_apply, pure_apply]
    split
    · exact .inr ⟨⟨silent.snoc_asked _, texts.snoc_asked _⟩, stays, rfl⟩
    · exact .inr ⟨⟨silent.snoc_asked _, texts.snoc_asked _⟩, stays, known⟩

/-- Everything behind the engine's part of a stream. -/
theorem conclude_triple (result : GenerateResult) :
    Triple (fun call : Call llama common => call.OpenOrGone) (conclude peer result)
      (fun _ call => call.Finished result ∨ call.Gone) (fun _ => Halted) :=
  .bind noteCancelled_triple fun _ => .bind finishStream_triple fun _ =>
    writeFinish_triple result _

end Call

/-- The handler's callback keeps a call open or the client gone. -/
theorem Call.callbackRule (peer : Peer) :
    CallbackRule (Call.onChunk peer) (fun receiver : Receiver (Call llama common) =>
      receiver.client.Open) (fun receiver => receiver.client.Gone)
      (fun receiver => receiver.client.Halted) := by
  refine ⟨fun chunk receiver isOpen => ?_, fun receiver isOpen => isOpen.halted⟩
  by_cases blank : chunk = []
  · simpa [StreamFilter.deliver, blank] using isOpen
  · have met := @Call.hear_triple _ _ peer chunk blank receiver.client isOpen
    simp only [StreamFilter.deliver, blank, if_false, Call.onChunk]
    rcases heard : Call.hear peer chunk receiver.client with ⟨error | (_ | _), client⟩
    · rw [heard] at met
      exact met
    · rw [heard] at met
      exact met
    · rw [heard] at met
      exact met

section Shape

/-- Texts that are not empty, then at most one finish, and nothing after a failed write or
an observed cancellation. -/
structure StreamShape (log : List Event) : Prop where
  chunks : ∃ (texts : List Bytes) (last : Option V1.Finish),
    attempted log = texts.map .text ++ (last.map .finish).toList ∧ [] ∉ texts
  silent : Silent log

variable {log : List Event}

theorem TextsOnly.exists_texts (textsOnly : TextsOnly log) :
    ∃ texts : List Bytes, attempted log = texts.map .text ∧ [] ∉ texts := by
  unfold TextsOnly at textsOnly
  generalize attempted log = chunks at textsOnly
  induction chunks with
  | nil => exact ⟨[], rfl, List.not_mem_nil⟩
  | cons chunk rest inductionHypothesis =>
      rw [List.forall_mem_cons] at textsOnly
      obtain ⟨⟨text, rfl, nonempty⟩, others⟩ := textsOnly
      obtain ⟨texts, rfl, full⟩ := inductionHypothesis others
      exact ⟨text :: texts, rfl, by simp [full, Ne.symm nonempty]⟩

theorem TextsOnly.no_finish (textsOnly : TextsOnly log) (finish : V1.Finish) :
    .finish finish ∉ attempted log := by
  intro member
  obtain ⟨text, other, _⟩ := textsOnly _ member
  cases other

theorem Call.Halted.shape {call : Call llama common} (halted : call.Halted) :
    StreamShape call.log := by
  obtain ⟨texts, same, full⟩ := halted.2.exists_texts
  exact ⟨⟨texts, none, by simpa using same, full⟩, halted.1⟩

/-- A log that ends with the finish of a result. -/
theorem Call.Finished.exists_finish {call : Call llama common} {result : GenerateResult}
    (finished : call.Finished result) :
    ∃ (texts : List Bytes) (finish : V1.Finish) (toolCalls : List ToolCall),
      attempted call.log = texts.map .text ++ [.finish finish] ∧
      [] ∉ texts ∧ Wire.finishChunk result.reason result.stats toolCalls = .finish finish ∧
      Silent call.log := by
  obtain ⟨front, toolCalls, accepted, logged, unbroken, textsOnly⟩ := finished
  obtain ⟨texts, same, full⟩ := textsOnly.exists_texts
  obtain ⟨finish, isFinish, _⟩ := Wire.finishChunk_consistent result.reason result.stats toolCalls
  refine ⟨texts, finish, toolCalls, ?_, full, isFinish, logged ▸ unbroken.silent_snoc⟩
  rw [logged, attempted_append, same, attempted_wrote, isFinish]

end Shape

/-- What the log of a stream has to satisfy, given what the engine returned or threw and
whether the handler returned. -/
structure StreamContract (generated : Except Exception GenerateResult) (returned : Prop)
    (log : List Event) : Prop extends StreamShape log where
  finishes : returned → Unbroken log → ∃ (texts : List Bytes) (finish : V1.Finish),
    attempted log = texts.map .text ++ [.finish finish]
  threwSilently : ∀ error, generated = .error error →
    ∀ finish : V1.Finish, .finish finish ∉ attempted log
  finishOf : ∀ finish : V1.Finish, .finish finish ∈ attempted log → finish.Consistent ∧
    (finish.reason = .toolCalls → ∃ result, generated = .ok result ∧
      (result.reason = .eog ∨ result.reason = .stop))

theorem StreamContract.of_halted {generated : Except Exception GenerateResult} {returned : Prop}
    {call : Call llama common} (halted : call.Halted)
    (finishes : returned → ¬ Unbroken call.log) :
    StreamContract generated returned call.log where
  toStreamShape := halted.shape
  finishes ran unbroken := absurd unbroken (finishes ran)
  threwSilently _ _ finish := halted.2.no_finish finish
  finishOf finish member := absurd member (halted.2.no_finish finish)

theorem StreamContract.of_finished {result : GenerateResult} {returned : Prop}
    {call : Call llama common} (finished : call.Finished result) :
    StreamContract (.ok result) returned call.log := by
  obtain ⟨texts, finish, toolCalls, same, full, isFinish, silent⟩ := finished.exists_finish
  refine ⟨⟨⟨texts, some finish, same, full⟩, silent⟩, fun _ _ => ⟨texts, finish, same⟩, nofun, ?_⟩
  intro other member
  rw [same, List.mem_append, List.mem_singleton] at member
  obtain member | member := member
  · simp at member
  · obtain ⟨made, isMade, consistent, completed⟩ :=
      Wire.finishChunk_consistent result.reason result.stats toolCalls
    rw [isFinish] at isMade
    cases isMade
    cases member
    exact ⟨consistent, fun called => ⟨result, rfl, (completed called).2⟩⟩

/-- After the engine has returned, the outcome of a stream is that of its conclusion. -/
theorem streamGeneration_of_ok {config : EngineConfig} {entropy : llama.Entropy} {prompt : Bytes}
    {params : SamplingParams} {session after : Session llama (Call llama common)}
    {result : GenerateResult}
    (ran : generate config entropy prompt params (Call.onChunk peer) session =
      (.ok result, after)) :
    streamGeneration peer config entropy prompt params session =
      ((Call.conclude peer result after.receiver.client).1.map fun _ => Status.ok,
        ⟨after.impl, { after.receiver with
          client := (Call.conclude peer result after.receiver.client).2 }⟩) := by
  rw [streamGeneration, bind_of_ok ran, bind_apply, onClient_apply]
  cases (Call.conclude peer result after.receiver.client).1 with
  | ok done => rfl
  | error error => rfl

/-- Every run of a Generate or Chat stream, whatever the engine, the parser and the peer do:
the engine keeps to the order of its callback, the log satisfies the contract, and once the
engine has returned the handler does, unless a parser throws what is no `std::exception`. -/
theorem streamGeneration_contract (peer : Peer) (config : EngineConfig) (entropy : llama.Entropy)
    (prompt : Bytes) (params : SamplingParams) (stream : Option (Stream common))
    (impl : Impl llama) :
    let session : Session llama (Call llama common) := ⟨impl, ⟨{ stream := stream }, []⟩⟩
    let generated := (generate config entropy prompt params (Call.onChunk peer) session).1
    let outcome := streamGeneration peer config entropy prompt params session
    outcome.2.receiver.Obeyed ∧
      StreamContract generated (∃ status, outcome.1 = .ok status)
        outcome.2.receiver.client.log ∧
      ∀ result, generated = .ok result →
        outcome.1 = .ok Status.ok ∨ ∃ state, ¬ Stream.ThrowsStandard common state := by
  intro session generated outcome
  have isOpen : session.receiver.client.Open := by
    refine ⟨fun event member => ?_, fun chunk member => ?_, rfl⟩
    · exact absurd member List.not_mem_nil
    · exact absurd member List.not_mem_nil
  have shaped : Meets (fun _ after => after.receiver.client.OpenOrGone)
      (fun _ after => after.receiver.client.Halted)
      (generate config entropy prompt params (Call.onChunk peer) session) :=
    (Call.callbackRule peer).generate entropy prompt params session isOpen
  have obeyed : Meets
      (fun _ after => (∀ delivery ∈ after.receiver.deliveries,
        delivery.text ≠ [] ∧ delivery.answer = some true) ∨ after.receiver.Obeyed)
      (fun _ after => after.receiver.Obeyed)
      (generate config entropy prompt params (Call.onChunk peer) session) :=
    (CallbackRule.obeyed (Call.onChunk peer)).generate entropy prompt params session
      (by simp [session])
  match ran : generate config entropy prompt params (Call.onChunk peer) session with
  | (.error error, after) =>
      have returned : outcome = (.error error, after) := bind_of_error ran
      have threw : generated = .error error := congrArg Prod.fst ran
      rw [ran] at shaped obeyed
      rw [returned]
      refine ⟨obeyed, .of_halted shaped ?_, fun result given => ?_⟩
      · rintro ⟨status, ⟨⟩⟩
      · rw [threw] at given
        cases given
  | (.ok result, after) =>
      have result_eq : generated = .ok result := congrArg Prod.fst ran
      rw [ran] at shaped obeyed
      have concluded := @Call.conclude_triple _ _ peer result after.receiver.client shaped
      have inOrder : after.receiver.Obeyed :=
        obeyed.elim ((CallbackRule.obeyed (Call.onChunk peer)).throws _) id
      rw [show outcome = _ from streamGeneration_of_ok ran, result_eq]
      refine ⟨inOrder, ?_⟩
      match last : Call.conclude peer result after.receiver.client with
      | (.error error, client) =>
          rw [last] at concluded
          refine ⟨.of_halted concluded ?_, fun _ _ => ?_⟩
          · rintro ⟨status, ⟨⟩⟩
          · exact .inr (Call.conclude_throws result _ error client last).2
      | (.ok _, client) =>
          rw [last] at concluded
          refine ⟨?_, fun _ _ => .inl rfl⟩
          obtain finished | gone := concluded
          · exact .of_finished finished
          · exact .of_halted gone.1 fun _ => gone.2.1

/-- A chat layer that shows what it is given, and finds a call in a text that is whole. -/
def Common.calling : Common := Common.parsing (fun _ => true) fun text isPartial =>
  .ok {
    content := text
    toolCalls := if isPartial then [] else [{ name := literal "now", arguments := [] }] }

/-- A backend that says one letter behind a prompt of one. -/
def Llama.letter : Llama := Llama.bytes fun tokens => if tokens.length < 2 then 0x62 else 256

/-- A Chat call of that model. -/
def callingSession : Session Llama.letter (Call Llama.letter Common.calling) :=
  ⟨Impl.fresh () fun _ => (0 : Int),
    ⟨{ stream := some (Stream.fresh (Common.parsingState _ _) ()) }, []⟩⟩

/-- Room for the letter. -/
def callingConfig : EngineConfig := ⟨1019, 1019, false, 0, by decide, by decide⟩

/-- A client that is there. -/
def Peer.there : Peer := ⟨fun _ => false, fun _ _ => true⟩

/-- What the call passes to the client. -/
def callingLog : List Event :=
  (streamGeneration Peer.there callingConfig () [0x61] { temperature := 0 }
    callingSession).2.receiver.client.log

/-- Its finish, with the call. -/
def callingFinish : V1.Finish where
  reason := .toolCalls
  stats := ⟨1, 1, 0⟩
  toolCalls := [⟨[], literal "now", literal "\x7b\x7d"⟩]

/-- The stream of the call is the letter and the finish. -/
theorem streamGeneration_contract_calling :
    (∃ (texts : List Bytes) (finish : V1.Finish),
      attempted callingLog = texts.map .text ++ [.finish finish]) ∧
      attempted callingLog = [.text [0x62], .finish callingFinish] := by
  have logged : callingLog = [.asked false, .wrote (.text [0x62]) true, .asked false,
      .wrote (.finish callingFinish) true] := by
    decide +kernel
  have unbroken : Unbroken callingLog := by
    rw [logged]
    simp [Unbroken, Event.Ends]
  refine ⟨?_, by rw [logged]; rfl⟩
  obtain ⟨_, contract, returns⟩ := streamGeneration_contract Peer.there callingConfig ()
    [0x61] { temperature := 0 } callingSession.receiver.client.stream callingSession.impl
  have ended : (generate callingConfig () [0x61] { temperature := 0 } (Call.onChunk Peer.there)
      callingSession).1.toBool = true := by
    decide +kernel
  rcases generated : (generate callingConfig () [0x61] { temperature := 0 }
      (Call.onChunk Peer.there) callingSession).1 with error | result
  · rw [generated] at ended
    cases ended
  · obtain returned | ⟨state, throws⟩ := returns result generated
    · exact contract.finishes ⟨_, returned⟩ unbroken
    · exact absurd (fun _ _ threw => by cases threw) throws

end Llamad
