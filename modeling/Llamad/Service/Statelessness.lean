import Llamad.Service.Concurrency

/-!
# Calls do not see each other

What Generate and Chat answer depends on the request, on the model and on how the client
behaves, and not on what the engine has served before: only the number of cached prompt
tokens that the finish reports tells two engines apart. With the order of the context mutex
this holds of concurrent calls too.
-/

namespace Llamad

open Logical Semantics Program Session

variable {llama : Llama} {common : Common}

/-- An event, apart from how much of the prompt a finish reports as cached and from whether
the client took that finish. -/
def Event.shown : Event → Event
  | .wrote (.finish finish) _ =>
      .wrote (.finish { finish with stats := { finish.stats with cachedPromptTokens := 0 } }) true
  | event => event

theorem Impl.Faithful.unlogged (impl : Impl llama) (faithful : impl.Faithful) :
    Impl.Faithful { impl with log := [] } :=
  ⟨faithful.recorded, by simp⟩

theorem Impl.Faithful.fresh (host : llama.Host) (logits : Token → llama.Logit) :
    (Impl.fresh host logits).Faithful :=
  ⟨.empty, by simp [Impl.fresh]⟩

namespace Call

variable (peer : Peer)

theorem finishChunk_shown {result other : GenerateResult}
    (same : result.observed = other.observed) (toolCalls : List ToolCall) (accepted taken : Bool) :
    (Event.wrote (Wire.finishChunk result.reason result.stats toolCalls) accepted).shown =
      (Event.wrote (Wire.finishChunk other.reason other.stats toolCalls) taken).shown := by
  simp only [GenerateResult.observed, Prod.mk.injEq] at same
  simp only [Event.shown, Wire.finishChunk, Wire.stats, same]

/-- A finish is written once, unless the client is known to be gone. -/
theorem writeFinish_log (result : GenerateResult) (toolCalls : List ToolCall)
    (call : Call llama common) :
    ∃ accepted gone, writeFinish peer result toolCalls call =
      (.ok (), { call with
        clientGone := gone
        log := call.log ++ if call.clientGone then [] else
          [.wrote (Wire.finishChunk result.reason result.stats toolCalls) accepted] }) := by
  by_cases gone : call.clientGone
  · refine ⟨true, call.clientGone, ?_⟩
    simp only [writeFinish, bind_apply, get_apply, if_pos gone, pure_apply, List.append_nil]
  · cases accepted :
      peer.write call.log (Wire.finishChunk result.reason result.stats toolCalls) with
    | true =>
        refine ⟨true, call.clientGone, ?_⟩
        simp only [writeFinish, bind_apply, get_apply, if_neg gone, write, accepted, modify_apply,
          pure_apply, if_true]
    | false =>
        refine ⟨false, true, ?_⟩
        simp only [writeFinish, bind_apply, get_apply, if_neg gone, write, accepted, modify_apply,
          pure_apply, Bool.false_eq_true, if_false, setClientGone]

/-- Two results that look alike are concluded alike. -/
theorem conclude_shown {result other : GenerateResult} (same : result.observed = other.observed)
    (call : Call llama common) :
    (conclude peer result call).1 = (conclude peer other call).1 ∧
      (conclude peer result call).2.log.map Event.shown =
        (conclude peer other call).2.log.map Event.shown := by
  rcases noted : noteCancelled peer call with ⟨error | _, call⟩
  · simp only [conclude, bind_of_error noted, and_self]
  rcases finished : finishStream peer call with ⟨error | toolCalls, call⟩
  · simp only [conclude, bind_of_ok noted, bind_of_error finished, and_self]
  obtain ⟨accepted, gone, wrote⟩ := writeFinish_log peer result toolCalls call
  obtain ⟨taken, left, written⟩ := writeFinish_log peer other toolCalls call
  simp only [conclude, bind_of_ok noted, bind_of_ok finished, wrote, written, true_and,
    List.map_append]
  by_cases silent : call.clientGone
  · simp only [if_pos silent]
  · simp only [if_neg silent, List.map_cons, finishChunk_shown same toolCalls accepted taken]

end Call

namespace LlamaService

variable (service : LlamaService common) (peer : Peer)

/-- What a call shows: its status, what passed between it and its client, and what the engine
delivered to it. -/
def shown (answer : Answer llama common) : Status × List Event × List Delivery :=
  (answer.1, answer.2.client.log.map Event.shown, answer.2.deliveries)

/-- Two results that look alike show the same when their calls have ended. -/
theorem shown_concluded {result other : GenerateResult} (same : result.observed = other.observed)
    (receiver : Receiver (Call llama common)) :
    shown (guarded (concludeBody peer (.ok (.inl result))) receiver) =
      shown (guarded (concludeBody peer (.ok (.inl other))) receiver) := by
  obtain ⟨ends, logs⟩ := Call.conclude_shown peer same receiver.client
  have closed (result : GenerateResult) :
      onCall (Call.conclude peer result) receiver =
        ((Call.conclude peer result receiver.client).1,
          { receiver with client := (Call.conclude peer result receiver.client).2 }) := rfl
  simp only [shown, concludeBody, guarded, bind_apply, closed, ends]
  cases (Call.conclude peer other receiver.client).1 with
  | error error => simp only [logs]
  | ok done => simp only [pure_apply, logs]

section Engines

variable {service peer} {model : List Token → Token → llama.Logit}

/-- The engine of a service that generates is only asked to generate. -/
theorem prepare_generating (generates : service.config.embeddings = false)
    {rpc : Rpc llama common} {control : Control llama common}
    {receiver : Receiver (Call llama common)}
    (prepared : service.prepare peer rpc = .inr (control, receiver)) :
    ∃ request : Request llama (Call llama common),
      control = .generating request .entering ∧ receiver = ⟨request.client, []⟩ := by
  cases rpc with
  | generate entropy request =>
      simp only [prepare, generates, Bool.false_eq_true, if_false] at prepared
      cases prepared
      exact ⟨_, rfl, rfl⟩
  | chat entropy rng request =>
      simp only [prepare, generates, Bool.false_eq_true, if_false] at prepared
      split at prepared
      · cases prepared
      split at prepared
      · cases prepared
      split at prepared
      · cases prepared
      · cases prepared
        exact ⟨_, rfl, rfl⟩
  | embed request =>
      simp only [prepare, generates, Bool.not_false, if_true] at prepared
      split at prepared
      · cases prepared
      · cases prepared

/-- What a call shows that takes the mutex is told by what `serve` returns. -/
theorem handle_of_generating {rpc : Rpc llama common} {request : Request llama (Call llama common)}
    (prepared : service.prepare peer rpc =
      .inr (.generating request .entering, ⟨request.client, []⟩)) (impl : Impl llama) :
    let served := serve service.config request impl
    let concluded := guarded (concludeBody peer (served.1.map .inl)) served.2.receiver
    service.handle peer rpc impl = (concluded.1, ⟨served.2.impl, concluded.2⟩) := by
  have handled := service.handle_eq_resume (fun _ : Unit => (peer, rpc)) () impl
  rw [prepared] at handled
  simp only [resume, whole_generating] at handled
  exact handled

/-- What a call shows does not depend on the engine it finds, as long as the record of that
engine is right and no decode of its own fails. -/
theorem handle_shown_eq (determined : Determined llama model)
    (generates : service.config.embeddings = false) (rpc : Rpc llama common)
    {impl other : Impl llama} (recorded : impl.context.memory.Recorded impl.cached)
    (recordedOther : other.context.memory.Recorded other.cached)
    (sound : ¬ (service.handle peer rpc impl).2.impl.Disturbed)
    (soundOther : ¬ (service.handle peer rpc other).2.impl.Disturbed) :
    shown ((service.handle peer rpc impl).1, (service.handle peer rpc impl).2.receiver) =
      shown ((service.handle peer rpc other).1, (service.handle peer rpc other).2.receiver) := by
  cases prepared : service.prepare peer rpc with
  | inl answer =>
      have handled (engine : Impl llama) :=
        service.handle_eq_resume (fun _ : Unit => (peer, rpc)) () engine
      simp only [prepared, resume] at handled
      rw [handled, handled]
  | inr entry =>
      obtain ⟨control, receiver⟩ := entry
      obtain ⟨request, rfl, rfl⟩ := prepare_generating generates prepared
      rw [handle_of_generating prepared] at sound soundOther
      rw [handle_of_generating prepared, handle_of_generating prepared]
      have told := serve_refines service.config determined request recorded sound
      have toldOther := serve_refines service.config determined request recordedOther soundOther
      obtain ⟨same, heard⟩ := Prod.mk.inj (told.trans toldOther.symm)
      rw [heard]
      cases one : (serve service.config request impl).1 with
      | error error =>
          cases two : (serve service.config request other).1 with
          | error error =>
              rw [one, two] at same
              cases same
              rfl
          | ok result =>
              rw [one, two] at same
              cases same
      | ok result =>
          cases two : (serve service.config request other).1 with
          | error error =>
              rw [one, two] at same
              cases same
          | ok result' =>
              rw [one, two] at same
              exact shown_concluded peer (Except.ok.inj same) _

/-- What the operations of a generation keep, and what does not look at the log, every call
keeps. -/
theorem handle_keeps {holds : Impl llama → Prop} (invariant : Impl.Invariant holds)
    (unlogged : ∀ impl, holds impl → holds { impl with log := [] })
    (generates : service.config.embeddings = false) (rpc : Rpc llama common) {impl : Impl llama}
    (kept : holds impl) : holds (service.handle peer rpc impl).2.impl := by
  cases prepared : service.prepare peer rpc with
  | inl answer =>
      have handled := service.handle_eq_resume (fun _ : Unit => (peer, rpc)) () impl
      simp only [prepared, resume] at handled
      rw [handled]
      exact unlogged impl kept
  | inr entry =>
      obtain ⟨control, receiver⟩ := entry
      obtain ⟨request, rfl, rfl⟩ := prepare_generating generates prepared
      rw [handle_of_generating prepared]
      exact invariant.serve unlogged request impl kept

/-- Where every decode succeeds no call is disturbed. -/
theorem handle_not_disturbed
    (reliable : ∀ host memory batch, ∃ evicted logits after,
      llama.decode host memory batch = (.done evicted logits, after))
    (generates : service.config.embeddings = false) (rpc : Rpc llama common) (impl : Impl llama) :
    ¬ (service.handle peer rpc impl).2.impl.Disturbed := by
  cases prepared : service.prepare peer rpc with
  | inl answer =>
      have handled := service.handle_eq_resume (fun _ : Unit => (peer, rpc)) () impl
      simp only [prepared, resume] at handled
      rw [handled]
      rintro ⟨_, ⟨⟩, _⟩
  | inr entry =>
      obtain ⟨control, receiver⟩ := entry
      obtain ⟨request, rfl, rfl⟩ := prepare_generating generates prepared
      rw [handle_of_generating prepared]
      exact serve_not_disturbed service.config reliable request impl

end Engines

section Interleaved

variable {Thread : Type} (calls : Thread → Peer × Rpc llama common)

variable {service} in
/-- Every step of a call keeps the record in agreement with the memory. -/
theorem keeps_faithful (generates : service.config.embeddings = false) :
    (service.system calls).Keeps Impl.Faithful
      fun _ control => ∃ request place, control = .generating request place where
  starts := by
    intro thread control own prepared
    obtain ⟨request, rfl, _⟩ := prepare_generating generates prepared
    exact ⟨request, .entering, rfl⟩
  steps := by
    rintro thread _ impl receiver ⟨request, place, rfl⟩ faithful
    have kept : Preserves (fun session => session.impl.Faithful)
        (generateStep service.config request place) :=
      Impl.Faithful.invariant.generateStep Impl.Faithful.unlogged place
    exact (Preserves.bind kept (fun result => .pure) ⟨impl, receiver⟩ faithful).final
  stays := by
    rintro thread _ next state after ⟨request, place, rfl⟩ stepped
    obtain ⟨result, _, _, ends⟩ := bind_eq_ok_iff.mp stepped
    cases result with
    | inl place =>
        cases ends
        exact ⟨request, place, rfl⟩
    | inr result => cases ends

theorem engineAfterCalls_faithful (generates : service.config.embeddings = false)
    {impl : Impl llama} (faithful : impl.Faithful) (order : List Thread) :
    (service.engineAfterCalls calls impl order).Faithful := by
  induction order generalizing impl with
  | nil => exact faithful
  | cons thread order inductionHypothesis =>
      exact inductionHypothesis
        (handle_keeps Impl.Faithful.invariant Impl.Faithful.unlogged generates _ faithful)

variable [DecidableEq Thread]

/-- At every moment of every schedule the record of the engine agrees with the llama memory,
also while a call is in the middle of its generation. -/
theorem concurrent_recorded (generates : service.config.embeddings = false)
    (host : llama.Host) (logits : Token → llama.Logit) (schedule : List Thread) :
    let engine := ((service.system calls).run { shared := Impl.fresh host logits } schedule).shared
    engine.context.memory.Recorded engine.cached :=
  ((keeps_faithful calls generates).run
    ⟨Impl.Faithful.fresh host logits, by rintro _ _ ⟨⟩⟩ schedule).shared.recorded

/-- Two calls of which one waits while the other generates. -/
theorem concurrent_recorded_turns :
    let engine := (((small false).system twoCalls).run
      { shared := Impl.fresh () fun _ => (0 : Int) } [true, true, false, true, false, true]).shared
    engine.context.memory.Recorded engine.cached :=
  (small false).concurrent_recorded twoCalls rfl () _ _

/-- The engine a call finds when the calls in `order` have taken the mutex. -/
def engineFound (impl : Impl llama) (order : List Thread) (thread : Thread) : Impl llama :=
  service.engineAfterCalls calls impl (order.takeWhile (· ≠ thread))

/-- An answered call was handled on the engine it found. -/
theorem answered_found {impl : Impl llama} {schedule : List Thread} {thread : Thread}
    {answer : Answer llama common}
    (answered : ((service.system calls).run { shared := impl } schedule).phase thread =
      .answered answer) :
    let found := service.engineFound calls impl
      ((service.system calls).run { shared := impl } schedule).order thread
    let handled := service.handle (calls thread).1 (calls thread).2 found
    answer = (handled.1, handled.2.receiver) := by
  have nodup := (service.consistent_run calls impl schedule).nodup
  obtain ⟨before, after, ordered, same⟩ | ⟨_, same⟩ := service.answered_handled calls answered
  · have absent : ∀ other ∈ before, decide (other ≠ thread) = true := by
      rw [ordered] at nodup
      intro other member
      have distinct := (List.nodup_append.mp nodup).2.2 other member thread List.mem_cons_self
      simpa using distinct
    rw [engineFound, ordered, List.takeWhile_append_of_pos absent,
      List.takeWhile_cons_of_neg (by simp), List.append_nil]
    exact same
  · exact same _

/-- Every call of every schedule shows what it would show on an engine that has served
nothing, as long as no decode of its own fails. -/
theorem concurrent_stateless {model : List Token → Token → llama.Logit}
    (determined : Determined llama model) (generates : service.config.embeddings = false)
    (host freshHost : llama.Host) (logits freshLogits : Token → llama.Logit)
    (schedule : List Thread) (thread : Thread) (answer : Answer llama common)
    (answered : ((service.system calls).run { shared := Impl.fresh host logits } schedule).phase
      thread = .answered answer) :
    let found := service.engineFound calls (Impl.fresh host logits)
      ((service.system calls).run { shared := Impl.fresh host logits } schedule).order thread
    let warm := service.handle (calls thread).1 (calls thread).2 found
    let cold := service.handle (calls thread).1 (calls thread).2 (Impl.fresh freshHost freshLogits)
    ¬ warm.2.impl.Disturbed → ¬ cold.2.impl.Disturbed →
      shown answer = shown (cold.1, cold.2.receiver) := by
  intro found warm cold sound soundCold
  rw [service.answered_found calls answered]
  have faithful : found.Faithful :=
    service.engineAfterCalls_faithful calls generates (Impl.Faithful.fresh host logits) _
  exact handle_shown_eq determined generates _ faithful.recorded .empty sound soundCold

/-- The answer of one of two calls that take turns. -/
theorem concurrent_stateless_turns :
    ∃ count answer,
      (((small false).system twoCalls).run { shared := Impl.fresh () fun _ => (0 : Int) }
        (Mutex.firstSteps turns count)).phase true = .answered answer ∧
      let cold := (small false).handle (twoCalls true).1 (twoCalls true).2
        (Impl.fresh () fun _ => (1 : Int))
      shown answer = shown (cold.1, cold.2.receiver) := by
  have determined : Determined (Llama.bytes fun _ => 256) fun _ token =>
      if token = 256 then (1 : Int) else (0 : Int) := by
    rintro host memory batch evicted logits after ⟨⟩
    rfl
  have reliable : ∀ host memory batch, ∃ evicted logits after,
      (Llama.bytes fun _ => 256).decode host memory batch = (.done evicted logits, after) :=
    fun host memory batch => ⟨_, _, _, rfl⟩
  let engine : Impl (Llama.bytes fun _ => 256) := Impl.fresh () fun _ => (0 : Int)
  obtain ⟨count, answers⟩ := ((small false).consistent_run twoCalls engine []).all_answered
    (by rintro _ ⟨⟩) turns (fun index => Finset.mem_univ _) turns_fair
  obtain ⟨answer, answered⟩ := answers true (Finset.mem_univ _)
  exact ⟨count, answer, answered,
    (small false).concurrent_stateless twoCalls determined rfl () () _ _ _ true answer answered
      (handle_not_disturbed reliable rfl _ _) (handle_not_disturbed reliable rfl _ _)⟩

end Interleaved

end LlamaService

end Llamad
