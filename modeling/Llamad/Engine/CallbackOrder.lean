import Llamad.Engine.Generate

/-!
# How a generation calls back

`CallbackRule` is what a user of `generate` has to show of a callback: what its state
satisfies while it answers `true`, what it satisfies once it has answered `false`, and
what when it has thrown. `CallbackRule.generate` carries this over the pushes, the
loop and the flush, so that a callback is never called again after it answered
`false`.
-/

namespace Llamad

open Logical Semantics Program Session Impl StreamFilter

variable {llama : Llama} {Client : Type}

/-- How one delivery changes what holds of the receiver. -/
structure CallbackRule (onChunk : ChunkCallback Client)
    (going declined threw : Receiver Client → Prop) : Prop where
  deliver : ∀ chunk, Triple going (StreamFilter.deliver onChunk chunk)
    (fun accepted receiver => if accepted then going receiver else declined receiver)
    (fun _ => threw)
  /-- The engine itself may throw between two deliveries. -/
  throws : ∀ receiver, going receiver → threw receiver

namespace CallbackRule

variable {config : EngineConfig} {onChunk : ChunkCallback Client}
  {going declined threw : Receiver Client → Prop} (rule : CallbackRule onChunk going declined threw)
include rule

theorem push (filter : StreamFilter) (piece : Bytes) :
    Triple going (StreamFilter.push onChunk filter piece)
      (fun outcome receiver =>
        if outcome.1 = .cancelled then declined receiver else going receiver)
      (fun _ => threw) := by
  cases found : earliestMatch filter.stops (filter.pending ++ piece) with
  | some start =>
      rw [push_of_match found]
      refine .bind (rule.deliver _) fun accepted => .pure fun receiver holds => ?_
      cases accepted with
      | true => simpa using holds
      | false => simpa using holds
  | none =>
      rw [push_of_noMatch found]
      refine .bind (rule.deliver _) fun accepted => .pure fun receiver holds => ?_
      cases accepted with
      | true => simpa using holds
      | false => simpa using holds

theorem flush (filter : StreamFilter) :
    Triple going (StreamFilter.flush onChunk filter)
      (fun _ receiver => going receiver ∨ declined receiver) (fun _ => threw) := by
  rw [flush_eq]
  refine .bind (rule.deliver _) fun accepted => .pure fun receiver holds => ?_
  cases accepted with
  | true => exact .inl holds
  | false => exact .inr holds

/-- A program of the engine alone is no delivery. -/
theorem onImpl {Value : Type} (program : Program (Impl llama) Exception Value) :
    Triple (fun session : Session llama Client => going session.receiver)
      (Session.onImpl program) (fun _ session => going session.receiver)
      (fun _ session => threw session.receiver) := by
  refine .zoom fun session holds => ?_
  match program session.impl with
  | (.ok value, impl) => exact holds
  | (.error error, impl) => exact rule.throws _ holds

theorem generationRound (params : SamplingParams) (resolved : ResolvedTokens)
    (locals : Locals llama) :
    Triple (fun session : Session llama Client => going session.receiver)
      (Llamad.generationRound config params resolved onChunk locals)
      (fun result session => Sum.elim (fun _ => going session.receiver)
        (fun ending => going session.receiver ∨
          ending.flushTail = false ∧ declined session.receiver) result)
      (fun _ session => threw session.receiver) := by
  rw [Llamad.generationRound]
  split
  · exact .pure fun session holds => .inl holds
  refine .bind (rule.onImpl _) fun drawn => ?_
  obtain ⟨token, sampler⟩ := drawn
  dsimp only
  split
  · exact .pure fun session holds => .inl holds
  refine .bind (.attempt (fun session piece holds _ => holds)
    fun session error holds _ => rule.throws _ holds) fun piece => ?_
  have pushing : Triple (fun session : Session llama Client => going session.receiver)
      (onReceiver (locals.filter.push onChunk piece))
      (fun outcome session =>
        if outcome.1 = .cancelled then declined session.receiver else going session.receiver)
      (fun _ session => threw session.receiver) := by
    refine .zoom fun session holds => ?_
    exact (rule.push locals.filter piece session.receiver holds).imp (fun _ _ _ met => met)
      fun _ _ _ met => met
  refine .bind pushing fun outcome => ?_
  obtain ⟨status, filter⟩ := outcome
  cases status with
  | stopped => exact .pure fun session holds => .inl (by simpa using holds)
  | cancelled => exact .pure fun session holds => .inr ⟨rfl, by simpa using holds⟩
  | «continue» =>
      simp only [reduceCtorEq, if_false]
      split
      · exact .pure fun session holds => .inl holds
      · refine .bind (rule.onImpl _) fun went => ?_
        split
        · exact .pure fun session holds => holds
        · exact .pure fun session holds => .inl holds

theorem flushEnding (ending : Ending llama) :
    Triple
      (fun session : Session llama Client =>
        going session.receiver ∨ ending.flushTail = false ∧ declined session.receiver)
      (Llamad.flushEnding onChunk ending)
      (fun _ session => going session.receiver ∨ declined session.receiver)
      (fun _ session => threw session.receiver) := by
  rw [Llamad.flushEnding]
  split
  · refine .bind (.zoom fun session holds => ?_) fun _ => .pure fun session holds => holds
    obtain holds | ⟨flushless, _⟩ := holds
    · exact (rule.flush _ session.receiver holds).imp (fun _ _ _ met => met) fun _ _ _ met => met
    · simp_all
  · exact .pure fun session holds => holds.imp id And.right

/-- What deliveries keep, a whole generation keeps; when it returns, the last answer of
the callback may have been `false`. -/
theorem generate (entropy : llama.Entropy) (prompt : Bytes) (params : SamplingParams) :
    Triple (fun session : Session llama Client => going session.receiver)
      (Llamad.generate config entropy prompt params onChunk)
      (fun _ session => going session.receiver ∨ declined session.receiver)
      (fun _ session => threw session.receiver) := by
  refine .bind (.attempt (fun session admitted holds _ => holds)
    fun session error holds _ => rule.throws _ holds) fun admitted => ?_
  refine .bind (rule.onImpl _) fun kept => .bind (rule.onImpl _) fun _ => ?_
  have looping : Triple (fun session : Session llama Client => going session.receiver)
      (generation config params admitted.resolved onChunk
        { sampler := admitted.sampler, filter := { stops := params.stop },
          completionTokens := 0 })
      (fun ending session => going session.receiver ∨
        ending.flushTail = false ∧ declined session.receiver)
      (fun _ session => threw session.receiver) := by
    let goingAt (_ : Locals llama) (session : Session llama Client) : Prop :=
      going session.receiver
    have rounds : ∀ locals, Triple (goingAt locals)
        (Llamad.generationRound config params admitted.resolved onChunk locals)
        (fun result session => Sum.elim (goingAt · session)
          (fun ending => going session.receiver ∨
            ending.flushTail = false ∧ declined session.receiver) result)
        (fun _ session => threw session.receiver) :=
      fun locals => rule.generationRound params admitted.resolved locals
    exact .loop rounds _
  exact .bind looping fun ending => .bind (rule.flushEnding ending) fun _ =>
    .pure fun session holds => holds

end CallbackRule

/-- Every delivery had text, and every one but the last was accepted. -/
def Receiver.Obeyed (receiver : Receiver Client) : Prop :=
  ∀ before delivery after, receiver.deliveries = before ++ delivery :: after →
    delivery.text ≠ [] ∧ (after ≠ [] → delivery.answer = some true)

/-- Whatever the callback does, it keeps to the order of `Receiver.Obeyed`. -/
theorem CallbackRule.obeyed (onChunk : ChunkCallback Client) :
    CallbackRule onChunk
      (fun receiver => ∀ delivery ∈ receiver.deliveries,
        delivery.text ≠ [] ∧ delivery.answer = some true)
      Receiver.Obeyed Receiver.Obeyed := by
  have last : ∀ (receiver after : Receiver Client) (delivery : Delivery),
      (∀ delivery ∈ receiver.deliveries, delivery.text ≠ [] ∧ delivery.answer = some true) →
      delivery.text ≠ [] → after.deliveries = receiver.deliveries ++ [delivery] →
      after.Obeyed := by
    intro receiver after delivery accepted nonempty appended before other rest same
    rw [appended] at same
    obtain ⟨rfl, rfl, rfl⟩ | ⟨earlier, _, shown⟩ := append_singleton_eq_cut same
    · exact ⟨nonempty, fun none => absurd rfl none⟩
    · have member : other ∈ receiver.deliveries := by
        rw [shown]
        exact List.mem_append_right _ List.mem_cons_self
      exact ⟨(accepted other member).1, fun _ => (accepted other member).2⟩
  refine ⟨fun chunk receiver accepted => ?_, fun receiver accepted before delivery rest same => ?_⟩
  · by_cases empty : chunk = []
    · simpa [StreamFilter.deliver, empty] using accepted
    · cases onChunk with
      | none => simpa [StreamFilter.deliver, empty] using accepted
      | some callback =>
          rcases called : callback chunk receiver.client with ⟨error | (_ | _), client⟩
          · simp only [StreamFilter.deliver, empty, if_false, called, meets_error]
            exact last receiver ⟨client, receiver.deliveries ++ [⟨chunk, none⟩]⟩ ⟨chunk, none⟩
              accepted empty rfl
          · simp only [StreamFilter.deliver, empty, if_false, called, meets_ok,
              Bool.false_eq_true]
            exact last receiver ⟨client, receiver.deliveries ++ [⟨chunk, some false⟩]⟩
              ⟨chunk, some false⟩ accepted empty rfl
          · simp only [StreamFilter.deliver, empty, if_false, called, meets_ok, if_true,
              List.mem_append, List.mem_singleton]
            rintro delivery (member | rfl)
            · exact accepted delivery member
            · exact ⟨empty, rfl⟩
  · have member : delivery ∈ receiver.deliveries := by
      rw [same]
      simp
    exact ⟨(accepted delivery member).1, fun _ => (accepted delivery member).2⟩

end Llamad
