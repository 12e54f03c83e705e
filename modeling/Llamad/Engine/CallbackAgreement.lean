import Llamad.Engine.ChunkBoundary
import Llamad.Engine.Generate
import Llamad.Semantics.Agreement

/-!
# Callbacks that agree

A generation depends on its callback only through what that does to its client: callbacks that
agree as long as something holds of the client lead to generations that agree as long.
-/

namespace Llamad

open Logical Semantics Program Session StreamFilter

variable {llama : Llama} {Client : Type} {config : EngineConfig} {good : Client → Prop}
  {callback other : Bytes → Program Client Exception Bool}

/-- A program of the engine alone does nothing to the client. -/
theorem onImpl_agrees {Value : Type} (program : Program (Impl llama) Exception Value) :
    Agrees (fun session : Session llama Client => good session.receiver.client) (onImpl program)
      (onImpl program) :=
  .refl fun _ => id

section Callback

variable (agree : ∀ chunk, Agrees good (callback chunk) (other chunk))
include agree

theorem deliver_agrees (chunk : Bytes) :
    Agrees (fun receiver : Receiver Client => good receiver.client)
      (deliver (some callback) chunk) (deliver (some other) chunk) := by
  intro receiver holds
  by_cases blank : chunk = []
  · rw [deliver, if_pos blank] at holds
    exact ⟨holds, by rw [deliver, deliver, if_pos blank, if_pos blank]⟩
  · simp only [deliver, blank, if_false] at holds ⊢
    have arrived : good (callback chunk receiver.client).2 := by
      rcases called : callback chunk receiver.client with ⟨error | answer, client⟩ <;>
        rw [called] at holds <;> exact holds
    obtain ⟨before, same⟩ := agree chunk receiver.client arrived
    exact ⟨before, by rw [same]⟩

theorem push_agrees (filter : StreamFilter) (piece : Bytes) :
    Agrees (fun receiver : Receiver Client => good receiver.client)
      (filter.push (some callback) piece) (filter.push (some other) piece) := by
  rw [push_eq, push_eq]
  exact .bind (deliver_agrees agree _) fun _ => .pure _

theorem flush_agrees (filter : StreamFilter) :
    Agrees (fun receiver : Receiver Client => good receiver.client)
      (filter.flush (some callback)) (filter.flush (some other)) := by
  rw [flush_eq, flush_eq]
  exact .bind (deliver_agrees agree _) fun _ => .pure _

theorem generationRound_agrees (params : SamplingParams) (resolved : ResolvedTokens)
    (locals : Locals llama) :
    Agrees (fun session : Session llama Client => good session.receiver.client)
      (generationRound config params resolved (some callback) locals)
      (generationRound config params resolved (some other) locals) := by
  rw [generationRound, generationRound]
  split
  · exact .pure _
  refine .bind (onImpl_agrees _) fun drawn => ?_
  obtain ⟨token, sampler⟩ := drawn
  dsimp only
  split
  · exact .pure _
  refine .bind (.attempt _) fun piece =>
    .bind (.zoom (fun _ _ => rfl) (push_agrees agree _ piece)) fun outcome => ?_
  obtain ⟨status, filter⟩ := outcome
  dsimp only
  cases ended params ⟨sampler, filter, locals.completionTokens + 1⟩ status with
  | some ending => exact .pure _
  | none =>
      refine .bind (onImpl_agrees _) fun went => ?_
      cases went with
      | true => exact .pure _
      | false => exact .pure _

theorem flushEnding_agrees (ending : Ending llama) :
    Agrees (fun session : Session llama Client => good session.receiver.client)
      (flushEnding (some callback) ending) (flushEnding (some other) ending) := by
  rw [flushEnding, flushEnding]
  split
  · exact .bind (.zoom (fun _ _ => rfl) (flush_agrees agree _)) fun _ => .pure _
  · exact .pure _

/-- Generations whose callbacks agree agree. -/
theorem generate_agrees (entropy : llama.Entropy) (prompt : Bytes) (params : SamplingParams) :
    Agrees (fun session : Session llama Client => good session.receiver.client)
      (generate config entropy prompt params (some callback))
      (generate config entropy prompt params (some other)) := by
  refine .bind (.attempt _) fun admitted => .bind (onImpl_agrees _) fun kept =>
    .bind (onImpl_agrees _) fun _ => ?_
  exact .bind (.loop (generationRound_agrees agree params admitted.resolved) _) fun ending =>
    .bind (flushEnding_agrees agree ending) fun _ => .pure _

end Callback

end Llamad
