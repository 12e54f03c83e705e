import Mathlib.Data.List.Induction

/-!
# Runs of a transition system

A system is given by what an event does to a state. A run keeps, for every step, the state
the event found. Invariants are proved for one step and carried along runs, also under a
condition that every step of the run meets. A system that chooses its moves has paths; another
system refines it when each of its steps is such a move.
-/

namespace Llamad.Semantics

variable {State Event : Type}

/-- A run from `first`: its steps, each with the state it starts from, and where it ends. -/
inductive Run (step : State → Event → State) (first : State) : List (State × Event) → State → Prop
  | refl : Run step first [] first
  | snoc {steps : List (State × Event)} {state : State} (run : Run step first steps state)
      (event : Event) : Run step first (steps ++ [(state, event)]) (step state event)

/-- The steps that a list of events takes. -/
def steps (step : State → Event → State) : State → List Event → List (State × Event)
  | _, [] => []
  | state, event :: events => (state, event) :: steps step (step state event) events

theorem mem_of_mem_steps {step : State → Event → State} {first : State} {events : List Event}
    {taken : State × Event} (member : taken ∈ steps step first events) : taken.2 ∈ events := by
  induction events generalizing first with
  | nil => cases member
  | cons event events inductionHypothesis =>
      obtain rfl | later := List.mem_cons.mp member
      · exact List.mem_cons_self
      · exact List.mem_cons_of_mem _ (inductionHypothesis later)

namespace Run

variable {step : State → Event → State} {first middle final : State}
  {front back : List (State × Event)}

theorem append (run : Run step first front middle) (further : Run step middle back final) :
    Run step first (front ++ back) final := by
  induction further with
  | refl => rwa [List.append_nil]
  | snoc _ event inductionHypothesis =>
      rw [← List.append_assoc]
      exact inductionHypothesis.snoc event

/-- Every list of events makes a run. -/
theorem of_events (first : State) (events : List Event) :
    Run step first (steps step first events) (events.foldl step first) := by
  induction events generalizing first with
  | nil => exact .refl
  | cons event events inductionHypothesis =>
      exact (Run.refl.snoc event).append (inductionHypothesis (step first event))

/-- What holds at first and is kept by every step that meets `condition` holds at the end of
a run whose steps all meet it, and in the state in front of each of them. -/
theorem invariant (holds : State → Prop) (condition : State → Event → Prop)
    (keeps : ∀ {state event}, holds state → condition state event → holds (step state event))
    (run : Run step first front final) (start : holds first)
    (meets : ∀ taken ∈ front, condition taken.1 taken.2) :
    holds final ∧ ∀ taken ∈ front, holds taken.1 := by
  induction run with
  | refl => exact ⟨start, by simp⟩
  | @snoc steps state _ event inductionHypothesis =>
      obtain ⟨here, before⟩ := inductionHypothesis fun taken member =>
        meets taken (List.mem_append_left _ member)
      have met : condition state event := meets (state, event) (by simp)
      refine ⟨keeps here met, fun taken member => ?_⟩
      obtain member | member := List.mem_append.mp member
      · exact before taken member
      · rw [List.mem_singleton.mp member]
        exact here

/-- A component that steps overwrite from time to time holds what was written last. -/
theorem last_written {Value : Type} {component : State → Value}
    {written : State × Event → Option Value}
    (writes : ∀ state event, component (step state event) =
      (written (state, event)).getD (component state))
    (run : Run step first front final) :
    component final = (front.filterMap written).getLast?.getD (component first) := by
  induction run with
  | refl => rfl
  | @snoc steps state _ event inductionHypothesis =>
      rw [writes, List.filterMap_append, inductionHypothesis]
      cases wrote : written (state, event) with
      | none => simp [wrote]
      | some value => simp [wrote]

end Run

/-- What a system that chooses its moves may come to over some events. -/
inductive Path (moves : Event → State → State → Prop) (first : State) :
    List Event → State → Prop
  | refl : Path moves first [] first
  | snoc {events : List Event} {event : Event} {state next : State}
      (path : Path moves first events state) (moved : moves event state next) :
      Path moves first (events ++ [event]) next

namespace Path

variable {Abstract : Type} {moves : Event → Abstract → Abstract → Prop} {first final : Abstract}
  {events : List Event}

/-- What holds at first and is kept by every move holds wherever a path leads. -/
theorem invariant (holds : List Event → Abstract → Prop) (start : holds [] first)
    (keeps : ∀ {events event state next}, holds events state → moves event state next →
      holds (events ++ [event]) next)
    (path : Path moves first events final) : holds events final := by
  induction path with
  | refl => exact start
  | snoc _ moved inductionHypothesis => exact keeps inductionHypothesis moved

/-- A system each of whose steps is a move of another one follows its paths. -/
theorem simulate {step : State → Event → State} {shows : State → Abstract → Prop}
    (simulates : ∀ {state abstract}, shows state abstract → ∀ event,
      ∃ next, moves event abstract next ∧ shows (step state event) next)
    {state : State} (start : shows state first) (events : List Event) :
    ∃ final, Path moves first events final ∧ shows (events.foldl step state) final := by
  induction events using List.reverseRecOn with
  | nil => exact ⟨first, .refl, start⟩
  | append_singleton events event inductionHypothesis =>
      obtain ⟨middle, path, here⟩ := inductionHypothesis
      obtain ⟨next, moved, there⟩ := simulates here event
      refine ⟨next, path.snoc moved, ?_⟩
      rw [List.foldl_append]
      exact there

end Path

end Llamad.Semantics
