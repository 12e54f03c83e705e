import Llamad.Semantics.Program

/-!
# Programs that agree

Two programs agree as long as `good` holds when, wherever the first arrives with it, it set out
with it and did as the second. Agreement goes through sequences and loops, so programs that differ
only in what leads out of `good` are the same wherever the first has stayed in it.
-/

namespace Llamad.Semantics

variable {State Outer Error Value Result Local : Type}

/-- Wherever the first program arrives with `good`, it set out with it and did as the second. -/
def Agrees (good : State → Prop) (first second : Program State Error Value) : Prop :=
  ∀ state, good (first state).2 → good state ∧ first state = second state

namespace Agrees

open Program

variable {good : State → Prop} {first second program : Program State Error Value}

/-- A program agrees with itself where it does not lead to `good` from elsewhere. -/
theorem refl (keeps : ∀ state, good (program state).2 → good state) :
    Agrees good program program :=
  fun state holds => ⟨keeps state holds, rfl⟩

theorem pure (value : Value) :
    Agrees good (Pure.pure value : Program State Error Value) (Pure.pure value) :=
  refl fun _ => id

theorem get : Agrees good (Program.get : Program State Error State) Program.get :=
  refl fun _ => id

theorem attempt (result : Except Error Value) :
    Agrees good (Program.attempt result) (Program.attempt result) :=
  refl fun _ => id

theorem bind {next other : Value → Program State Error Result} (agree : Agrees good first second)
    (rest : ∀ value, Agrees good (next value) (other value)) :
    Agrees good (first >>= next) (second >>= other) := by
  intro state holds
  rcases ran : first state with ⟨error | value, after⟩
  · rw [bind_of_error ran] at holds ⊢
    obtain ⟨before, same⟩ := agree state (by rw [ran]; exact holds)
    exact ⟨before, (bind_of_error (same.symm.trans ran)).symm⟩
  · rw [bind_of_ok ran] at holds ⊢
    obtain ⟨between, sameRest⟩ := rest value after holds
    obtain ⟨before, same⟩ := agree state (by rw [ran]; exact between)
    exact ⟨before, sameRest.trans (bind_of_ok (same.symm.trans ran)).symm⟩

/-- Programs that agree on a component agree on what contains it. -/
theorem zoom {view : Outer → State} {update : State → Outer → Outer}
    (inside : ∀ state outer, view (update state outer) = state) (agree : Agrees good first second) :
    Agrees (fun outer => good (view outer)) (Program.zoom view update first)
      (Program.zoom view update second) := by
  intro outer holds
  rw [zoom_apply, inside] at holds
  obtain ⟨before, same⟩ := agree (view outer) holds
  exact ⟨before, by rw [zoom_apply, zoom_apply, same]⟩

/-- Loops agree when their rounds do. -/
theorem loop {measure : Local → State → Nat}
    {body other : Local → Program State Error (Local ⊕ Result)}
    {decreases : ∀ {locals state next after},
      body locals state = (.ok (.inl next), after) → measure next after < measure locals state}
    {otherDecreases : ∀ {locals state next after},
      other locals state = (.ok (.inl next), after) → measure next after < measure locals state}
    (round : ∀ locals, Agrees good (body locals) (other locals)) (locals : Local) :
    Agrees good (Program.loop measure body decreases locals)
      (Program.loop measure other otherDecreases locals) := by
  intro state
  induction size : measure locals state using Nat.strongRecOn generalizing locals state with
  | ind bound inductionHypothesis =>
      intro holds
      rcases ran : body locals state with ⟨error | (next | result), after⟩
      · rw [loop_of_error ran] at holds ⊢
        obtain ⟨before, same⟩ := round locals state (by rw [ran]; exact holds)
        exact ⟨before, (loop_of_error (same.symm.trans ran)).symm⟩
      · rw [loop_of_inl ran] at holds ⊢
        obtain ⟨between, sameRest⟩ :=
          inductionHypothesis _ (size ▸ decreases ran) next after rfl holds
        obtain ⟨before, same⟩ := round locals state (by rw [ran]; exact between)
        exact ⟨before, sameRest.trans (loop_of_inl (same.symm.trans ran)).symm⟩
      · rw [loop_of_inr ran] at holds ⊢
        obtain ⟨before, same⟩ := round locals state (by rw [ran]; exact holds)
        exact ⟨before, (loop_of_inr (same.symm.trans ran)).symm⟩

end Agrees

end Llamad.Semantics
