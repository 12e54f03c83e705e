import Llamad.Service.SocketPath

/-!
# What a daemon removes when it stops

Between the bind of a daemon and its last unlink anybody may change the entry at the path
any number of times. The unlink takes another's file exactly if the last of these changes
put one there: `main` looks at the kind of what it finds, not at whose it is.
-/

namespace Llamad.SocketPath.World

open Semantics

variable {Process : Type} {before final : World Process} {library : Library} {process : Process}
  {taken : List (World Process × Event Process)}

/-- The entry an event gives the path, if it changes it. -/
def written (library : Library) : World Process × Event Process → Option (Option Node)
  | (world, .act process fails) =>
      match (world.turn library fails (world.point process)).1 with
      | .unlinks => some none
      | .binds => some (some ⟨world.fresh, .socket⟩)
      | _ => none
  | (_, .die _) => none
  | (_, .place entry) => some entry

/-- An unlink of the process takes nothing but its own socket. -/
def RemovesOnly (library : Library) (world : World Process) (process : Process) (own : Inode) :
    Prop :=
  ∀ fails, world.Unlinks library (.act process fails) →
    ∀ node, world.entry = some node → node.inode = own

/-- The last of some changes of the entry, if there is one, left nothing that unlink(2) takes
but the file `own`. -/
def LastLeaves (own : Inode) (changes : List (Option Node)) : Prop :=
  ∀ node, changes.getLast? = some (some node) → node.kind ≠ .directory → node.inode = own

section Steps

variable [DecidableEq Process]

theorem step_entry (world : World Process) (event : Event Process) :
    (world.step library event).entry = (written library (world, event)).getD world.entry := by
  cases event with
  | place entry => rfl
  | die process =>
      cases point : world.point process <;>
        simp [step, point, release, moved, apply, written]
  | act process fails =>
      obtain ⟨effect, next, _, turns, stepped⟩ := step_act_cases library world process fails
      rw [stepped, written, turns]
      cases effect <;> rfl

/-- A bind that succeeds puts the process's own socket at the path. -/
theorem bind_entry (binds : before.point process = .bind) (empty : before.entry = none) :
    (before.step library (.act process false)).entry = some ⟨before.fresh, .socket⟩ := by
  simp [step, binds, turn, empty, moved, apply]

/-- Over every history since the bind, the unlink at the end of `main` takes only the daemon's
own socket exactly if the last change of the entry left no file of somebody else. -/
theorem shutdown_removesOnly_iff (binds : before.point process = .bind)
    (empty : before.entry = none)
    (run : Run (World.step library) (before.step library (.act process false)) taken final)
    (stands : final.point process = .unlinkAgain) :
    final.RemovesOnly library process before.fresh ↔
      LastLeaves before.fresh (taken.filterMap (written library)) := by
  have entry : final.entry =
      (taken.filterMap (written library)).getLast?.getD (some ⟨before.fresh, .socket⟩) := by
    rw [← bind_entry binds empty]
    exact run.last_written step_entry
  have takes (fails : Bool) : final.Unlinks library (.act process fails) ↔
      final.unlinkable fails = true := by
    rw [Unlinks, stands, turn]
    cases final.unlinkable fails <;> simp
  constructor
  · intro only node last file
    rw [last, Option.getD_some] at entry
    refine only false ((takes false).mpr ?_) node entry
    exact unlinkable_eq_true_iff.mpr ⟨rfl, node, entry, file⟩
  · intro leaves fails unlinks node found
    obtain ⟨_, other, same, file⟩ := unlinkable_eq_true_iff.mp ((takes fails).mp unlinks)
    rw [found] at same
    cases same
    cases last : (taken.filterMap (written library)).getLast? with
    | none =>
        rw [last, Option.getD_none, found] at entry
        cases entry
        rfl
    | some change =>
        rw [last, Option.getD_some, found] at entry
        subst entry
        exact leaves node last file

end Steps

/-- A daemon that is about to bind its socket, and another one about to start. -/
def handover : World Bool :=
  ⟨none, [], 0, fun process => if process then .start 108 [47] else .bind⟩

/-- Somebody moves the daemon's socket away and back before it stops. -/
def returned : List (Event Bool) :=
  [.act false false, .place none, .place (some ⟨0, .socket⟩)] ++ List.replicate 2 (.act false false)

/-- The daemon then removes its own socket. -/
theorem shutdown_removesOnly_returned :
    let final := returned.foldl (World.step ⟨true, false⟩)
      (handover.step ⟨true, false⟩ (.act false false))
    final.RemovesOnly ⟨true, false⟩ false 0 ∧ final.Unlinks ⟨true, false⟩ (.act false false) := by
  refine ⟨(@shutdown_removesOnly_iff _ handover _ _ _ _ _ rfl rfl (.of_events _ returned)
    (by decide)).mpr fun node last _ => ?_, by decide⟩
  cases last
  rfl

/-- The daemon is told to stop, and the other one starts on the path before it looks at the
path again. -/
def replaced (library : Library) : List (Event Bool) :=
  List.replicate (if library.sweeps then 3 else 2) (.act false false) ++
    List.replicate ((if library.sweeps then 4 else 8) + if library.clears then 1 else 0)
      (.act true false) ++
    [.act false false]

/-- Every call succeeds and nobody but two daemons is there, and one removes the socket that
the other listens on. -/
def RemovesOther (library : Library) : Prop :=
  ∃ taken final, handover.point false = .bind ∧ handover.entry = none ∧
    Run (World.step library) (handover.step library (.act false false)) taken final ∧
    (∀ past ∈ taken, ∃ process, past.2 = .act process false) ∧
    final.point false = .unlinkAgain ∧ final.live = true ∧
    ¬ final.RemovesOnly library false handover.fresh

theorem removesOther (library : Library) : RemovesOther library := by
  have acts : ∀ past ∈ steps (World.step library)
      (handover.step library (.act false false)) (replaced library),
      ∃ process, past.2 = .act process false := by
    intro past member
    have event := mem_of_mem_steps member
    simp only [replaced, List.mem_append, List.mem_replicate, List.mem_singleton] at event
    obtain (⟨_, event⟩ | ⟨_, event⟩) | event := event <;> exact ⟨_, event⟩
  have ends (clears sweeps : Bool) :
      let final := (replaced ⟨clears, sweeps⟩).foldl (World.step ⟨clears, sweeps⟩)
        (handover.step ⟨clears, sweeps⟩ (.act false false))
      final.point false = .unlinkAgain ∧ final.live = true ∧
        final.Unlinks ⟨clears, sweeps⟩ (.act false false) ∧ final.entry = some ⟨1, .socket⟩ := by
    revert clears sweeps
    decide
  obtain ⟨stands, live, unlinks, entry⟩ := ends library.clears library.sweeps
  refine ⟨_, _, rfl, rfl, .of_events _ (replaced library), acts, stands, live, fun only => ?_⟩
  cases only false unlinks _ entry

/-- It comes to that whatever the server library does to the path. -/
theorem shutdown_removes_other :
    RemovesOther ⟨false, false⟩ ∧ RemovesOther ⟨false, true⟩ ∧ RemovesOther ⟨true, false⟩ ∧
      RemovesOther ⟨true, true⟩ :=
  ⟨removesOther _, removesOther _, removesOther _, removesOther _⟩

end Llamad.SocketPath.World
