import Llamad.Service.SocketPath

/-!
# Daemons that start on one path

What a startup may unlink, over every interleaving of any number of processes. The entry
that some process found to be a socket is never anything else; it is no live socket as long
as no probe of a live socket fails and nobody starts to listen behind a probe.
-/

namespace Llamad.SocketPath

open Logical Semantics

variable {Process : Type}

/-- The process has found a socket at the path and may remove it. -/
def Point.SawSocket : Point → Prop
  | .socket | .fcntl | .connect | .unlink | .unlinkAgain => True
  | _ => False

/-- The process has settled that nobody listens on the path, and is yet to act on it. -/
def Point.Poised (library : Library) : Point → Prop
  | .unlink | .clear => True
  | .load => library.clears = true
  | _ => False

/-- The process has been told to stop, and is about to remove its socket. -/
def Point.Stopping : Point → Prop
  | .sweep | .unlinkAgain => True
  | _ => False

instance (point : Point) : Decidable point.Stopping := by
  unfold Point.Stopping
  split <;> infer_instance

instance (library : Library) (point : Point) : Decidable (point.Poised library) := by
  unfold Point.Poised
  split <;> infer_instance

/-- The process probes the path. -/
def Point.Probing : Point → Prop
  | .socket | .fcntl | .connect => True
  | _ => False

namespace World

/-- Every process is about to start, listens already or has ended, and an inode to come is
listened on by nobody. -/
structure Starting (sunPathSize : Nat) (path : Bytes) (world : World Process) : Prop where
  points : ∀ process, world.point process = .start sunPathSize path ∨
    (∃ inode, world.point process = .wait inode) ∨ (∃ code, world.point process = .exited code) ∨
    world.point process = .killed
  listening : ∀ inode ∈ world.listeners, inode < world.fresh

/-- Only daemons act, not somebody else. -/
def ByDaemon : Event Process → Prop
  | .act _ _ | .die _ => True
  | .place _ => False

/-- No call of a probe of a live socket fails, and no process starts to listen on the socket
at the path while another one is poised to act on its own finding. -/
def Undisturbed (library : Library) (world : World Process) : Event Process → Prop
  | .act process fails =>
      ((world.point process).Probing → world.live = true → fails = false) ∧
        ∀ inode node, world.point process = .listen inode → fails = false →
          world.entry = some node → node.inode = inode →
            ∀ other, other ≠ process → ¬ (world.point other).Poised library
  | _ => True

/-- A process that starts unlinks a socket that somebody listens on. -/
def Steals (library : Library) (world : World Process) : Event Process → Prop
  | .act process fails =>
      ¬ (world.point process).Stopping ∧ world.Unlinks library (.act process fails) ∧
        world.live = true
  | _ => False

instance (library : Library) (world : World Process) (event : Event Process) :
    Decidable (world.Steals library event) :=
  match event with
  | .act process fails => inferInstanceAs (Decidable (
      ¬ (world.point process).Stopping ∧ world.Unlinks library (.act process fails) ∧
        world.live = true))
  | .die _ => inferInstanceAs (Decidable False)
  | .place _ => inferInstanceAs (Decidable False)

/-- Where a process has seen a socket, there is nothing else. -/
def SocketOnly (world : World Process) : Prop :=
  ∀ process, (world.point process).SawSocket →
    ∀ node, world.entry = some node → node.kind = .socket

/-- Nobody listens on the path where a process is poised to act on that. -/
structure Guarded (library : Library) (world : World Process) : Prop where
  listening : ∀ inode ∈ world.listeners, inode < world.fresh
  bound : ∀ process inode, world.point process = .listen inode → inode < world.fresh
  spared : ∀ process, (world.point process).Poised library → world.live = false

variable {world : World Process} {library : Library} {fails : Bool} {process other : Process}
  {event : Event Process} {effect : Effect}

/-- Nobody listens on a socket that nobody listened on, unless somebody starts to. -/
theorem live_of_apply (listening : ∀ inode ∈ world.listeners, inode < world.fresh)
    (live : (world.apply effect).live = true) :
    world.live = true ∨ ∃ inode node, effect = .listens inode ∧ world.entry = some node ∧
      node.inode = inode := by
  obtain ⟨node, entry, socket, listened⟩ := live_eq_true_iff.mp live
  cases effect with
  | nothing => exact .inl live
  | unlinks => cases entry
  | binds =>
      cases entry
      exact absurd (listening _ listened) (lt_irrefl _)
  | listens inode =>
      obtain same | listened := List.mem_cons.mp listened
      · exact .inr ⟨inode, node, rfl, entry, same⟩
      · exact .inl (live_eq_true_iff.mpr ⟨node, entry, socket, listened⟩)
  | closes inode =>
      exact .inl (live_eq_true_iff.mpr ⟨node, entry, socket, (List.mem_filter.mp listened).1⟩)

/-- A call leaves the entry alone, takes it away or puts a socket there. -/
theorem apply_entry (node : Node) (entry : (world.apply effect).entry = some node) :
    world.entry = some node ∨ node.kind = .socket := by
  cases effect with
  | nothing => exact .inl entry
  | unlinks => cases entry
  | binds =>
      cases entry
      exact .inr rfl
  | listens inode => exact .inl entry
  | closes inode => exact .inl entry

/-- A process that has seen a socket saw it before, or sees it now. -/
theorem Turn.sawSocket {point next : Point} (turned : Turn library world fails point effect next)
    (saw : next.SawSocket) :
    point.SawSocket ∨ ∃ node, world.entry = some node ∧ node.kind = .socket := by
  cases turned with
  | present found => exact .inr (lstat_eq_found_iff.mp found).2
  | foundAgain found => exact .inr (lstat_eq_found_iff.mp found).2
  | opened => exact .inl trivial
  | unopened _ => exact .inl trivial
  | flagged => exact .inl trivial
  | unflagged _ => exact .inl trivial
  | unconnected _ => exact .inl trivial
  | _ => cases saw

/-- A process gets poised only where nobody listens on the path, unless its probe failed. -/
theorem Turn.poised {point next : Point} (turned : Turn library world fails point effect next)
    (probes : point.Probing → world.live = true → fails = false)
    (poised : next.Poised library) : point.Poised library ∨ world.live = false := by
  have dead (unheard : ¬ world.live = true) : world.live = false := Bool.eq_false_iff.mpr unheard
  cases turned with
  | absent missing =>
      refine .inr (dead fun live => ?_)
      obtain ⟨node, entry, _⟩ := live_eq_true_iff.mp live
      rw [(lstat_eq_missing_iff.mp missing).2] at entry
      cases entry
  | unopened failed =>
      refine .inr (dead fun live => ?_)
      cases failed
      cases probes trivial live
  | unflagged failed =>
      refine .inr (dead fun live => ?_)
      cases failed
      cases probes trivial live
  | unconnected unheard =>
      refine .inr (dead fun live => ?_)
      cases unheard live
      cases probes trivial live
  | removed _ => exact .inl trivial
  | loadedFirst clearing => exact .inl clearing
  | _ => cases poised

theorem Turn.silent {point next : Point} (turned : Turn library world fails point effect next)
    (poised : next.Poised library) (inode : Inode) : effect ≠ .listens inode := by
  rintro rfl
  cases turned
  cases poised

theorem Turn.listen_of_listens {point next : Point} {inode : Inode}
    (turned : Turn library world fails point effect next) (starts : effect = .listens inode) :
    point = .listen inode ∧ fails = false := by
  subst starts
  cases turned with
  | listens succeeds => exact ⟨rfl, succeeds⟩

theorem Turn.binds_of_listen {point next : Point} {inode : Inode}
    (turned : Turn library world fails point effect next) (bound : next = .listen inode) :
    inode = world.fresh ∧ effect = .binds := by
  subst bound
  cases turned with
  | binds => exact ⟨rfl, rfl⟩

/-- Only a process that saw a socket unlinks, or the server library when it sees one. -/
theorem Turn.unlinks {point next : Point} (turned : Turn library world fails point .unlinks next) :
    (point.SawSocket ∧ world.unlinkable fails = true ∨ world.lstat fails = .found .socket) ∧
      (¬ point.Stopping → point.Poised library) := by
  cases turned with
  | removed removable => exact ⟨.inl ⟨trivial, removable⟩, fun _ => trivial⟩
  | removedAgain removable =>
      exact ⟨.inl ⟨trivial, removable⟩, fun starting => absurd trivial starting⟩
  | cleared found => exact ⟨.inr found, fun _ => trivial⟩
  | swept found => exact ⟨.inr found, fun starting => absurd trivial starting⟩

theorem fresh_le_apply (effect : Effect) : world.fresh ≤ (world.apply effect).fresh := by
  cases effect with
  | binds => exact Nat.le_succ _
  | nothing => exact Nat.le_refl _
  | unlinks => exact Nat.le_refl _
  | listens inode => exact Nat.le_refl _
  | closes inode => exact Nat.le_refl _

/-- A socket somebody listens on afterwards had a listener, or a bound process gets it. -/
theorem listening_of_apply {inode : Inode} (listened : inode ∈ (world.apply effect).listeners) :
    inode ∈ world.listeners ∨ effect = .listens inode := by
  cases effect with
  | listens bound =>
      obtain rfl | before := List.mem_cons.mp listened
      · exact .inr rfl
      · exact .inl before
  | closes bound => exact .inl (List.mem_filter.mp listened).1
  | nothing => exact .inl listened
  | unlinks => exact .inl listened
  | binds => exact .inl listened

theorem Starting.socketOnly {sunPathSize : Nat} {path : Bytes}
    (starting : world.Starting sunPathSize path) : world.SocketOnly := by
  intro process saw
  obtain point | ⟨_, point⟩ | ⟨_, point⟩ | point := starting.points process <;> rw [point] at saw
  · unfold Point.start at saw
    split at saw <;> cases saw
  · cases saw
  · cases saw
  · cases saw

theorem Starting.guarded {sunPathSize : Nat} {path : Bytes}
    (starting : world.Starting sunPathSize path) : world.Guarded library := by
  have idle (process : Process) : ¬ (world.point process).Poised library ∧
      ∀ inode, world.point process ≠ .listen inode := by
    obtain point | ⟨_, point⟩ | ⟨_, point⟩ | point := starting.points process <;> rw [point]
    · unfold Point.start
      split <;> exact ⟨id, nofun⟩
    · exact ⟨id, nofun⟩
    · exact ⟨id, nofun⟩
    · exact ⟨id, nofun⟩
  exact ⟨starting.listening, fun process inode point => absurd point ((idle process).2 inode),
    fun process poised => absurd poised (idle process).1⟩

/-- What an unlink takes away was seen to be a socket. -/
theorem SocketOnly.unlinks (only : world.SocketOnly) (unlinks : world.Unlinks library event) :
    ∃ node, world.entry = some node ∧ node.kind = .socket := by
  cases event with
  | die process => cases unlinks
  | place entry => cases unlinks
  | act process fails =>
      have turned := turn_cases library world fails (world.point process)
      rw [show (world.turn library fails (world.point process)).1 = .unlinks from unlinks] at turned
      obtain ⟨⟨saw, removed⟩ | found, _⟩ := turned.unlinks
      · obtain ⟨_, node, entry, _⟩ := unlinkable_eq_true_iff.mp removed
        exact ⟨node, entry, only process saw node entry⟩
      · exact (lstat_eq_found_iff.mp found).2

/-- A poised process that unlinks takes nothing that somebody listens on. -/
theorem Guarded.spares (guarded : world.Guarded library) : ¬ world.Steals library event := by
  intro steals
  cases event with
  | die process => cases steals
  | place entry => cases steals
  | act process fails =>
      obtain ⟨starting, unlinks, live⟩ := steals
      have turned := turn_cases library world fails (world.point process)
      rw [show (world.turn library fails (world.point process)).1 = .unlinks from unlinks] at turned
      rw [guarded.spared process (turned.unlinks.2 starting)] at live
      cases live

section Steps

variable [DecidableEq Process] {next : Point}

theorem SocketOnly.moved (only : world.SocketOnly)
    (sees : next.SawSocket → (world.point process).SawSocket ∨
      ∃ node, world.entry = some node ∧ node.kind = .socket) :
    (world.moved effect process next).SocketOnly := by
  intro other saw node entry
  obtain kept | socket := apply_entry node entry
  · by_cases same : other = process
    · subst same
      rw [moved_point_self] at saw
      obtain saw | ⟨_, found, socket⟩ := sees saw
      · exact only other saw node kept
      · rw [kept] at found
        cases found
        exact socket
    · rw [moved_point_ne effect next same] at saw
      exact only other saw node kept
  · exact socket

theorem SocketOnly.step (only : world.SocketOnly) (daemon : ByDaemon event) :
    (world.step library event).SocketOnly := by
  cases event with
  | place entry => cases daemon
  | die process => exact only.moved nofun
  | act process fails =>
      obtain ⟨effect, next, turned, _, stepped⟩ := step_act_cases library world process fails
      rw [stepped]
      exact only.moved turned.sawSocket

theorem Guarded.moved (guarded : world.Guarded library)
    (listens : ∀ inode, effect = .listens inode → inode < world.fresh)
    (binds : ∀ inode, next = .listen inode → inode = world.fresh ∧ effect = .binds)
    (unheard : next.Poised library → world.live = false ∧ ∀ inode, effect ≠ .listens inode)
    (alone : ∀ inode node, effect = .listens inode → world.entry = some node →
      node.inode = inode → ∀ other, other ≠ process → ¬ (world.point other).Poised library) :
    (world.moved effect process next).Guarded library where
  listening inode listened := by
    obtain before | starts := listening_of_apply listened
    · exact (guarded.listening inode before).trans_le (fresh_le_apply effect)
    · exact (listens inode starts).trans_le (fresh_le_apply effect)
  bound other inode point := by
    by_cases same : other = process
    · subst same
      rw [moved_point_self] at point
      obtain ⟨rfl, rfl⟩ := binds inode point
      exact Nat.lt_succ_self _
    · rw [moved_point_ne effect next same] at point
      exact (guarded.bound other inode point).trans_le (fresh_le_apply effect)
  spared other poised := by
    refine Bool.eq_false_iff.mpr fun live => ?_
    by_cases same : other = process
    · subst same
      rw [moved_point_self] at poised
      obtain ⟨dead, silent⟩ := unheard poised
      obtain live | ⟨inode, _, starts, _⟩ := live_of_apply guarded.listening live
      · rw [dead] at live
        cases live
      · exact silent inode starts
    · rw [moved_point_ne effect next same] at poised
      obtain live | ⟨inode, node, starts, entry, mine⟩ := live_of_apply guarded.listening live
      · rw [guarded.spared other poised] at live
        cases live
      · exact alone inode node starts entry mine other same poised

theorem Guarded.step (guarded : world.Guarded library) (daemon : ByDaemon event)
    (undisturbed : world.Undisturbed library event) :
    (world.step library event).Guarded library := by
  cases event with
  | place entry => cases daemon
  | die process =>
      have silent (inode : Inode) : release (world.point process) ≠ .listens inode := by
        cases world.point process <;> exact nofun
      exact guarded.moved (fun inode starts => absurd starts (silent inode)) nofun nofun
        fun inode _ starts => absurd starts (silent inode)
  | act process fails =>
      obtain ⟨probes, alone⟩ := undisturbed
      obtain ⟨effect, next, turned, _, stepped⟩ := step_act_cases library world process fails
      rw [stepped]
      refine guarded.moved (fun inode starts => ?_) (fun inode bound => ?_) (fun poised => ?_)
        fun inode node starts entry mine => ?_
      · exact guarded.bound process inode (turned.listen_of_listens starts).1
      · exact turned.binds_of_listen bound
      · refine ⟨?_, turned.silent poised⟩
        obtain poised | dead := turned.poised probes poised
        · exact guarded.spared process poised
        · exact dead
      · obtain ⟨point, succeeds⟩ := turned.listen_of_listens starts
        exact alone inode node point succeeds entry mine

/-- In every run of daemons on one path nothing but sockets is unlinked, and no starting
daemon unlinks a socket that somebody listens on, if every step of the run is undisturbed. -/
theorem startup_spares {sunPathSize : Nat} {path : Bytes} {first final : World Process}
    {taken : List (World Process × Event Process)} (starting : first.Starting sunPathSize path)
    (run : Run (World.step library) first taken final) (daemons : ∀ past ∈ taken, ByDaemon past.2) :
    (∀ past ∈ taken, past.1.Unlinks library past.2 →
        ∃ node, past.1.entry = some node ∧ node.kind = .socket) ∧
      ((∀ past ∈ taken, past.1.Undisturbed library past.2) →
        ∀ past ∈ taken, ¬ past.1.Steals library past.2) := by
  constructor
  · intro past member unlinks
    have only := (run.invariant SocketOnly (fun _ event => ByDaemon event)
      (fun only daemon => SocketOnly.step only daemon) starting.socketOnly daemons).2 past member
    exact only.unlinks unlinks
  · intro undisturbed past member
    have guarded := (run.invariant (Guarded library)
      (fun world event => ByDaemon event ∧ world.Undisturbed library event)
      (fun guarded met => Guarded.step guarded met.1 met.2) starting.guarded
      fun past member => ⟨daemons past member, undisturbed past member⟩).2 past member
    exact guarded.spares

end Steps

/-- A stale socket at the path, and daemons about to start on it. -/
def stale (Process : Type) : World Process := ⟨some ⟨0, .socket⟩, [], 1, fun _ => .start 108 [47]⟩

theorem stale_starting : (stale Process).Starting 108 [47] :=
  ⟨fun _ => .inl rfl, fun _ listened => nomatch listened⟩

/-- A daemon replaces a stale socket and listens, then another one starts. -/
def queue : List (Event Bool) :=
  List.replicate 9 (.act false false) ++ List.replicate 4 (.act true false)

/-- The second daemon finds the first and gives up; only the stale socket was removed. -/
theorem startup_spares_stale :
    (¬ ∃ past ∈ steps (World.step ⟨true, true⟩) (stale Bool) queue,
        past.1.Steals ⟨true, true⟩ past.2) ∧
      (∃ past ∈ steps (World.step ⟨true, true⟩) (stale Bool) queue,
        past.1.Unlinks ⟨true, true⟩ past.2) ∧
      (queue.foldl (World.step ⟨true, true⟩) (stale Bool)).live = true ∧
      (queue.foldl (World.step ⟨true, true⟩) (stale Bool)).point true = .exited 1 := by
  have acts : ∀ past ∈ steps (World.step ⟨true, true⟩) (stale Bool) queue,
      ∃ process, past.2 = .act process false ∧
        ∀ other, other ≠ process → ¬ (past.1.point other).Poised ⟨true, true⟩ := by
    decide +kernel
  refine ⟨?_, by decide +kernel, by decide, by decide⟩
  rintro ⟨past, member, steals⟩
  refine (startup_spares stale_starting (.of_events _ _) fun past member => ?_).2
    (fun past member => ?_) past member steals
  · obtain ⟨process, event, _⟩ := acts past member
    rw [event]
    trivial
  · obtain ⟨process, event, alone⟩ := acts past member
    rw [event]
    exact ⟨fun _ _ => rfl, fun _ _ _ _ _ _ => alone⟩

/-- Two daemons on a stale socket, all of whose calls succeed: the first probes it, the second
replaces it and listens, and the first unlinks the second's. -/
def race : List (Event Bool) :=
  List.replicate 4 (.act false false) ++ List.replicate 8 (.act true false) ++ [.act false false]

/-- A daemon that listens, and one about to start whose probe cannot open a socket. -/
def served : World Bool :=
  ⟨some ⟨0, .socket⟩, [0], 1, fun process => if process then .wait 0 else .start 108 [47]⟩

def unprobed : List (Event Bool) := [.act false false, .act false true, .act false false]

theorem served_starting : served.Starting 108 [47] := by
  refine ⟨fun process => ?_, by decide⟩
  cases process with
  | false => exact .inl rfl
  | true => exact .inr (.inl ⟨0, rfl⟩)

/-- A live socket is unlinked in a race in which every call succeeds, and behind a probe that
cannot be made. -/
theorem startup_steals :
    (∃ taken final, (stale Bool).Starting 108 [47] ∧
      Run (World.step ⟨false, false⟩) (stale Bool) taken final ∧
      (∀ past ∈ taken, ∃ process, past.2 = .act process false) ∧
      ∃ past ∈ taken, past.1.Steals ⟨false, false⟩ past.2) ∧
    ∃ taken final, served.Starting 108 [47] ∧ Run (World.step ⟨false, false⟩) served taken final ∧
      (∀ past ∈ taken, ByDaemon past.2) ∧ ∃ past ∈ taken, past.1.Steals ⟨false, false⟩ past.2 := by
  refine ⟨⟨_, _, stale_starting, .of_events _ race, fun past member => ?_, ?_⟩,
    ⟨_, _, served_starting, .of_events _ unprobed, fun past member => ?_, ?_⟩⟩
  · have event : ∀ event ∈ race, ∃ process, event = .act process false := by simp [race]
    exact event past.2 (mem_of_mem_steps member)
  · exact ⟨_, List.getLast_mem (by decide), by decide⟩
  · have event : ∀ event ∈ unprobed, ByDaemon event := by simp [unprobed, ByDaemon]
    exact event past.2 (mem_of_mem_steps member)
  · exact ⟨_, List.getLast_mem (by decide), by decide⟩

end World

end Llamad.SocketPath
