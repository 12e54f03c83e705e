import Llamad.Logical.Utf8
import Llamad.Semantics.Transition
import Mathlib.Logic.Function.Basic

/-!
# The socket path

The directory entry that every daemon started on one path looks at, and what `main` does
with it, one system call at a time. Several processes take turns in any order, any call may
fail, a process may die anywhere, and somebody else may change the entry.
-/

namespace Llamad.SocketPath

open Logical Semantics

/-- What the server library does to the path of a Unix socket: whether it removes a socket it
finds there before it binds, and whether it does so when it shuts down. -/
structure Library where
  clears : Bool
  sweeps : Bool

/-- The identity of a file. -/
abbrev Inode := Nat

/-- What kind of file an entry names, as far as unlink(2) and `S_ISSOCK` tell them apart. -/
inductive Kind
  | socket
  | directory
  | other
  deriving DecidableEq

/-- A file in the file system. -/
structure Node where
  inode : Inode
  kind : Kind
  deriving DecidableEq

/-- An answer of lstat(2). -/
inductive Stat
  | found (kind : Kind)
  | missing
  | failed
  deriving DecidableEq

/-- Where a process stands in `main`: the call it makes next. -/
inductive Point
  /-- lstat in `prepare_socket_path` -/
  | lstat
  /-- socket, fcntl and connect in `socket_is_live` -/
  | socket
  | fcntl
  | connect
  /-- unlink in `prepare_socket_path` -/
  | unlink
  /-- the construction of the engine and the service -/
  | load
  /-- what the server library removes from the path before it binds -/
  | clear
  /-- bind and listen in `BuildAndStart` -/
  | bind
  | listen (inode : Inode)
  /-- `server->Wait()` -/
  | wait (inode : Inode)
  /-- what the server library removes from the path when it shuts down -/
  | sweep
  /-- lstat and unlink at the end of `main` -/
  | lstatAgain
  | unlinkAgain
  | exited (code : Nat)
  | killed
  deriving DecidableEq

/-- Where a process starts: `prepare_socket_path` refuses a path that does not fit `sun_path`. -/
def Point.start (sunPathSize : Nat) (path : Bytes) : Point :=
  if sunPathSize ≤ path.length then .exited 1 else .lstat

/-- `prepare_socket_path` after its lstat. -/
def afterLstat : Stat → Point
  | .missing => .load
  | .failed => .exited 1
  | .found .socket => .socket
  | .found _ => .exited 1

/-- `prepare_socket_path` after `socket_is_live`. -/
def afterProbe (live : Bool) : Point := if live then .exited 1 else .unlink

/-- `prepare_socket_path` after its unlink. -/
def afterUnlink (removed : Bool) : Point := if removed then .load else .exited 1

/-- The end of `main` after its lstat. -/
def afterLstatAgain : Stat → Point
  | .found .socket => .unlinkAgain
  | _ => .exited 0

/-- The entry at the path, the sockets somebody listens on, the next inode, and where every
process stands. -/
structure World (Process : Type) where
  entry : Option Node
  listeners : List Inode
  fresh : Inode
  point : Process → Point

/-- What a call does outside its process. -/
inductive Effect
  | nothing
  | unlinks
  | binds
  | listens (inode : Inode)
  | closes (inode : Inode)
  deriving DecidableEq

/-- What happens next: a process makes its call, which may fail, a process dies, or somebody
else gives the path another entry or none. -/
inductive Event (Process : Type)
  | act (process : Process) (fails : Bool)
  | die (process : Process)
  | place (entry : Option Node)
  deriving DecidableEq

namespace World

variable {Process : Type}

/-- Somebody listens on the socket at the path. -/
def live (world : World Process) : Bool :=
  world.entry.any fun node => node.kind = .socket && world.listeners.contains node.inode

/-- lstat(2) on the path. -/
def lstat (world : World Process) (fails : Bool) : Stat :=
  if fails then .failed else
    match world.entry with
    | some node => .found node.kind
    | none => .missing

/-- unlink(2) on the path takes an entry away: there is one, and it is no directory. -/
def unlinkable (world : World Process) (fails : Bool) : Bool :=
  !fails && world.entry.any fun node => node.kind ≠ .directory

/-- What a process standing at a point does there, and where it stands afterwards. -/
def turn (library : Library) (world : World Process) (fails : Bool) : Point → Effect × Point
  | .lstat => (.nothing, afterLstat (world.lstat fails))
  | .socket => (.nothing, if fails then afterProbe false else .fcntl)
  | .fcntl => (.nothing, if fails then afterProbe false else .connect)
  | .connect => (.nothing, afterProbe (!fails && world.live))
  | .unlink =>
      if world.unlinkable fails then (.unlinks, afterUnlink true) else (.nothing, afterUnlink false)
  | .load => (.nothing, if fails then .exited 1 else if library.clears then .clear else .bind)
  | .clear =>
      (if world.lstat fails = .found .socket then .unlinks else .nothing, .bind)
  | .bind =>
      if !fails && world.entry.isNone then (.binds, .listen world.fresh) else (.nothing, .exited 1)
  | .listen inode => if fails then (.nothing, .exited 1) else (.listens inode, .wait inode)
  | .wait inode => (.closes inode, if library.sweeps then .sweep else .lstatAgain)
  | .sweep =>
      (if world.lstat fails = .found .socket then .unlinks else .nothing, .lstatAgain)
  | .lstatAgain => (.nothing, afterLstatAgain (world.lstat fails))
  | .unlinkAgain => (if world.unlinkable fails then .unlinks else .nothing, .exited 0)
  | .exited code => (.nothing, .exited code)
  | .killed => (.nothing, .killed)

/-- The machine after a call's effect. -/
def apply (world : World Process) : Effect → World Process
  | .nothing => world
  | .unlinks => { world with entry := none }
  | .binds => { world with entry := some ⟨world.fresh, .socket⟩, fresh := world.fresh + 1 }
  | .listens inode => { world with listeners := inode :: world.listeners }
  | .closes inode => { world with listeners := world.listeners.filter (· ≠ inode) }

/-- What the end of a process does: the socket it listens on is closed. -/
def release : Point → Effect
  | .wait inode => .closes inode
  | _ => .nothing

/-- The machine after a process's effect, with the process at the next point. -/
def moved [DecidableEq Process] (world : World Process) (effect : Effect) (process : Process)
    (next : Point) : World Process :=
  { world.apply effect with point := Function.update world.point process next }

/-- The machine after an event. -/
def step [DecidableEq Process] (library : Library) (world : World Process) :
    Event Process → World Process
  | .act process fails =>
      let (effect, next) := world.turn library fails (world.point process)
      world.moved effect process next
  | .die process => world.moved (release (world.point process)) process .killed
  | .place entry =>
      { world with
        entry := entry
        fresh := max world.fresh (entry.elim 0 fun node => node.inode + 1) }

/-- The event unlinks the entry at the path. -/
def Unlinks (library : Library) (world : World Process) : Event Process → Prop
  | .act process fails => (world.turn library fails (world.point process)).1 = .unlinks
  | _ => False

instance (library : Library) (world : World Process) (event : Event Process) :
    Decidable (world.Unlinks library event) :=
  match event with
  | .act process fails => inferInstanceAs (Decidable (
      (world.turn library fails (world.point process)).1 = .unlinks))
  | .die _ => inferInstanceAs (Decidable False)
  | .place _ => inferInstanceAs (Decidable False)

section Lemmas

variable {world : World Process} {library : Library} {fails : Bool} {process other : Process}
  {node : Node}

theorem live_eq_true_iff :
    world.live = true ↔
      ∃ node, world.entry = some node ∧ node.kind = .socket ∧ node.inode ∈ world.listeners := by
  simp [live, Option.any_eq_true]

theorem unlinkable_eq_true_iff :
    world.unlinkable fails = true ↔
      fails = false ∧ ∃ node, world.entry = some node ∧ node.kind ≠ .directory := by
  simp [unlinkable, Option.any_eq_true]

theorem lstat_eq_found_iff {kind : Kind} :
    world.lstat fails = .found kind ↔
      fails = false ∧ ∃ node, world.entry = some node ∧ node.kind = kind := by
  cases fails <;> cases found : world.entry <;> simp [lstat, found]

theorem lstat_eq_missing_iff :
    world.lstat fails = .missing ↔ fails = false ∧ world.entry = none := by
  cases fails <;> cases found : world.entry <;> simp [lstat, found]

/-- Every way a call can go, with what its answer says about the path. -/
inductive Turn (library : Library) (world : World Process) (fails : Bool) :
    Point → Effect → Point → Prop
  | absent (missing : world.lstat fails = .missing) :
      Turn library world fails .lstat .nothing .load
  | present (found : world.lstat fails = .found .socket) :
      Turn library world fails .lstat .nothing .socket
  | refused : Turn library world fails .lstat .nothing (.exited 1)
  | opened : Turn library world fails .socket .nothing .fcntl
  | unopened (failed : fails = true) : Turn library world fails .socket .nothing .unlink
  | flagged : Turn library world fails .fcntl .nothing .connect
  | unflagged (failed : fails = true) : Turn library world fails .fcntl .nothing .unlink
  | connected : Turn library world fails .connect .nothing (.exited 1)
  | unconnected (unheard : world.live = true → fails = true) :
      Turn library world fails .connect .nothing .unlink
  | removed (removable : world.unlinkable fails = true) :
      Turn library world fails .unlink .unlinks .load
  | kept : Turn library world fails .unlink .nothing (.exited 1)
  | unloaded : Turn library world fails .load .nothing (.exited 1)
  | loaded : Turn library world fails .load .nothing .bind
  | loadedFirst (clearing : library.clears = true) : Turn library world fails .load .nothing .clear
  | cleared (found : world.lstat fails = .found .socket) :
      Turn library world fails .clear .unlinks .bind
  | clean : Turn library world fails .clear .nothing .bind
  | binds : Turn library world fails .bind .binds (.listen world.fresh)
  | taken : Turn library world fails .bind .nothing (.exited 1)
  | listens {inode : Inode} (succeeds : fails = false) :
      Turn library world fails (.listen inode) (.listens inode) (.wait inode)
  | unheard {inode : Inode} : Turn library world fails (.listen inode) .nothing (.exited 1)
  | closes {inode : Inode} : Turn library world fails (.wait inode) (.closes inode) .lstatAgain
  | closesFirst {inode : Inode} (sweeping : library.sweeps = true) :
      Turn library world fails (.wait inode) (.closes inode) .sweep
  | swept (found : world.lstat fails = .found .socket) :
      Turn library world fails .sweep .unlinks .lstatAgain
  | unswept : Turn library world fails .sweep .nothing .lstatAgain
  | foundAgain (found : world.lstat fails = .found .socket) :
      Turn library world fails .lstatAgain .nothing .unlinkAgain
  | gone : Turn library world fails .lstatAgain .nothing (.exited 0)
  | removedAgain (removable : world.unlinkable fails = true) :
      Turn library world fails .unlinkAgain .unlinks (.exited 0)
  | keptAgain : Turn library world fails .unlinkAgain .nothing (.exited 0)
  | ended {code : Nat} : Turn library world fails (.exited code) .nothing (.exited code)
  | dead : Turn library world fails .killed .nothing .killed

theorem turn_cases (library : Library) (world : World Process) (fails : Bool) (point : Point) :
    Turn library world fails point (world.turn library fails point).1
      (world.turn library fails point).2 := by
  cases point with
  | lstat =>
      simp only [turn]
      cases answer : world.lstat fails with
      | found kind =>
          cases kind with
          | socket => exact .present answer
          | directory => exact .refused
          | other => exact .refused
      | missing => exact .absent answer
      | failed => exact .refused
  | socket =>
      cases fails with
      | false => exact .opened
      | true => exact .unopened rfl
  | fcntl =>
      cases fails with
      | false => exact .flagged
      | true => exact .unflagged rfl
  | connect =>
      simp only [turn]
      cases answer : !fails && world.live with
      | false => exact .unconnected fun live => by simpa [live] using answer
      | true => exact .connected
  | unlink =>
      simp only [turn]
      cases removable : world.unlinkable fails with
      | false => exact .kept
      | true => exact .removed removable
  | load =>
      cases fails with
      | true => exact .unloaded
      | false =>
          simp only [turn]
          cases clearing : library.clears with
          | false => exact .loaded
          | true => exact .loadedFirst clearing
  | clear =>
      simp only [turn]
      by_cases found : world.lstat fails = .found .socket
      · rw [if_pos found]
        exact .cleared found
      · rw [if_neg found]
        exact .clean
  | bind =>
      simp only [turn]
      cases !fails && world.entry.isNone with
      | false => exact .taken
      | true => exact .binds
  | listen inode =>
      cases fails with
      | false => exact .listens rfl
      | true => exact .unheard
  | wait inode =>
      simp only [turn]
      cases sweeping : library.sweeps with
      | false => exact .closes
      | true => exact .closesFirst sweeping
  | sweep =>
      simp only [turn]
      by_cases found : world.lstat fails = .found .socket
      · rw [if_pos found]
        exact .swept found
      · rw [if_neg found]
        exact .unswept
  | lstatAgain =>
      simp only [turn]
      cases answer : world.lstat fails with
      | found kind =>
          cases kind with
          | socket => exact .foundAgain answer
          | directory => exact .gone
          | other => exact .gone
      | missing => exact .gone
      | failed => exact .gone
  | unlinkAgain =>
      simp only [turn]
      cases removable : world.unlinkable fails with
      | false => exact .keptAgain
      | true => exact .removedAgain removable
  | exited code => exact .ended
  | killed => exact .dead

variable [DecidableEq Process]

@[simp] theorem moved_point_self (effect : Effect) (next : Point) :
    (world.moved effect process next).point process = next := Function.update_self _ _ _

theorem moved_point_ne (effect : Effect) (next : Point) (different : other ≠ process) :
    (world.moved effect process next).point other = world.point other :=
  Function.update_of_ne different _ _

theorem step_act_cases (library : Library) (world : World Process) (process : Process)
    (fails : Bool) :
    ∃ effect next, Turn library world fails (world.point process) effect next ∧
      world.turn library fails (world.point process) = (effect, next) ∧
      world.step library (.act process fails) = world.moved effect process next :=
  ⟨_, _, turn_cases library world fails (world.point process), rfl, rfl⟩

end Lemmas

end World

end Llamad.SocketPath
