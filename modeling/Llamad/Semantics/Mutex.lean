import Mathlib.Algebra.Order.BigOperators.Group.Finset
import Mathlib.Data.Prod.Lex
import Llamad.Semantics.Program

/-!
# Calls that share a value under one mutex

A call decides on its own whether it needs the shared value, waits for the lock, takes step
after step while it holds it, and ends on its own. `advance` lets one call take its next
step, so every list of calls is a schedule. Whatever the schedule, the shared value and the
answers are those of the calls run one at a time, in the order in which they took the lock;
no schedule gets stuck before every call is answered, and none goes on for ever.
-/

namespace Llamad.Semantics.Mutex

open Program

/-- Calls of one kind of component. A section that throws releases the lock as one that
returns does, and `conclude` is told how it ended. -/
structure System (Thread State Shared Private Control Error Value Answer : Type) where
  /-- What a section works on: the shared value and what belongs to the call. -/
  join : Shared → Private → State
  shared : State → Shared
  own : State → Private
  join_shared_own : ∀ state, join (shared state) (own state) = state
  /-- Everything before the lock: an answer that needs no lock, or where the section starts. -/
  prepare : Thread → Answer ⊕ Control × Private
  /-- One step of the section. -/
  step : Thread → Control → Program State Error (Control ⊕ Value)
  measure : Thread → Control → State → Nat
  decreases : ∀ {thread control state next after},
    step thread control state = (.ok (.inl next), after) →
      measure thread next after < measure thread control state
  /-- Everything after the lock. -/
  conclude : Thread → Except Error Value → Private → Answer

/-- How far a call has come. -/
inductive Phase (Private Control Error Value Answer : Type) where
  | called
  | waiting (control : Control) (own : Private)
  | inside (control : Control) (own : Private)
  | leaving (outcome : Except Error Value) (own : Private)
  | answered (answer : Answer)

/-- The shared value, the mutex and every call. -/
structure Configuration (Thread Shared Private Control Error Value Answer : Type) where
  shared : Shared
  holder : Option Thread := none
  phase : Thread → Phase Private Control Error Value Answer := fun _ => .called
  /-- The calls that have taken the lock, in the order in which they did. -/
  order : List Thread := []

variable {Thread State Shared Private Control Error Value Answer : Type}

/-- The call is not answered yet and does not wait for a lock that is held. -/
def Configuration.Ready
    (configuration : Configuration Thread Shared Private Control Error Value Answer)
    (thread : Thread) : Prop :=
  match configuration.phase thread with
  | .waiting _ _ => configuration.holder = none
  | .answered _ => False
  | _ => True

namespace System

variable (system : System Thread State Shared Private Control Error Value Answer)

/-- A section run to its end by a call that is not interrupted. -/
def whole (thread : Thread) (control : Control) : Program State Error Value :=
  loop (system.measure thread) (system.step thread) system.decreases control

/-- A call run on its own: its answer, and what it leaves of the shared value. -/
def alone (thread : Thread) (shared : Shared) : Answer × Shared :=
  match system.prepare thread with
  | .inl answer => (answer, shared)
  | .inr (control, own) =>
      let ended := system.whole thread control (system.join shared own)
      (system.conclude thread ended.1 (system.own ended.2), system.shared ended.2)

/-- What calls run one at a time leave of the shared value. -/
def serial (initial : Shared) (order : List Thread) : Shared :=
  order.foldl (fun shared thread => (system.alone thread shared).2) initial

theorem serial_snoc (initial : Shared) (order : List Thread) (thread : Thread) :
    system.serial initial (order ++ [thread]) =
      (system.alone thread (system.serial initial order)).2 := by
  rw [serial, List.foldl_append]
  rfl

end System

section Steps

variable [DecidableEq Thread]

/-- One call comes to another phase. -/
def Configuration.move
    (configuration : Configuration Thread Shared Private Control Error Value Answer)
    (thread : Thread) (phase : Phase Private Control Error Value Answer) :
    Configuration Thread Shared Private Control Error Value Answer :=
  { configuration with phase := Function.update configuration.phase thread phase }

@[simp] theorem Configuration.move_phase_self
    (configuration : Configuration Thread Shared Private Control Error Value Answer)
    (thread : Thread) (phase : Phase Private Control Error Value Answer) :
    (configuration.move thread phase).phase thread = phase :=
  Function.update_self ..

@[simp] theorem Configuration.move_phase_of_ne
    (configuration : Configuration Thread Shared Private Control Error Value Answer)
    {thread other : Thread} (distinct : other ≠ thread)
    (phase : Phase Private Control Error Value Answer) :
    (configuration.move thread phase).phase other = configuration.phase other :=
  Function.update_of_ne distinct ..

variable (system : System Thread State Shared Private Control Error Value Answer)
  (configuration : Configuration Thread Shared Private Control Error Value Answer)

/-- One call takes its next step; one that waits for a lock which is held takes none. -/
def System.advance (thread : Thread) :
    Configuration Thread Shared Private Control Error Value Answer :=
  match configuration.phase thread with
  | .called =>
      match system.prepare thread with
      | .inl answer => configuration.move thread (.answered answer)
      | .inr (control, own) => configuration.move thread (.waiting control own)
  | .waiting control own =>
      match configuration.holder with
      | none =>
          { configuration.move thread (.inside control own) with
            holder := some thread
            order := configuration.order ++ [thread] }
      | some _ => configuration
  | .inside control own =>
      match system.step thread control (system.join configuration.shared own) with
      | (.ok (.inl next), state) =>
          { configuration.move thread (.inside next (system.own state)) with
            shared := system.shared state }
      | (.ok (.inr value), state) =>
          { configuration.move thread (.leaving (.ok value) (system.own state)) with
            shared := system.shared state
            holder := none }
      | (.error error, state) =>
          { configuration.move thread (.leaving (.error error) (system.own state)) with
            shared := system.shared state
            holder := none }
  | .leaving outcome own =>
      configuration.move thread (.answered (system.conclude thread outcome own))
  | .answered _ => configuration

/-- The calls take steps as the schedule says. -/
def System.run (schedule : List Thread) :
    Configuration Thread Shared Private Control Error Value Answer :=
  schedule.foldl system.advance configuration

theorem System.run_append (front back : List Thread) :
    system.run configuration (front ++ back) =
      system.run (system.run configuration front) back :=
  List.foldl_append

end Steps

section Serial

variable (system : System Thread State Shared Private Control Error Value Answer) (initial : Shared)

/-- The section of a call, started from what the calls in `before` leave, ends in `outcome`. -/
def System.Ends (thread : Thread) (before : List Thread)
    (outcome : Except Error Value × State) : Prop :=
  ∃ control own, system.prepare thread = .inr (control, own) ∧
    system.whole thread control (system.join (system.serial initial before) own) = outcome

/-- What a phase says of a call when the calls in `order` have taken the lock. -/
def System.Sound (order : List Thread) (thread : Thread) :
    Phase Private Control Error Value Answer → Prop
  | .called => thread ∉ order
  | .waiting control own => thread ∉ order ∧ system.prepare thread = .inr (control, own)
  | .inside _ _ => thread ∈ order
  | .leaving outcome own => ∃ before after state, order = before ++ thread :: after ∧
      system.own state = own ∧ system.Ends initial thread before (outcome, state)
  | .answered answer =>
      (∃ before after, order = before ++ thread :: after ∧
        answer = (system.alone thread (system.serial initial before)).1) ∨
      thread ∉ order ∧ system.prepare thread = .inl answer

/-- What the holder of the lock does from here ends as its whole section does. -/
def System.Holds (shared : Shared) (order : List Thread) (thread : Thread) :
    Phase Private Control Error Value Answer → Prop
  | .inside control own => ∃ before, order = before ++ [thread] ∧
      system.Ends initial thread before (system.whole thread control (system.join shared own))
  | _ => False

/-- What is true of every configuration that some schedule brings about from `initial`. -/
structure System.Consistent
    (configuration : Configuration Thread Shared Private Control Error Value Answer) :
    Prop where
  nodup : configuration.order.Nodup
  entered : ∀ thread ∈ configuration.order, ∃ entry, system.prepare thread = .inr entry
  sound : ∀ thread,
    system.Sound initial configuration.order thread (configuration.phase thread)
  exclusive : ∀ thread control own, configuration.phase thread = .inside control own →
    configuration.holder = some thread
  free : configuration.holder = none →
    configuration.shared = system.serial initial configuration.order
  held : ∀ thread, configuration.holder = some thread →
    system.Holds initial configuration.shared configuration.order thread
      (configuration.phase thread)

variable {system : System Thread State Shared Private Control Error Value Answer} {initial : Shared}
  {thread : Thread} {order before : List Thread}

/-- A section that has ended is the call run on its own. -/
theorem System.Ends.alone {outcome : Except Error Value × State}
    (ends : system.Ends initial thread before outcome) :
    system.alone thread (system.serial initial before) =
      (system.conclude thread outcome.1 (system.own outcome.2), system.shared outcome.2) := by
  obtain ⟨control, own, prepared, ended⟩ := ends
  simp only [System.alone, prepared, ended]

/-- Another call that takes the lock changes nothing for this one. -/
theorem System.Sound.snoc {phase : Phase Private Control Error Value Answer} {other : Thread}
    (sound : system.Sound initial order thread phase) (distinct : thread ≠ other) :
    system.Sound initial (order ++ [other]) thread phase := by
  have absent (outside : thread ∉ order) : thread ∉ order ++ [other] := by
    simp [outside, distinct]
  cases phase with
  | called => exact absent sound
  | waiting control own => exact ⟨absent sound.1, sound.2⟩
  | inside control own => exact List.mem_append_left _ sound
  | leaving outcome own =>
      obtain ⟨before, after, state, rfl, same, ends⟩ := sound
      exact ⟨before, after ++ [other], state, by simp, same, ends⟩
  | answered answer =>
      obtain ⟨before, after, rfl, same⟩ | ⟨outside, prepared⟩ := sound
      · exact .inl ⟨before, after ++ [other], by simp, same⟩
      · exact .inr ⟨absent outside, prepared⟩

/-- Before anybody has called. -/
theorem System.Consistent.start
    (system : System Thread State Shared Private Control Error Value Answer) (initial : Shared) :
    system.Consistent initial { shared := initial } where
  nodup := .nil
  entered := by rintro _ ⟨⟩
  sound := fun _ => List.not_mem_nil
  exclusive := by rintro _ _ _ ⟨⟩
  free := fun _ => rfl
  held := by rintro _ ⟨⟩

/-- A call that is not in its section does not hold the lock. -/
theorem System.Consistent.outside
    {configuration : Configuration Thread Shared Private Control Error Value Answer}
    (consistent : system.Consistent initial configuration)
    (elsewhere : ∀ control own, configuration.phase thread ≠ .inside control own) :
    configuration.holder ≠ some thread := by
  intro holder
  have holds := consistent.held thread holder
  cases here : configuration.phase thread with
  | inside control own => exact elsewhere control own here
  | _ => rw [here] at holds; exact holds

/-- A call that waits for its answer is not held up for ever by itself: some call can take a
step. -/
theorem System.Consistent.exists_ready
    {configuration : Configuration Thread Shared Private Control Error Value Answer}
    (consistent : system.Consistent initial configuration) (thread : Thread)
    (unanswered : ∀ answer, configuration.phase thread ≠ .answered answer) :
    ∃ other, configuration.Ready other ∧ (other = thread ∨ other ∈ configuration.order) := by
  cases here : configuration.phase thread with
  | answered answer => exact absurd here (unanswered answer)
  | waiting control own =>
      cases holder : configuration.holder with
      | none => exact ⟨thread, by rw [Configuration.Ready, here]; exact holder, .inl rfl⟩
      | some other =>
          have holds := consistent.held other holder
          cases there : configuration.phase other with
          | inside control own =>
              rw [there] at holds
              obtain ⟨before, ordered, _⟩ := holds
              refine ⟨other, by rw [Configuration.Ready, there]; trivial, .inr ?_⟩
              rw [ordered]
              exact List.mem_append_right _ (List.mem_singleton_self _)
          | _ => rw [there] at holds; exact holds.elim
  | _ => exact ⟨thread, by rw [Configuration.Ready, here]; trivial, .inl rfl⟩

end Serial

section Steps

variable [DecidableEq Thread]
  {system : System Thread State Shared Private Control Error Value Answer} {initial : Shared}
  {configuration : Configuration Thread Shared Private Control Error Value Answer}
  {thread : Thread}

namespace System.Consistent

/-- A call that is not in its section comes to a phase that is no section either. -/
theorem move (consistent : system.Consistent initial configuration)
    {phase : Phase Private Control Error Value Answer}
    (outside : configuration.holder ≠ some thread)
    (still : ∀ control own, phase ≠ .inside control own)
    (sound : system.Sound initial configuration.order thread phase) :
    system.Consistent initial (configuration.move thread phase) where
  nodup := consistent.nodup
  entered := consistent.entered
  sound := by
    intro other
    by_cases same : other = thread
    · subst same
      rw [Configuration.move_phase_self]
      exact sound
    · rw [Configuration.move_phase_of_ne _ same]
      exact consistent.sound other
  exclusive := by
    intro other control own here
    by_cases same : other = thread
    · subst same
      rw [Configuration.move_phase_self] at here
      exact absurd here (still control own)
    · rw [Configuration.move_phase_of_ne _ same] at here
      exact consistent.exclusive other control own here
  free := consistent.free
  held := by
    intro other holds
    have same : other ≠ thread := by
      rintro rfl
      exact outside holds
    rw [Configuration.move_phase_of_ne _ same]
    exact consistent.held other holds

/-- A call takes the lock that nobody holds. -/
theorem acquire (consistent : system.Consistent initial configuration) {control : Control}
    {own : Private} (waits : configuration.phase thread = .waiting control own)
    (nobody : configuration.holder = none) :
    system.Consistent initial
      { configuration.move thread (.inside control own) with
        holder := some thread
        order := configuration.order ++ [thread] } := by
  have sound := consistent.sound thread
  rw [waits] at sound
  obtain ⟨absent, prepared⟩ := sound
  refine ⟨?_, fun other taken => ?_, fun other => ?_, fun other control own here => ?_,
    by rintro ⟨⟩, ?_⟩
  · exact List.nodup_append.mpr ⟨consistent.nodup, by simp, by
      rintro other member _ last rfl
      rw [List.mem_singleton.mp last] at member
      exact absent member⟩
  · obtain taken | last := List.mem_append.mp taken
    · exact consistent.entered other taken
    · exact ⟨_, List.mem_singleton.mp last ▸ prepared⟩
  · by_cases same : other = thread
    · subst same
      simp only [Configuration.move_phase_self]
      exact List.mem_append_right _ (List.mem_singleton_self _)
    · simp only [Configuration.move_phase_of_ne _ same]
      exact (consistent.sound other).snoc same
  · by_cases same : other = thread
    · rw [same]
    · simp only [Configuration.move_phase_of_ne _ same] at here
      have holds := consistent.exclusive other control own here
      rw [nobody] at holds
      cases holds
  · rintro _ ⟨⟩
    simp only [Configuration.move_phase_self]
    exact ⟨configuration.order, rfl, control, own, prepared, by
      rw [← consistent.free nobody]
      rfl⟩

/-- The holder of the lock takes a step and stays in its section. -/
theorem stay (consistent : system.Consistent initial configuration) {control next : Control}
    {own : Private} {state : State}
    (inside : configuration.phase thread = .inside control own)
    (stepped : system.step thread control (system.join configuration.shared own) =
      (.ok (.inl next), state)) :
    system.Consistent initial
      { configuration.move thread (.inside next (system.own state)) with
        shared := system.shared state } := by
  have holder := consistent.exclusive thread control own inside
  have holds := consistent.held thread holder
  have sound := consistent.sound thread
  rw [inside] at holds sound
  obtain ⟨before, ordered, first, start, prepared, ended⟩ := holds
  refine ⟨consistent.nodup, consistent.entered, fun other => ?_, fun other control own here => ?_,
    fun free => ?_, fun other holds => ?_⟩
  · by_cases same : other = thread
    · subst same
      simp only [Configuration.move_phase_self]
      exact sound
    · simp only [Configuration.move_phase_of_ne _ same]
      exact consistent.sound other
  · by_cases same : other = thread
    · rw [same]
      exact holder
    · simp only [Configuration.move_phase_of_ne _ same] at here
      exact consistent.exclusive other control own here
  · rw [show configuration.holder = none from free] at holder
    cases holder
  · obtain rfl : thread = other := by
      rw [show configuration.holder = some other from holds] at holder
      cases holder
      rfl
    simp only [Configuration.move_phase_self]
    refine ⟨before, ordered, first, start, prepared, ?_⟩
    rw [system.join_shared_own]
    exact ended.trans (loop_of_inl stepped)

/-- The holder of the lock ends its section and lets go of the lock. -/
theorem release (consistent : system.Consistent initial configuration) {control : Control}
    {own : Private} {state : State} {outcome : Except Error Value}
    (inside : configuration.phase thread = .inside control own)
    (ended : system.whole thread control (system.join configuration.shared own) =
      (outcome, state)) :
    system.Consistent initial
      { configuration.move thread (.leaving outcome (system.own state)) with
        shared := system.shared state
        holder := none } := by
  have holder := consistent.exclusive thread control own inside
  have holds := consistent.held thread holder
  rw [inside] at holds
  obtain ⟨before, ordered, ends⟩ := holds
  rw [ended] at ends
  refine ⟨consistent.nodup, consistent.entered, fun other => ?_, fun other control own here => ?_,
    fun _ => ?_, by rintro _ ⟨⟩⟩
  · by_cases same : other = thread
    · subst same
      simp only [Configuration.move_phase_self]
      exact ⟨before, [], state, ordered, rfl, ends⟩
    · simp only [Configuration.move_phase_of_ne _ same]
      exact consistent.sound other
  · by_cases same : other = thread
    · subst same
      simp only [Configuration.move_phase_self] at here
      cases here
    · simp only [Configuration.move_phase_of_ne _ same] at here
      have other := consistent.exclusive other control own here
      rw [holder] at other
      cases other
      exact absurd rfl same
  · change system.shared state = system.serial initial configuration.order
    rw [ordered, serial_snoc, ends.alone]

/-- Every step of every call keeps a configuration consistent. -/
theorem advance (consistent : system.Consistent initial configuration) (thread : Thread) :
    system.Consistent initial (system.advance configuration thread) := by
  have sound := consistent.sound thread
  cases here : configuration.phase thread with
  | called =>
      have outside : configuration.holder ≠ some thread :=
        consistent.outside fun control own inside => by rw [here] at inside; cases inside
      rw [here] at sound
      simp only [System.advance, here]
      cases prepared : system.prepare thread with
      | inl answer =>
          exact consistent.move outside (by rintro _ _ ⟨⟩) (.inr ⟨sound, prepared⟩)
      | inr entry =>
          exact consistent.move outside (by rintro _ _ ⟨⟩) ⟨sound, prepared⟩
  | waiting control own =>
      simp only [System.advance, here]
      cases holder : configuration.holder with
      | none => exact consistent.acquire here holder
      | some other => exact consistent
  | inside control own =>
      rcases stepped : system.step thread control (system.join configuration.shared own) with
        ⟨error | (next | value), state⟩
      · simp only [System.advance, here, stepped]
        exact consistent.release here (loop_of_error stepped)
      · simp only [System.advance, here, stepped]
        exact consistent.stay here stepped
      · simp only [System.advance, here, stepped]
        exact consistent.release here (loop_of_inr stepped)
  | leaving outcome own =>
      have outside : configuration.holder ≠ some thread :=
        consistent.outside fun control own inside => by rw [here] at inside; cases inside
      rw [here] at sound
      obtain ⟨before, after, state, ordered, rfl, ends⟩ := sound
      simp only [System.advance, here]
      refine consistent.move outside (by rintro _ _ ⟨⟩) (.inl ⟨before, after, ordered, ?_⟩)
      rw [ends.alone]
  | answered answer =>
      simp only [System.advance, here]
      exact consistent

/-- Every schedule leaves a consistent configuration. -/
theorem run (consistent : system.Consistent initial configuration) (schedule : List Thread) :
    system.Consistent initial (system.run configuration schedule) := by
  induction schedule generalizing configuration with
  | nil => exact consistent
  | cons thread schedule inductionHypothesis =>
      exact inductionHypothesis (consistent.advance thread)

end System.Consistent

/-- The calls that have had the lock keep their places. -/
theorem System.order_grows (system : System Thread State Shared Private Control Error Value Answer)
    (configuration : Configuration Thread Shared Private Control Error Value Answer)
    (schedule : List Thread) :
    configuration.order <+: (system.run configuration schedule).order := by
  induction schedule generalizing configuration with
  | nil => exact List.prefix_rfl
  | cons thread schedule inductionHypothesis =>
      refine List.IsPrefix.trans ?_ (inductionHypothesis (system.advance configuration thread))
      rw [System.advance]
      repeat' split
      all_goals first | exact List.prefix_rfl | exact List.prefix_append _ _

/-- A call that was answered before another one had begun stands in front of it, where both
have taken the lock in the end. -/
theorem System.Consistent.answered_precedes (consistent : system.Consistent initial configuration)
    {earlier later : Thread} {answer : Answer}
    (answered : configuration.phase earlier = .answered answer)
    (unbegun : configuration.phase later = .called) (schedule : List Thread)
    (took : earlier ∈ (system.run configuration schedule).order)
    (tookToo : later ∈ (system.run configuration schedule).order) :
    [earlier, later].Sublist (system.run configuration schedule).order := by
  obtain ⟨entry, prepared⟩ := (consistent.run schedule).entered earlier took
  obtain ⟨others, grown⟩ := system.order_grows configuration schedule
  have front : earlier ∈ configuration.order := by
    have sound := consistent.sound earlier
    rw [answered] at sound
    obtain ⟨before, after, ordered, _⟩ | ⟨_, unlocked⟩ := sound
    · simp [ordered]
    · rw [unlocked] at prepared
      cases prepared
  have outside : later ∉ configuration.order := by
    have sound := consistent.sound later
    rwa [unbegun] at sound
  rw [← grown] at tookToo ⊢
  have back := (List.mem_append.mp tookToo).resolve_left outside
  exact (List.singleton_sublist.mpr front).append (List.singleton_sublist.mpr back)

/-- The control of a call that waits for the lock or holds it. -/
def Phase.control? : Phase Private Control Error Value Answer → Option Control
  | .waiting control _ => some control
  | .inside control _ => some control
  | _ => none

variable (system) in
/-- A property of the shared value that every step of a section keeps, when the section
started where a call may start one. -/
structure System.Keeps (holds : Shared → Prop) (allowed : Thread → Control → Prop) : Prop where
  starts : ∀ {thread control own}, system.prepare thread = .inr (control, own) →
    allowed thread control
  steps : ∀ {thread control shared own}, allowed thread control → holds shared →
    holds (system.shared (system.step thread control (system.join shared own)).2)
  stays : ∀ {thread control next state after}, allowed thread control →
    system.step thread control state = (.ok (.inl next), after) → allowed thread next

/-- The property holds, and every call stands where calls may stand. -/
structure Configuration.Kept (holds : Shared → Prop) (allowed : Thread → Control → Prop)
    (configuration : Configuration Thread Shared Private Control Error Value Answer) : Prop where
  shared : holds configuration.shared
  placed : ∀ thread, ∀ control ∈ (configuration.phase thread).control?, allowed thread control

variable {holds : Shared → Prop} {allowed : Thread → Control → Prop}
  {after : Configuration Thread Shared Private Control Error Value Answer}

/-- One call comes to another phase, with whatever it leaves of the shared value. -/
theorem Configuration.Kept.update (kept : configuration.Kept holds allowed)
    (others : ∀ other, other ≠ thread → after.phase other = configuration.phase other)
    (shared : holds after.shared)
    (placed : ∀ control ∈ (after.phase thread).control?, allowed thread control) :
    after.Kept holds allowed where
  shared := shared
  placed := by
    intro other
    by_cases same : other = thread
    · exact same ▸ placed
    · rw [others other same]
      exact kept.placed other

/-- Every step of every call keeps what sections keep. -/
theorem System.Keeps.advance (keeps : system.Keeps holds allowed)
    (kept : configuration.Kept holds allowed) (thread : Thread) :
    (system.advance configuration thread).Kept holds allowed := by
  have placed := kept.placed thread
  have others (phase : Phase Private Control Error Value Answer) (other : Thread)
      (distinct : other ≠ thread) :
      (configuration.move thread phase).phase other = configuration.phase other :=
    configuration.move_phase_of_ne distinct phase
  cases here : configuration.phase thread with
  | called =>
      simp only [System.advance, here]
      cases prepared : system.prepare thread with
      | inl answer =>
          exact kept.update (others _) kept.shared (by simp [Phase.control?])
      | inr entry =>
          refine kept.update (others _) kept.shared ?_
          rw [Configuration.move_phase_self]
          rintro _ ⟨⟩
          exact keeps.starts prepared
  | waiting control own =>
      rw [here] at placed
      simp only [System.advance, here]
      cases configuration.holder with
      | some other => exact kept
      | none =>
          refine kept.update (others _) kept.shared ?_
          simp only [Configuration.move_phase_self]
          exact placed
  | inside control own =>
      rw [here] at placed
      have steps : holds (system.shared
          (system.step thread control (system.join configuration.shared own)).2) :=
        keeps.steps (placed control rfl) kept.shared
      rcases stepped : system.step thread control (system.join configuration.shared own) with
        ⟨error | (next | value), state⟩
      · rw [stepped] at steps
        simp only [System.advance, here, stepped]
        exact kept.update (others _) steps (by simp [Phase.control?])
      · rw [stepped] at steps
        simp only [System.advance, here, stepped]
        refine kept.update (others _) steps ?_
        simp only [Configuration.move_phase_self]
        rintro _ ⟨⟩
        exact keeps.stays (placed control rfl) stepped
      · rw [stepped] at steps
        simp only [System.advance, here, stepped]
        exact kept.update (others _) steps (by simp [Phase.control?])
  | leaving outcome own =>
      simp only [System.advance, here]
      exact kept.update (others _) kept.shared (by simp [Phase.control?])
  | answered answer =>
      simp only [System.advance, here]
      exact kept

/-- What sections keep of the shared value holds of it at any time of any schedule, also
while a call is in its section. -/
theorem System.Keeps.run (keeps : system.Keeps holds allowed)
    (kept : configuration.Kept holds allowed) (schedule : List Thread) :
    (system.run configuration schedule).Kept holds allowed := by
  induction schedule generalizing configuration with
  | nil => exact kept
  | cons thread schedule inductionHypothesis =>
      exact inductionHypothesis (keeps.advance kept thread)

end Steps

section Progress

/-- How many phases a call still has to go through. -/
def Phase.ahead : Phase Private Control Error Value Answer → Nat
  | .called => 4
  | .waiting _ _ => 3
  | .inside _ _ => 2
  | .leaving _ _ => 1
  | .answered _ => 0

variable (system : System Thread State Shared Private Control Error Value Answer)

/-- What is left of the section of the call that holds the lock. -/
def System.rest (configuration : Configuration Thread Shared Private Control Error Value Answer) :
    Nat :=
  match configuration.holder with
  | none => 0
  | some thread =>
      match configuration.phase thread with
      | .inside control own =>
          system.measure thread control (system.join configuration.shared own)
      | _ => 0

/-- What is left of all calls: the phases ahead of them, then the rest of the section. -/
def System.remaining (calls : Finset Thread)
    (configuration : Configuration Thread Shared Private Control Error Value Answer) :
    Nat ×ₗ Nat :=
  toLex (∑ thread ∈ calls, (configuration.phase thread).ahead, system.rest configuration)

/-- The first steps of an endless schedule. -/
def firstSteps (schedule : Nat → Thread) (count : Nat) : List Thread :=
  (List.range count).map schedule

theorem firstSteps_add (schedule : Nat → Thread) (first count : Nat) :
    firstSteps schedule (first + count) =
      firstSteps schedule first ++ firstSteps (fun index => schedule (first + index)) count := by
  simp only [firstSteps, List.range_add, List.map_append, List.map_map, Function.comp_def]

theorem mem_firstSteps {schedule : Nat → Thread} {count : Nat} {thread : Thread} :
    thread ∈ firstSteps schedule count ↔ ∃ index < count, schedule index = thread := by
  simp [firstSteps]

variable {system} [DecidableEq Thread] {initial : Shared} {calls : Finset Thread}
  {configuration after : Configuration Thread Shared Private Control Error Value Answer}
  {thread : Thread}

/-- A call that comes to a later phase leaves less to do. -/
theorem System.remaining_lt_of_ahead (member : thread ∈ calls)
    (others : ∀ other, other ≠ thread → after.phase other = configuration.phase other)
    (further : (after.phase thread).ahead < (configuration.phase thread).ahead) :
    system.remaining calls after < system.remaining calls configuration := by
  refine Prod.Lex.toLex_lt_toLex.mpr (.inl ?_)
  refine Finset.sum_lt_sum (fun other _ => ?_) ⟨thread, member, further⟩
  by_cases same : other = thread
  · rw [same]
    exact Nat.le_of_lt further
  · rw [others other same]

/-- Every step of a call that is ready leaves less to do. -/
theorem System.Consistent.remaining_lt (consistent : system.Consistent initial configuration)
    (member : thread ∈ calls) (ready : configuration.Ready thread) :
    system.remaining calls (system.advance configuration thread) <
      system.remaining calls configuration := by
  cases here : configuration.phase thread with
  | called =>
      simp only [System.advance, here]
      cases prepared : system.prepare thread with
      | inl answer =>
          refine remaining_lt_of_ahead member (fun other same => ?_) ?_
          · simp only [Configuration.move_phase_of_ne _ same]
          · simp only [Configuration.move_phase_self, here, Phase.ahead]
            omega
      | inr entry =>
          refine remaining_lt_of_ahead member (fun other same => ?_) ?_
          · simp only [Configuration.move_phase_of_ne _ same]
          · simp only [Configuration.move_phase_self, here, Phase.ahead]
            omega
  | waiting control own =>
      rw [Configuration.Ready, here] at ready
      simp only [System.advance, here, show configuration.holder = none from ready]
      refine remaining_lt_of_ahead member (fun other same => ?_) ?_
      · simp only [Configuration.move_phase_of_ne _ same]
      · simp only [Configuration.move_phase_self, here, Phase.ahead]
        omega
  | inside control own =>
      have holder := consistent.exclusive thread control own here
      rcases stepped : system.step thread control (system.join configuration.shared own) with
        ⟨error | (next | value), state⟩
      · simp only [System.advance, here, stepped]
        refine remaining_lt_of_ahead member (fun other same => ?_) ?_
        · simp only [Configuration.move_phase_of_ne _ same]
        · simp only [Configuration.move_phase_self, here, Phase.ahead]
          omega
      · simp only [System.advance, here, stepped]
        refine Prod.Lex.toLex_lt_toLex.mpr (.inr ⟨Finset.sum_congr rfl fun other _ => ?_, ?_⟩)
        · by_cases same : other = thread
          · simp only [same, Configuration.move_phase_self, here, Phase.ahead]
          · simp only [Configuration.move_phase_of_ne _ same]
        · have decreases := system.decreases stepped
          simp only [System.rest, Configuration.move, holder, Function.update_self, here,
            system.join_shared_own]
          exact decreases
      · simp only [System.advance, here, stepped]
        refine remaining_lt_of_ahead member (fun other same => ?_) ?_
        · simp only [Configuration.move_phase_of_ne _ same]
        · simp only [Configuration.move_phase_self, here, Phase.ahead]
          omega
  | leaving outcome own =>
      simp only [System.advance, here]
      refine remaining_lt_of_ahead member (fun other same => ?_) ?_
      · simp only [Configuration.move_phase_of_ne _ same]
      · simp only [Configuration.move_phase_self, here, Phase.ahead]
        omega
  | answered answer =>
      rw [Configuration.Ready, here] at ready
      exact ready.elim

/-- A call that is not ready takes no step. -/
theorem System.advance_of_not_ready (idle : ¬ configuration.Ready thread) :
    system.advance configuration thread = configuration := by
  cases here : configuration.phase thread with
  | waiting control own =>
      simp only [Configuration.Ready, here] at idle
      simp only [System.advance, here]
      split
      · exact absurd ‹_› idle
      · rfl
  | answered answer => simp only [System.advance, here]
  | _ => exact absurd (by simp only [Configuration.Ready, here]) idle

/-- Turns of calls that are not ready change nothing. -/
theorem System.run_of_not_ready {schedule : List Thread}
    (idle : ∀ thread ∈ schedule, ¬ configuration.Ready thread) :
    system.run configuration schedule = configuration := by
  induction schedule with
  | nil => rfl
  | cons thread schedule inductionHypothesis =>
      rw [List.forall_mem_cons] at idle
      rw [System.run, List.foldl_cons, advance_of_not_ready idle.1]
      exact inductionHypothesis idle.2

/-- Only calls that take steps are given the lock. -/
theorem System.order_subset (holds : ∀ thread ∈ configuration.order, thread ∈ calls)
    (member : thread ∈ calls) :
    ∀ other ∈ (system.advance configuration thread).order, other ∈ calls := by
  rw [System.advance]
  repeat' split
  all_goals first
    | exact holds
    | exact fun other taken => (List.mem_append.mp taken).elim (holds other) fun last =>
        List.mem_singleton.mp last ▸ member

/-- A schedule in which every call has its turn again and again answers every call. -/
theorem System.Consistent.all_answered (consistent : system.Consistent initial configuration)
    (within : ∀ thread ∈ configuration.order, thread ∈ calls) (schedule : Nat → Thread)
    (scheduled : ∀ index, schedule index ∈ calls)
    (fair : ∀ thread ∈ calls, ∀ index, ∃ later, index ≤ later ∧ schedule later = thread) :
    ∃ count, ∀ thread ∈ calls, ∃ answer,
      (system.run configuration (firstSteps schedule count)).phase thread = .answered answer := by
  induction left : system.remaining calls configuration using
    WellFoundedLT.induction generalizing configuration schedule with
  | ind bound inductionHypothesis =>
    by_cases waiting : ∃ thread ∈ calls, ∀ answer, configuration.phase thread ≠ .answered answer
    · obtain ⟨thread, member, unanswered⟩ := waiting
      obtain ⟨other, ready, place⟩ := consistent.exists_ready thread unanswered
      have turn : ∃ index, configuration.Ready (schedule index) := by
        obtain ⟨later, _, same⟩ := fair other
          (place.elim (fun same => same ▸ member) fun taken => within other taken) 0
        exact ⟨later, same ▸ ready⟩
      classical
      let first := Nat.find turn
      have idle : system.run configuration (firstSteps schedule first) = configuration := by
        refine System.run_of_not_ready fun thread early => ?_
        obtain ⟨index, before, rfl⟩ := mem_firstSteps.mp early
        exact Nat.find_min turn before
      have stepped : system.run configuration (firstSteps schedule (first + 1)) =
          system.advance configuration (schedule first) := by
        rw [firstSteps_add, System.run_append, idle]
        rfl
      obtain ⟨count, finished⟩ := inductionHypothesis _
        (left ▸ consistent.remaining_lt (scheduled first) (Nat.find_spec turn))
        (consistent.advance (schedule first)) (System.order_subset within (scheduled first))
        (fun index => schedule (first + 1 + index)) (fun index => scheduled _)
        (fun thread member index => by
          obtain ⟨later, after, same⟩ := fair thread member (first + 1 + index)
          refine ⟨later - (first + 1), by omega, ?_⟩
          rw [← same]
          congr 1
          omega) rfl
      refine ⟨first + 1 + count, ?_⟩
      rw [firstSteps_add, System.run_append, stepped]
      exact finished
    · refine ⟨0, fun thread member => ?_⟩
      by_contra none
      exact waiting ⟨thread, member, fun answer same => none ⟨answer, same⟩⟩

end Progress

end Llamad.Semantics.Mutex
