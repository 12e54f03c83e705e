import Mathlib.Init

/-!
# Programs that return or throw

`Program` is state passing with exceptions that keep the state they were thrown
in. `Triple` is its Hoare logic with one postcondition for a return and one for a
throw. `loop` is a `while (true)` whose body either leaves the loop or goes round
with a smaller measure; `Triple.loop` is its invariant rule, so no loop of a
program needs an induction of its own.
-/

namespace Llamad.Semantics

/-- A computation over a state which returns a value or throws an error. -/
def Program (State Error Value : Type) := State → Except Error Value × State

namespace Program

variable {State Outer Error Value Result Local : Type}

instance : Monad (Program State Error) where
  pure value := fun state => (.ok value, state)
  bind program next := fun state =>
    match program state with
    | (.ok value, after) => next value after
    | (.error error, after) => (.error error, after)

instance : MonadExceptOf Error (Program State Error) where
  throw error := fun state => (.error error, state)
  tryCatch program handler := fun state =>
    match program state with
    | (.ok value, after) => (.ok value, after)
    | (.error error, after) => handler error after

/-- The current state. -/
def get : Program State Error State := fun state => (.ok state, state)

/-- Replace the state by a function of it. -/
def modify (change : State → State) : Program State Error Unit := fun state =>
  (.ok (), change state)

/-- A computation that leaves the state alone. -/
def attempt (result : Except Error Value) : Program State Error Value := fun state =>
  (result, state)

/-- Throw `error` when the condition holds. -/
def throwIf (condition : Prop) [Decidable condition] (error : Error) :
    Program State Error Unit :=
  if condition then throw error else pure ()

/-- Run a program on one component of a larger state. -/
def zoom (view : Outer → State) (update : State → Outer → Outer)
    (program : Program State Error Value) : Program Outer Error Value := fun outer =>
  ((program (view outer)).1, update (program (view outer)).2 outer)

@[simp] theorem pure_apply (value : Value) (state : State) :
    (pure value : Program State Error Value) state = (.ok value, state) := rfl

@[simp] theorem throw_apply (error : Error) (state : State) :
    (throw error : Program State Error Value) state = (.error error, state) := rfl

@[simp] theorem get_apply (state : State) :
    (get : Program State Error State) state = (.ok state, state) := rfl

@[simp] theorem modify_apply (change : State → State) (state : State) :
    (modify change : Program State Error Unit) state = (.ok (), change state) := rfl

@[simp] theorem attempt_apply (result : Except Error Value) (state : State) :
    (attempt result : Program State Error Value) state = (result, state) := rfl

@[simp] theorem zoom_apply (view : Outer → State) (update : State → Outer → Outer)
    (program : Program State Error Value) (outer : Outer) :
    zoom view update program outer =
      ((program (view outer)).1, update (program (view outer)).2 outer) := rfl

theorem bind_apply (program : Program State Error Value)
    (next : Value → Program State Error Result) (state : State) :
    (program >>= next) state =
      match program state with
      | (.ok value, after) => next value after
      | (.error error, after) => (.error error, after) := rfl

theorem bind_of_ok {program : Program State Error Value}
    {next : Value → Program State Error Result} {state after : State} {value : Value}
    (returned : program state = (.ok value, after)) :
    (program >>= next) state = next value after := by
  rw [bind_apply, returned]

theorem bind_of_error {program : Program State Error Value}
    {next : Value → Program State Error Result} {state after : State} {error : Error}
    (threw : program state = (.error error, after)) :
    (program >>= next) state = (.error error, after) := by
  rw [bind_apply, threw]

theorem bind_bind (program : Program State Error Value)
    (next : Value → Program State Error Result) (last : Result → Program State Error Local) :
    (program >>= next) >>= last = program >>= fun value => next value >>= last := by
  funext state
  rcases ran : program state with ⟨error | value, after⟩
  · rw [bind_of_error ran, bind_of_error (bind_of_error ran)]
  · rw [bind_of_ok ran, bind_apply, bind_of_ok ran, bind_apply]

theorem pure_then (value : Value) (next : Value → Program State Error Result) :
    (pure value : Program State Error Value) >>= next = next value := rfl

theorem ite_then {condition : Prop} [Decidable condition] (first second : Program State Error Value)
    (next : Value → Program State Error Result) :
    (if condition then first else second) >>= next =
      if condition then first >>= next else second >>= next :=
  apply_ite (· >>= next) condition first second

/-- A sequence returns exactly when both of its parts do. -/
theorem bind_eq_ok_iff {program : Program State Error Value}
    {next : Value → Program State Error Result} {state after : State} {result : Result} :
    (program >>= next) state = (.ok result, after) ↔
      ∃ value middle, program state = (.ok value, middle) ∧
        next value middle = (.ok result, after) := by
  match ran : program state with
  | (.ok value, middle) =>
      rw [bind_of_ok ran]
      constructor
      · exact fun returned => ⟨value, middle, rfl, returned⟩
      · rintro ⟨_, _, ⟨⟩, returned⟩
        exact returned
  | (.error error, middle) => simp [bind_of_error ran]

@[simp] theorem throwIf_pos {condition : Prop} [Decidable condition] {error : Error}
    (holds : condition) (state : State) :
    (throwIf condition error : Program State Error Unit) state = (.error error, state) := by
  simp [throwIf, holds]

@[simp] theorem throwIf_neg {condition : Prop} [Decidable condition] {error : Error}
    (fails : ¬ condition) (state : State) :
    (throwIf condition error : Program State Error Unit) state = (.ok (), state) := by
  simp [throwIf, fails]

section Except

variable {first : Except Error Value} {rest : Value → Except Error Result}

theorem except_bind_eq_ok_iff {result : Result} :
    (first >>= rest) = .ok result ↔ ∃ value, first = .ok value ∧ rest value = .ok result := by
  cases first with
  | ok value => exact ⟨fun same => ⟨value, rfl, same⟩, by rintro ⟨_, ⟨⟩, same⟩; exact same⟩
  | error error => exact ⟨by rintro ⟨⟩, by rintro ⟨_, ⟨⟩, _⟩⟩

theorem except_bind_eq_error_iff {error : Error} :
    (first >>= rest) = .error error ↔
      first = .error error ∨ ∃ value, first = .ok value ∧ rest value = .error error := by
  cases first with
  | ok value =>
      refine ⟨fun same => .inr ⟨value, rfl, same⟩, ?_⟩
      rintro (⟨⟨⟩⟩ | ⟨_, ⟨⟩, same⟩)
      exact same
  | error other =>
      constructor
      · rintro ⟨⟩
        exact .inl rfl
      · rintro (⟨⟨⟩⟩ | ⟨_, ⟨⟩, _⟩)
        rfl

/-- A fold that fails does so at one of its items. -/
theorem exists_of_foldlM_eq_error {Item : Type} {step : Value → Item → Except Error Value}
    {items : List Item} {start : Value} {error : Error}
    (failed : items.foldlM step start = .error error) :
    ∃ item ∈ items, ∃ value, step value item = .error error := by
  induction items generalizing start with
  | nil => cases failed
  | cons item items inductionHypothesis =>
      rw [List.foldlM_cons, except_bind_eq_error_iff] at failed
      obtain here | ⟨next, _, later⟩ := failed
      · exact ⟨item, List.mem_cons_self, start, here⟩
      · obtain ⟨other, member, value, there⟩ := inductionHypothesis later
        exact ⟨other, List.mem_cons_of_mem _ member, value, there⟩

/-- A fold fails at the first item whose step fails. -/
theorem foldlM_eq_error_iff {Item : Type} {step : Value → Item → Except Error Value}
    {items : List Item} {start : Value} {error : Error} :
    items.foldlM step start = .error error ↔
      ∃ before item after value, items = before ++ item :: after ∧
        before.foldlM step start = .ok value ∧ step value item = .error error := by
  induction items generalizing start with
  | nil =>
      constructor
      · rintro ⟨⟩
      · rintro ⟨before, item, after, _, same, _⟩
        cases before <;> cases same
  | cons first items inductionHypothesis =>
      rw [List.foldlM_cons, except_bind_eq_error_iff]
      constructor
      · rintro (failed | ⟨next, stepped, failed⟩)
        · exact ⟨[], first, items, start, rfl, rfl, failed⟩
        · obtain ⟨before, item, after, value, rfl, passed, failed⟩ := inductionHypothesis.mp failed
          exact ⟨first :: before, item, after, value, rfl, by
            rw [List.foldlM_cons, stepped]; exact passed, failed⟩
      · rintro ⟨before, item, after, value, same, passed, failed⟩
        cases before with
        | nil =>
            cases same
            cases passed
            exact .inl failed
        | cons other before =>
            cases same
            rw [List.foldlM_cons, except_bind_eq_ok_iff] at passed
            obtain ⟨next, stepped, passed⟩ := passed
            exact .inr ⟨next, stepped,
              inductionHypothesis.mpr ⟨before, item, after, value, rfl, passed, failed⟩⟩

/-- A traversal returns what its steps return. -/
theorem mapM_cons_eq_ok_iff {Item : Type} {step : Item → Except Error Value} {item : Item}
    {items : List Item} {values : List Value} :
    (item :: items).mapM step = .ok values ↔
      ∃ value more, step item = .ok value ∧ items.mapM step = .ok more ∧ values = value :: more := by
  rw [List.mapM_cons, except_bind_eq_ok_iff]
  constructor
  · rintro ⟨value, returned, rest⟩
    obtain ⟨more, returnedMore, gathered⟩ := except_bind_eq_ok_iff.mp rest
    cases gathered
    exact ⟨value, more, returned, returnedMore, rfl⟩
  · rintro ⟨value, more, returned, returnedMore, rfl⟩
    exact ⟨value, returned, except_bind_eq_ok_iff.mpr ⟨more, returnedMore, rfl⟩⟩

/-- A traversal that fails does so at one of its items. -/
theorem exists_of_mapM_eq_error {Item : Type} {step : Item → Except Error Value}
    {items : List Item} {error : Error} (failed : items.mapM step = .error error) :
    ∃ item ∈ items, step item = .error error := by
  induction items with
  | nil => cases failed
  | cons item items inductionHypothesis =>
      rw [List.mapM_cons, except_bind_eq_error_iff] at failed
      obtain here | ⟨value, _, failed⟩ := failed
      · exact ⟨item, List.mem_cons_self, here⟩
      rw [except_bind_eq_error_iff] at failed
      obtain later | ⟨values, _, failed⟩ := failed
      · obtain ⟨other, member, there⟩ := inductionHypothesis later
        exact ⟨other, List.mem_cons_of_mem _ member, there⟩
      · cases failed

end Except

section Loop

/-- `while (true)`: the body leaves the loop with `inr` or goes round with `inl`,
and what it goes round with is smaller. -/
def loop (measure : Local → State → Nat)
    (body : Local → Program State Error (Local ⊕ Result))
    (decreases : ∀ {locals state next after},
      body locals state = (.ok (.inl next), after) → measure next after < measure locals state)
    (locals : Local) (state : State) : Except Error Result × State :=
  match _ : body locals state with
  | (.error error, after) => (.error error, after)
  | (.ok (.inr result), after) => (.ok result, after)
  | (.ok (.inl next), after) => loop measure body decreases next after
termination_by measure locals state
decreasing_by exact decreases (by assumption)

variable {measure : Local → State → Nat} {body : Local → Program State Error (Local ⊕ Result)}
  {decreases : ∀ {locals state next after},
    body locals state = (.ok (.inl next), after) → measure next after < measure locals state}
  {locals next : Local} {state after : State}

theorem loop_of_error {error : Error} (round : body locals state = (.error error, after)) :
    loop measure body decreases locals state = (.error error, after) := by
  rw [loop]
  split <;> simp_all

theorem loop_of_inr {result : Result} (round : body locals state = (.ok (.inr result), after)) :
    loop measure body decreases locals state = (.ok result, after) := by
  rw [loop]
  split <;> simp_all

theorem loop_of_inl (round : body locals state = (.ok (.inl next), after)) :
    loop measure body decreases locals state = loop measure body decreases next after := by
  rw [loop]
  split <;> simp_all

/-- A loop is its body, and then the loop again unless the body has left it. -/
theorem loop_eq_bind :
    loop measure body decreases locals =
      body locals >>= Sum.elim (loop measure body decreases) pure := by
  funext state
  rcases round : body locals state with ⟨error | (next | result), after⟩
  · rw [bind_of_error round, loop_of_error round]
  · rw [bind_of_ok round, loop_of_inl round]
    rfl
  · rw [bind_of_ok round, loop_of_inr round]
    rfl

/-- A loop over a larger kind of locals that takes the steps of this one ends as it does. -/
theorem loop_inject {Wider Wrapped : Type} {inject : Local → Wider} {wrap : Result → Wrapped}
    {widerMeasure : Wider → State → Nat} {widerBody : Wider → Program State Error (Wider ⊕ Wrapped)}
    {widerDecreases : ∀ {locals state next after},
      widerBody locals state = (.ok (.inl next), after) →
        widerMeasure next after < widerMeasure locals state}
    (same : ∀ locals,
      widerBody (inject locals) = body locals >>= fun result => pure (Sum.map inject wrap result)) :
    loop widerMeasure widerBody widerDecreases (inject locals) state =
      Prod.map (Except.map wrap) id (loop measure body decreases locals state) := by
  induction size : measure locals state using Nat.strongRecOn generalizing locals state with
  | ind bound inductionHypothesis =>
      rcases round : body locals state with ⟨error | (next | result), after⟩
      · rw [loop_of_error round]
        exact loop_of_error (by rw [same, bind_of_error round]; rfl)
      · rw [loop_of_inl round]
        have stepped : widerBody (inject locals) state = (.ok (.inl (inject next)), after) := by
          rw [same, bind_of_ok round]
          rfl
        rw [loop_of_inl stepped]
        exact inductionHypothesis _ (size ▸ decreases round) rfl
      · rw [loop_of_inr round]
        exact loop_of_inr (by rw [same, bind_of_ok round]; rfl)

end Loop

end Program

open Program

variable {State Outer Error Value Result Local : Type}

/-- What an outcome has to satisfy: `post` where it returned, `fail` where it threw. -/
def Meets (post : Value → State → Prop) (fail : Error → State → Prop) :
    Except Error Value × State → Prop
  | (.ok value, state) => post value state
  | (.error error, state) => fail error state

@[simp] theorem meets_ok {post : Value → State → Prop} {fail : Error → State → Prop}
    {value : Value} {state : State} : Meets post fail (.ok value, state) ↔ post value state :=
  Iff.rfl

@[simp] theorem meets_error {post : Value → State → Prop} {fail : Error → State → Prop}
    {error : Error} {state : State} :
    Meets post fail (.error error, state) ↔ fail error state :=
  Iff.rfl

theorem Meets.imp {post weaker : Value → State → Prop} {fail weakerFail : Error → State → Prop}
    {outcome : Except Error Value × State} (met : Meets post fail outcome)
    (returns : ∀ value state, outcome = (.ok value, state) → post value state →
      weaker value state)
    (throws : ∀ error state, outcome = (.error error, state) → fail error state →
      weakerFail error state) :
    Meets weaker weakerFail outcome := by
  match outcome with
  | (.ok value, state) => exact returns value state rfl met
  | (.error error, state) => exact throws error state rfl met

/-- What holds of the state however a program ended. -/
theorem Meets.final {holds : State → Prop} {outcome : Except Error Value × State}
    (met : Meets (fun _ => holds) (fun _ => holds) outcome) : holds outcome.2 := by
  match outcome with
  | (.ok value, state) => exact met
  | (.error error, state) => exact met

/-- What holds of a value that was returned. -/
theorem Meets.returned {post : Value → State → Prop} {fail : Error → State → Prop}
    {outcome : Except Error Value × State} (met : Meets post fail outcome) {value : Value}
    (same : outcome.1 = .ok value) : post value outcome.2 := by
  obtain ⟨_, state⟩ := outcome
  subst same
  exact met

/-- A program leaves the state it leaves. -/
theorem meets_final (outcome : Except Error Value × State) :
    Meets (fun _ state => state = outcome.2) (fun _ state => state = outcome.2) outcome := by
  match outcome with
  | (.ok value, state) => exact rfl
  | (.error error, state) => exact rfl

/-- From a state satisfying `pre` the program returns into `post` or throws into `fail`. -/
def Triple (pre : State → Prop) (program : Program State Error Value)
    (post : Value → State → Prop) (fail : Error → State → Prop) : Prop :=
  ∀ state, pre state → Meets post fail (program state)

/-- The program keeps an invariant however it ends. -/
abbrev Preserves (invariant : State → Prop) (program : Program State Error Value) : Prop :=
  Triple invariant program (fun _ => invariant) (fun _ => invariant)

namespace Triple

variable {pre : State → Prop} {program : Program State Error Value}
  {post : Value → State → Prop} {fail : Error → State → Prop}

theorem consequence {weaker : Value → State → Prop} {weakerFail : Error → State → Prop}
    (triple : Triple pre program post fail)
    (returns : ∀ value state, post value state → weaker value state)
    (throws : ∀ error state, fail error state → weakerFail error state) :
    Triple pre program weaker weakerFail := by
  intro state holds
  exact (triple state holds).imp (fun value after _ => returns value after)
    fun error after _ => throws error after

theorem strengthen {stronger : State → Prop} (triple : Triple pre program post fail)
    (implies : ∀ state, stronger state → pre state) : Triple stronger program post fail :=
  fun state holds => triple state (implies state holds)

theorem pure {value : Value} (holds : ∀ state, pre state → post value state) :
    Triple pre (Pure.pure value : Program State Error Value) post fail := holds

theorem throw {error : Error} (holds : ∀ state, pre state → fail error state) :
    Triple pre (MonadExcept.throw error : Program State Error Value) post fail := holds

theorem bind {middle : Value → State → Prop} {next : Value → Program State Error Result}
    {final : Result → State → Prop} (first : Triple pre program middle fail)
    (rest : ∀ value, Triple (middle value) (next value) final fail) :
    Triple pre (program >>= next) final fail := by
  intro state holds
  have met := first state holds
  match ran : program state with
  | (.ok value, after) =>
      rw [ran] at met
      rw [bind_of_ok ran]
      exact rest value after met
  | (.error error, after) =>
      rw [ran] at met
      rw [bind_of_error ran]
      exact met

theorem get {post : State → State → Prop} (holds : ∀ state, pre state → post state state) :
    Triple pre (Program.get : Program State Error State) post fail := holds

theorem modify {change : State → State} {post : Unit → State → Prop}
    (holds : ∀ state, pre state → post () (change state)) :
    Triple pre (Program.modify change : Program State Error Unit) post fail := holds

theorem attempt {result : Except Error Value}
    (returns : ∀ state value, pre state → result = .ok value → post value state)
    (throws : ∀ state error, pre state → result = .error error → fail error state) :
    Triple pre (Program.attempt result : Program State Error Value) post fail := by
  intro state holds
  cases result with
  | ok value => exact returns state value holds rfl
  | error error => exact throws state error holds rfl

theorem throwIf {condition : Prop} [Decidable condition] {error : Error}
    {post : Unit → State → Prop} (throws : ∀ state, condition → pre state → fail error state)
    (returns : ∀ state, ¬ condition → pre state → post () state) :
    Triple pre (Program.throwIf condition error : Program State Error Unit) post fail := by
  intro state holds
  by_cases decided : condition
  · rw [throwIf_pos decided]
    exact throws state decided holds
  · rw [throwIf_neg decided]
    exact returns state decided holds

/-- A program on a component satisfies what the component's own triple says, seen
through the component. -/
theorem zoom {view : Outer → State} {update : State → Outer → Outer}
    {outerPre : Outer → Prop} {outerPost : Value → Outer → Prop}
    {outerFail : Error → Outer → Prop}
    (component : ∀ outer, outerPre outer →
      Meets (fun value state => outerPost value (update state outer))
        (fun error state => outerFail error (update state outer)) (program (view outer))) :
    Triple outerPre (Program.zoom view update program) outerPost outerFail := by
  intro outer holds
  have met := component outer holds
  rw [zoom_apply]
  match ran : program (view outer) with
  | (.ok value, after) => rw [ran] at met; exact met
  | (.error error, after) => rw [ran] at met; exact met

/-- The invariant rule: what every round keeps holds when the loop ends. -/
theorem loop {invariant : Local → State → Prop} {post : Result → State → Prop}
    {measure : Local → State → Nat} {body : Local → Program State Error (Local ⊕ Result)}
    {decreases : ∀ {locals state next after},
      body locals state = (.ok (.inl next), after) → measure next after < measure locals state}
    (round : ∀ locals, Triple (invariant locals) (body locals)
      (fun result state => Sum.elim (invariant · state) (post · state) result) fail)
    (locals : Local) :
    Triple (invariant locals) (Program.loop measure body decreases locals) post fail := by
  intro state holds
  induction size : measure locals state using Nat.strongRecOn generalizing locals state with
  | ind bound inductionHypothesis =>
      have met := round locals state holds
      match ran : body locals state with
      | (.error error, after) =>
          rw [ran] at met
          rw [loop_of_error ran]
          exact met
      | (.ok (.inr result), after) =>
          rw [ran] at met
          rw [loop_of_inr ran]
          exact met
      | (.ok (.inl next), after) =>
          rw [ran] at met
          rw [loop_of_inl ran]
          exact inductionHypothesis _ (size ▸ decreases ran) next after met rfl

end Triple

namespace Preserves

variable {invariant : State → Prop} {program : Program State Error Value}

theorem pure {value : Value} :
    Preserves invariant (Pure.pure value : Program State Error Value) :=
  Triple.pure fun _ holds => holds

theorem throw {error : Error} :
    Preserves invariant (MonadExcept.throw error : Program State Error Value) :=
  Triple.throw fun _ holds => holds

theorem get : Preserves invariant (Program.get : Program State Error State) :=
  fun _ holds => holds

theorem attempt {result : Except Error Value} :
    Preserves invariant (Program.attempt result : Program State Error Value) :=
  Triple.attempt (fun _ _ holds _ => holds) fun _ _ holds _ => holds

theorem throwIf {condition : Prop} [Decidable condition] {error : Error} :
    Preserves invariant (Program.throwIf condition error : Program State Error Unit) :=
  Triple.throwIf (fun _ _ holds => holds) fun _ _ holds => holds

theorem modify {change : State → State} (keeps : ∀ state, invariant state → invariant (change state)) :
    Preserves invariant (Program.modify change : Program State Error Unit) :=
  Triple.modify keeps

theorem bind {next : Value → Program State Error Result} (first : Preserves invariant program)
    (rest : ∀ value, Preserves invariant (next value)) :
    Preserves invariant (program >>= next) :=
  Triple.bind first rest

theorem ite {condition : Prop} [Decidable condition] {other : Program State Error Value}
    (yes : Preserves invariant program) (no : Preserves invariant other) :
    Preserves invariant (if condition then program else other) := by
  split
  · exact yes
  · exact no

/-- What a program keeps holds in the state it leaves. -/
theorem final (preserves : Preserves invariant program) {state : State}
    (initially : invariant state) : invariant (program state).2 :=
  Meets.final (preserves state initially)

/-- A program on a component keeps an invariant of that component. -/
theorem zoom {view : Outer → State} {update : State → Outer → Outer}
    (component : Preserves invariant program)
    (updated : ∀ state outer, view (update state outer) = state) :
    Preserves (fun outer => invariant (view outer)) (Program.zoom view update program) := by
  refine Triple.zoom fun outer holds => ?_
  have met := component (view outer) holds
  match ran : program (view outer) with
  | (.ok value, after) =>
      rw [ran] at met
      simpa only [meets_ok, updated] using met
  | (.error error, after) =>
      rw [ran] at met
      simpa only [meets_error, updated] using met

/-- A program on a component keeps what does not depend on the component. -/
theorem zoom_frame {view : Outer → State} {update : State → Outer → Outer}
    {outerInvariant : Outer → Prop}
    (framed : ∀ state outer, outerInvariant outer → outerInvariant (update state outer)) :
    Preserves outerInvariant (Program.zoom view update program) := by
  refine Triple.zoom fun outer holds => ?_
  match program (view outer) with
  | (.ok value, after) => exact framed after outer holds
  | (.error error, after) => exact framed after outer holds

/-- A loop keeps what every round keeps. -/
theorem loop {measure : Local → State → Nat}
    {body : Local → Program State Error (Local ⊕ Result)}
    {decreases : ∀ {locals state next after},
      body locals state = (.ok (.inl next), after) → measure next after < measure locals state}
    (round : ∀ locals, Preserves invariant (body locals)) (locals : Local) :
    Preserves invariant (Program.loop measure body decreases locals) := by
  let invariantAt : Local → State → Prop := fun _ => invariant
  have rounds : ∀ locals, Triple (invariantAt locals) (body locals)
      (fun result state => Sum.elim (invariantAt · state) (fun _ => invariant state) result)
      (fun _ => invariant) := by
    intro locals
    refine (round locals).consequence (fun result state holds => ?_) fun _ _ holds => holds
    cases result with
    | inl next => exact holds
    | inr result => exact holds
  exact Triple.loop rounds locals

end Preserves

/-- Whatever state it starts from, a program throws only errors like these. -/
def Throws (allowed : Error → Prop) (program : Program State Error Value) : Prop :=
  ∀ state error after, program state = (.error error, after) → allowed error

namespace Throws

variable {allowed : Error → Prop} {program : Program State Error Value}

theorem mono {wider : Error → Prop} (throws : Throws allowed program)
    (widens : ∀ error, allowed error → wider error) : Throws wider program :=
  fun state error after threw => widens error (throws state error after threw)

theorem pure {value : Value} : Throws allowed (Pure.pure value : Program State Error Value) := by
  rintro state error after ⟨⟩

theorem get : Throws allowed (Program.get : Program State Error State) := by
  rintro state error after ⟨⟩

theorem modify {change : State → State} :
    Throws allowed (Program.modify change : Program State Error Unit) := by
  rintro state error after ⟨⟩

theorem throw {error : Error} (fits : allowed error) :
    Throws allowed (MonadExcept.throw error : Program State Error Value) := by
  rintro state _ after ⟨⟩
  exact fits

theorem throwIf {condition : Prop} [Decidable condition] {error : Error}
    (fits : condition → allowed error) :
    Throws allowed (Program.throwIf condition error : Program State Error Unit) := by
  rw [Program.throwIf]
  split
  · rename_i holds
    exact throw (fits holds)
  · exact pure

theorem bind {next : Value → Program State Error Result} (first : Throws allowed program)
    (rest : ∀ value, Throws allowed (next value)) : Throws allowed (program >>= next) := by
  intro state error after threw
  rcases ran : program state with ⟨other | value, middle⟩
  · rw [bind_of_error ran] at threw
    cases threw
    exact first state _ _ ran
  · rw [bind_of_ok ran] at threw
    exact rest value middle error after threw

/-- What is attempted decides what comes after it. -/
theorem attempt_bind {result : Except Error Value} {next : Value → Program State Error Result}
    (fails : ∀ error, result = .error error → allowed error)
    (rest : ∀ value, result = .ok value → Throws allowed (next value)) :
    Throws allowed (Program.attempt result >>= next) := by
  cases result with
  | error error =>
      rintro state _ after ⟨⟩
      exact fails error rfl
  | ok value => exact rest value rfl

theorem triple (throws : Throws allowed program) :
    Triple (fun _ => True) program (fun _ _ => True) (fun error _ => allowed error) := by
  intro state _
  match ran : program state with
  | (.error error, after) => exact throws state error after ran
  | (.ok _, _) => trivial

end Throws

end Llamad.Semantics
