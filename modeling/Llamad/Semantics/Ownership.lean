import Mathlib.Data.List.Nodup
import Mathlib.Tactic.Common

/-!
# Resources that are given back

A trace of what is done with resources that are gained, used and freed, some of them borrowed
from others. `Alive` says what a trace leaves alive when none of its acts goes wrong, and is
built along the program; `Tidy` says what that comes to for a trace that leaves nothing.
-/

namespace Llamad.Semantics

/-- What is done with a resource; one that is gained may borrow from another one. -/
inductive Act (Resource : Type) where
  | gain (resource : Resource) (lender : Option Resource)
  | use (resource : Resource)
  | free (resource : Resource)
deriving DecidableEq

namespace Act

variable {Resource : Type}

/-- The resource that an act gains. -/
def gains : Act Resource → Option Resource
  | .gain resource _ => some resource
  | _ => none

/-- The resources that a trace gains, in order. -/
def gained (acts : List (Act Resource)) : List Resource := acts.filterMap gains

variable {acts more : List (Act Resource)} {resource : Resource}

@[simp] theorem gained_nil : gained ([] : List (Act Resource)) = [] := rfl

@[simp] theorem gained_append : gained (acts ++ more) = gained acts ++ gained more :=
  List.filterMap_append

@[simp] theorem gained_gain {lender : Option Resource} :
    gained [.gain resource lender] = [resource] := rfl

@[simp] theorem gained_use : gained [.use resource] = [] := rfl

@[simp] theorem gained_free : gained [.free resource] = [] := rfl

theorem mem_gained_iff : resource ∈ gained acts ↔ ∃ lender, .gain resource lender ∈ acts := by
  rw [gained, List.mem_filterMap]
  constructor
  · rintro ⟨act, member, same⟩
    cases act with
    | gain other lender =>
        cases same
        exact ⟨lender, member⟩
    | use other => cases same
    | free other => cases same
  · rintro ⟨lender, member⟩
    exact ⟨_, member, rfl⟩

end Act

open Act

variable {Resource : Type}

/-- The resources that are alive, each with the one it borrows from. -/
abbrev Ledger (Resource : Type) := List (Resource × Option Resource)

/-- What an act needs to be alive: what it uses, borrows from or frees, and nothing that
borrows from what it frees. -/
def Act.Needs (ledger : Ledger Resource) : Act Resource → Prop
  | .gain _ lender => ∀ owner ∈ lender, owner ∈ ledger.map Prod.fst
  | .use resource => resource ∈ ledger.map Prod.fst
  | .free resource =>
      resource ∈ ledger.map Prod.fst ∧ some resource ∉ ledger.map Prod.snd

variable [DecidableEq Resource]

/-- What a trace leaves alive: only what is alive was used, borrowed from or freed, and nothing
was freed while something borrowed from it. -/
inductive Alive : List (Act Resource) → Ledger Resource → Prop
  | start : Alive [] []
  | gain {acts : List (Act Resource)} {ledger : Ledger Resource} {resource : Resource}
      {lender : Option Resource} (alive : Alive acts ledger) (fresh : resource ∉ gained acts)
      (lent : ∀ owner ∈ lender, owner ∈ ledger.map Prod.fst) :
      Alive (acts ++ [.gain resource lender]) ((resource, lender) :: ledger)
  | use {acts : List (Act Resource)} {ledger : Ledger Resource} {resource : Resource}
      (alive : Alive acts ledger) (held : resource ∈ ledger.map Prod.fst) :
      Alive (acts ++ [.use resource]) ledger
  | free {acts : List (Act Resource)} {ledger : Ledger Resource} {resource : Resource}
      (alive : Alive acts ledger) (held : resource ∈ ledger.map Prod.fst)
      (idle : some resource ∉ ledger.map Prod.snd) :
      Alive (acts ++ [.free resource]) (ledger.filter fun entry => entry.1 ≠ resource)

/-- Every resource is gained once and freed once, later on; it is used and lent only in
between, and what borrows from it is freed first. -/
structure Tidy (acts : List (Act Resource)) : Prop where
  once : (gained acts).Nodup
  freed : ∀ resource ∈ gained acts, acts.count (.free resource) = 1
  gainedFirst : ∀ front resource, front ++ [.free resource] <+: acts → resource ∈ gained front
  used : ∀ front resource, front ++ [.use resource] <+: acts →
    resource ∈ gained front ∧ .free resource ∉ front
  lent : ∀ front resource owner, front ++ [.gain resource (some owner)] <+: acts →
    owner ∈ gained front ∧ .free owner ∉ front
  outlived : ∀ front owner, front ++ [.free owner] <+: acts →
    ∀ resource, .gain resource (some owner) ∈ front → .free resource ∈ front

namespace Alive

variable {acts front : List (Act Resource)} {ledger : Ledger Resource} {resource : Resource}
  {lender : Option Resource} {act : Act Resource}

/-- What is freed was gained. -/
theorem gained_of_free (alive : Alive acts ledger) (freed : .free resource ∈ acts) :
    resource ∈ gained acts := by
  have known : (∀ other ∈ ledger.map Prod.fst, other ∈ gained acts) ∧
      (.free resource ∈ acts → resource ∈ gained acts) := by
    clear freed
    induction alive with
    | start => simp
    | gain _ _ _ inductionHypothesis =>
        obtain ⟨held, freed⟩ := inductionHypothesis
        simp only [gained_append, gained_gain, List.map_cons, List.mem_cons, List.mem_append,
          List.not_mem_nil, or_false, reduceCtorEq]
        refine ⟨?_, fun member => .inl (freed member)⟩
        rintro other (rfl | member)
        · exact .inr rfl
        · exact .inl (held other member)
    | use _ _ inductionHypothesis => simpa using inductionHypothesis
    | free _ present _ inductionHypothesis =>
        obtain ⟨held, freed⟩ := inductionHypothesis
        simp only [gained_append, gained_free, List.append_nil, List.mem_append,
          List.mem_singleton, Act.free.injEq]
        constructor
        · intro other member
          obtain ⟨entry, kept, rfl⟩ := List.mem_map.mp member
          exact held entry.1 (List.mem_map_of_mem (List.mem_filter.mp kept).1)
        · rintro (member | rfl)
          · exact freed member
          · exact held _ present
  exact known.2 freed

/-- Alive is what was gained and not freed since. -/
theorem mem_iff (alive : Alive acts ledger) :
    (resource, lender) ∈ ledger ↔ .gain resource lender ∈ acts ∧ .free resource ∉ acts := by
  induction alive with
  | start => simp
  | @gain acts ledger other owner alive fresh _ inductionHypothesis =>
      have unfreed : .free other ∉ acts := fun freed => fresh (alive.gained_of_free freed)
      simp only [List.mem_cons, Prod.mk.injEq, List.mem_append, Act.gain.injEq,
        List.not_mem_nil, or_false, reduceCtorEq, inductionHypothesis]
      constructor
      · rintro (⟨rfl, rfl⟩ | ⟨gained, kept⟩)
        · exact ⟨.inr ⟨rfl, rfl⟩, unfreed⟩
        · exact ⟨.inl gained, kept⟩
      · rintro ⟨gained | ⟨rfl, rfl⟩, kept⟩
        · exact .inr ⟨gained, kept⟩
        · exact .inl ⟨rfl, rfl⟩
  | use _ _ inductionHypothesis => simpa using inductionHypothesis
  | free _ _ _ inductionHypothesis =>
      simp only [List.mem_filter, decide_eq_true_eq, inductionHypothesis, List.mem_append,
        List.mem_singleton, or_false, reduceCtorEq, Act.free.injEq, not_or, and_assoc]

/-- A resource is alive when it was gained and not freed since. -/
theorem mem_map_iff (alive : Alive acts ledger) :
    resource ∈ ledger.map Prod.fst ↔ resource ∈ gained acts ∧ .free resource ∉ acts := by
  rw [mem_gained_iff, ← exists_and_right]
  constructor
  · rintro member
    obtain ⟨⟨other, lender⟩, present, rfl⟩ := List.mem_map.mp member
    exact ⟨lender, alive.mem_iff.mp present⟩
  · rintro ⟨lender, present⟩
    exact List.mem_map_of_mem (alive.mem_iff.mpr present)

/-- Nothing is alive twice. -/
theorem keys_nodup (alive : Alive acts ledger) : (ledger.map Prod.fst).Nodup := by
  induction alive with
  | start => exact .nil
  | gain alive fresh _ inductionHypothesis =>
      exact List.nodup_cons.mpr
        ⟨fun member => fresh (alive.mem_map_iff.mp member).1, inductionHypothesis⟩
  | use _ _ inductionHypothesis => exact inductionHypothesis
  | free _ _ _ inductionHypothesis =>
      exact inductionHypothesis.sublist (List.filter_sublist.map Prod.fst)

/-- What every act of a trace needed was alive. -/
theorem needs (alive : Alive acts ledger) (leads : front ++ [act] <+: acts) :
    ∃ before, Alive front before ∧ act.Needs before := by
  induction alive with
  | start => simp at leads
  | gain alive _ lent inductionHypothesis =>
      obtain same | earlier := List.prefix_concat_iff.mp leads
      · obtain ⟨rfl, last⟩ := List.append_inj' same rfl
        cases last
        exact ⟨_, alive, lent⟩
      · exact inductionHypothesis earlier
  | use alive held inductionHypothesis =>
      obtain same | earlier := List.prefix_concat_iff.mp leads
      · obtain ⟨rfl, last⟩ := List.append_inj' same rfl
        cases last
        exact ⟨_, alive, held⟩
      · exact inductionHypothesis earlier
  | free alive held idle inductionHypothesis =>
      obtain same | earlier := List.prefix_concat_iff.mp leads
      · obtain ⟨rfl, last⟩ := List.append_inj' same rfl
        cases last
        exact ⟨_, alive, held, idle⟩
      · exact inductionHypothesis earlier

theorem nodup (alive : Alive acts ledger) : (gained acts).Nodup := by
  induction alive with
  | start => exact .nil
  | gain _ fresh _ inductionHypothesis =>
      rw [gained_append, gained_gain, List.nodup_append]
      refine ⟨inductionHypothesis, by simp, ?_⟩
      rintro other member _ last rfl
      rw [List.mem_singleton.mp last] at member
      exact fresh member
  | use _ _ inductionHypothesis => simpa using inductionHypothesis
  | free _ _ _ inductionHypothesis => simpa using inductionHypothesis

theorem count_free_le (alive : Alive acts ledger) : acts.count (.free resource) ≤ 1 := by
  induction alive with
  | start => simp
  | gain _ _ _ inductionHypothesis => simpa using inductionHypothesis
  | use _ _ inductionHypothesis => simpa using inductionHypothesis
  | @free acts _ other alive held _ inductionHypothesis =>
      by_cases same : other = resource
      · subst same
        have none : acts.count (.free other) = 0 :=
          List.count_eq_zero.mpr (alive.mem_map_iff.mp held).2
        rw [List.count_append, none]
        simp
      · simpa [List.count_append, same] using inductionHypothesis

/-- A trace that leaves nothing alive is tidy. -/
theorem tidy (alive : Alive acts []) : Tidy acts where
  once := alive.nodup
  freed := by
    intro resource member
    refine Nat.le_antisymm alive.count_free_le (List.one_le_count_iff.mpr ?_)
    by_contra kept
    simpa using alive.mem_map_iff.mpr ⟨member, kept⟩
  gainedFirst := by
    intro front resource leads
    obtain ⟨before, here, held, _⟩ := alive.needs leads
    exact (here.mem_map_iff.mp held).1
  used := by
    intro front resource leads
    obtain ⟨before, here, held⟩ := alive.needs leads
    exact here.mem_map_iff.mp held
  lent := by
    intro front resource owner leads
    obtain ⟨before, here, lent⟩ := alive.needs leads
    exact here.mem_map_iff.mp (lent owner rfl)
  outlived := by
    intro front owner leads resource borrowed
    obtain ⟨before, here, _, idle⟩ := alive.needs leads
    by_contra kept
    exact idle (List.mem_map_of_mem (here.mem_iff.mpr ⟨borrowed, kept⟩))

end Alive

end Llamad.Semantics
