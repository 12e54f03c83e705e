import Llamad.Engine.Contract
import Llamad.Semantics.Program

/-!
# The engine flags

How the lists among the engine's command line flags are read. A comma-separated list is
compared with `List.splitOn`: `split_list` finds the same elements, and refuses a list with
an empty one.
-/

namespace Llamad.Cli

open Logical Semantics Program

/-- The separator of a list. -/
def comma : UInt8 := 0x2C

/-- `text.find(',', start)`. -/
def findComma (text : Bytes) (start : Nat) : Option Nat :=
  ((text.drop start).idxOf? comma).map (start + ·)

theorem findComma_eq_none {text : Bytes} {start : Nat} (missing : findComma text start = none) :
    comma ∉ text.drop start :=
  List.idxOf?_eq_none_iff.mp (Option.map_eq_none_iff.mp missing)

/-- The comma that is found stands behind the rest of the element from `start` on. -/
theorem findComma_eq_some {text : Bytes} {start found : Nat}
    (here : findComma text start = some found) :
    start ≤ found ∧ found < text.length ∧ comma ∉ (text.drop start).take (found - start) ∧
      text.drop start = (text.drop start).take (found - start) ++
        comma :: text.drop (found + 1) := by
  obtain ⟨index, indexed, rfl⟩ := Option.map_eq_some_iff.mp here
  obtain ⟨inside, same, first⟩ := List.idxOf?_eq_some_iff.mp indexed
  have length := inside
  rw [List.length_drop] at length
  rw [Nat.add_sub_cancel_left]
  refine ⟨Nat.le_add_right _ _, by omega, fun member => ?_, ?_⟩
  · obtain ⟨position, below, found⟩ := List.getElem_of_mem member
    rw [List.length_take] at below
    rw [List.getElem_take] at found
    exact first position (by omega) found
  · have rest : text.drop (start + index + 1) = (text.drop start).drop (index + 1) := by
      rw [List.drop_drop, Nat.add_assoc]
    rw [rest, ← same, ← List.drop_eq_getElem_cons inside, List.take_append_drop]

/-- The loop of `split_list`: the elements from `start` on, behind those it has. -/
def splitList.collect (text : Bytes) (start : Nat) (parts : List Bytes) : Option (List Bytes) :=
  match _ : findComma text start with
  | none =>
      let part := text.drop start
      if part.isEmpty then none else some (parts ++ [part])
  | some found =>
      let part := (text.drop start).take (found - start)
      if part.isEmpty then none else collect text (found + 1) (parts ++ [part])
termination_by text.length - start
decreasing_by
  have bounds := findComma_eq_some ‹_›
  omega

/-- Splits a text on commas, or returns nothing when an element is empty. -/
def splitList (text : Bytes) : Option (List Bytes) := splitList.collect text 0 []

section SplitList

variable {text : Bytes} {start found : Nat} {parts : List Bytes}

theorem splitList.collect_of_none (missing : findComma text start = none) :
    collect text start parts =
      if (text.drop start).isEmpty then none else some (parts ++ [text.drop start]) := by
  rw [collect]
  split
  · rfl
  · rename_i other here
    rw [missing] at here
    cases here

theorem splitList.collect_of_some (here : findComma text start = some found) :
    collect text start parts =
      if ((text.drop start).take (found - start)).isEmpty then none
      else collect text (found + 1) (parts ++ [(text.drop start).take (found - start)]) := by
  rw [collect]
  split
  · rename_i missing
    rw [missing] at here
    cases here
  · rename_i other same
    rw [same] at here
    cases here
    rfl

/-- The loop returns the elements of the rest, unless one of them is empty. -/
theorem splitList.collect_eq (text : Bytes) (start : Nat) (parts : List Bytes) :
    collect text start parts =
      if [] ∈ (text.drop start).splitOn comma then none
      else some (parts ++ (text.drop start).splitOn comma) := by
  induction size : text.length - start using Nat.strongRecOn generalizing start parts with
  | ind bound inductionHypothesis =>
      cases here : findComma text start with
      | none =>
          rw [collect_of_none here, List.splitOn_eq_singleton (findComma_eq_none here)]
          simp only [List.mem_singleton, List.isEmpty_iff, List.nil_eq]
      | some found =>
          obtain ⟨later, inside, apart, same⟩ := findComma_eq_some here
          rw [collect_of_some here, same, List.splitOn_append_cons_self_of_not_mem apart, ← same]
          by_cases empty : (text.drop start).take (found - start) = []
          · rw [if_pos (List.isEmpty_iff.mpr empty), if_pos (by simp [empty])]
          · have full : [] ≠ (text.drop start).take (found - start) := Ne.symm empty
            rw [if_neg (by rwa [List.isEmpty_iff]),
              inductionHypothesis _ (by omega) (found + 1) _ rfl]
            simp only [List.mem_cons, full, false_or, List.append_assoc, List.singleton_append]

theorem splitList_eq (text : Bytes) :
    splitList text = if [] ∈ text.splitOn comma then none else some (text.splitOn comma) := by
  rw [splitList, splitList.collect_eq, List.drop_zero, List.nil_append]

/-- No element of a list has the separator in it. -/
theorem not_mem_of_mem_splitOn {text part : Bytes} (member : part ∈ text.splitOn comma) :
    comma ∉ part := by
  induction text generalizing part with
  | nil =>
      obtain rfl := List.mem_singleton.mp member
      exact List.not_mem_nil
  | cons byte text inductionHypothesis =>
      rw [List.splitOn_cons_eq_if_modifyHead] at member
      obtain ⟨first, rest, split⟩ := List.exists_cons_of_ne_nil (List.splitOn_ne_nil comma text)
      rw [split] at member inductionHypothesis
      by_cases separates : (byte == comma) = true
      · rw [if_pos separates] at member
        obtain rfl | member := List.mem_cons.mp member
        · exact List.not_mem_nil
        · exact inductionHypothesis member
      · rw [if_neg separates, List.modifyHead_cons] at member
        obtain rfl | member := List.mem_cons.mp member
        · have apart : comma ≠ byte := fun same => separates (beq_iff_eq.mpr same.symm)
          simpa [apart] using inductionHypothesis List.mem_cons_self
        · exact inductionHypothesis (List.mem_cons_of_mem _ member)

theorem splitList_eq_none_iff : splitList text = none ↔ [] ∈ text.splitOn comma := by
  rw [splitList_eq]
  split <;> simp [*]

/-- The elements that are returned are not empty, and joined they are the text. -/
theorem splitList_eq_some (returned : splitList text = some parts) :
    (∀ part ∈ parts, part ≠ [] ∧ comma ∉ part) ∧ [comma].intercalate parts = text := by
  rw [splitList_eq] at returned
  split at returned
  · cases returned
  · rename_i full
    cases returned
    refine ⟨fun part member => ⟨?_, not_mem_of_mem_splitOn member⟩, List.intercalate_splitOn _⟩
    rintro rfl
    exact full member

/-- `split_list` inverts joining with commas: it returns the elements unless one is empty,
these joined are the text again, and a list of elements without commas is what its joined
form is split into. -/
theorem splitList_inverts_join (text : Bytes) :
    (splitList text = none ↔ [] ∈ text.splitOn comma) ∧
      (∀ before after, text = [] ∨ text = comma :: after ∨ text = before ++ [comma] ∨
        text = before ++ comma :: comma :: after → splitList text = none) ∧
      (∀ parts, splitList text = some parts →
        (∀ part ∈ parts, part ≠ [] ∧ comma ∉ part) ∧ [comma].intercalate parts = text) ∧
      ∀ parts, parts ≠ [] → (∀ part ∈ parts, part ≠ [] ∧ comma ∉ part) →
        splitList ([comma].intercalate parts) = some parts := by
  refine ⟨splitList_eq_none_iff, fun before after shape => ?_, fun parts => splitList_eq_some,
    fun parts nonempty full => ?_⟩
  · rw [splitList_eq_none_iff]
    obtain rfl | rfl | rfl | rfl := shape
    · exact List.mem_singleton_self _
    · rw [← List.nil_append (comma :: after), List.splitOn_append_cons_self]
      exact List.mem_append_left _ (List.mem_singleton_self _)
    · rw [List.splitOn_append_cons_self]
      exact List.mem_append_right _ (List.mem_singleton_self _)
    · rw [List.splitOn_append_cons_self, ← List.nil_append (comma :: after),
        List.splitOn_append_cons_self]
      exact List.mem_append_right _ (List.mem_append_left _ (List.mem_singleton_self _))
  · rw [splitList_eq, List.splitOn_intercalate _ (fun part member => (full part member).2) nonempty,
      if_neg fun empty => (full [] empty).1 rfl]

/-- Two device names. -/
theorem splitList_inverts_join_devices :
    splitList (literal "Vulkan0,Vulkan1") = some [literal "Vulkan0", literal "Vulkan1"] := by
  have apart : ∀ part ∈ [literal "Vulkan0", literal "Vulkan1"], part ≠ [] ∧ comma ∉ part := by
    decide +kernel
  exact (splitList_inverts_join []).2.2.2 _ (List.cons_ne_nil _ _) apart

end SplitList

section Config

/-- The context and offload flags as given on the command line. -/
structure EngineFlags where
  ctx : Int := 4096
  ngl : Int := 99
  threads : Int := 0
  devices : Option Bytes := none
  tensorSplit : Option Bytes := none

/-- What an engine is loaded with, the model's path aside. -/
structure EngineConfig where
  nCtx : Nat := 4096
  nGpuLayers : Int := 99
  nThreads : Int := 0
  devices : List Bytes := []
  tensorSplit : List Rat := []
deriving DecidableEq

/-- The statements of `to_config` that throw. -/
inductive FlagError where
  | ctx | threads | devices | tensorSplit
deriving DecidableEq

/-- The text `what()` carries. -/
def FlagError.what : FlagError → Bytes
  | .ctx => literal "--ctx needs a positive integer"
  | .threads => literal "--threads needs a non-negative integer"
  | .devices =>
      literal "--devices needs a comma-separated list of device names (see --list-devices)"
  | .tensorSplit =>
      literal "--tensor-split needs a comma-separated list of non-negative numbers, e.g. 3,1"

/-- The devices a flag names; none of them when it is not given. -/
def deviceNames : Option Bytes → Except FlagError (List Bytes)
  | none => .ok []
  | some text =>
      match splitList text with
      | none => .error .devices
      | some names => .ok names

/-- One share of a tensor split; `parseNumber` reads a `float`. -/
def share (parseNumber : Bytes → Option Rat) (part : Bytes) : Except FlagError Rat :=
  match parseNumber part with
  | none => .error .tensorSplit
  | some value => if 0 ≤ value then .ok value else .error .tensorSplit

/-- The shares of the devices; none of them when the flag is not given. -/
def shares (parseNumber : Bytes → Option Rat) : Option Bytes → Except FlagError (List Rat)
  | none => .ok []
  | some text =>
      match splitList text with
      | none => .error .tensorSplit
      | some parts => parts.mapM (share parseNumber)

/-- The configuration these flags describe. -/
def toConfig (parseNumber : Bytes → Option Rat) (flags : EngineFlags) :
    Except FlagError EngineConfig :=
  if flags.ctx ≤ 0 then .error .ctx
  else if flags.threads < 0 then .error .threads
  else do
    let devices ← deviceNames flags.devices
    let tensorSplit ← shares parseNumber flags.tensorSplit
    return {
      nCtx := flags.ctx.toNat
      nGpuLayers := flags.ngl
      nThreads := flags.threads
      devices := devices
      tensorSplit := tensorSplit }

theorem deviceNames_ok {devices : Option Bytes} {names : List Bytes}
    (named : deviceNames devices = .ok names) :
    [] ∉ names ∧ ∀ text, devices = some text → [comma].intercalate names = text := by
  cases devices with
  | none =>
      cases named
      exact ⟨List.not_mem_nil, by rintro _ ⟨⟩⟩
  | some text =>
      cases split : splitList text with
      | none =>
          rw [deviceNames, split] at named
          cases named
      | some parts =>
          rw [deviceNames, split] at named
          cases named
          obtain ⟨full, joined⟩ := splitList_eq_some split
          refine ⟨fun member => (full [] member).1 rfl, ?_⟩
          rintro _ ⟨⟩
          exact joined

/-- A configuration that is accepted has room for tokens and names its devices as the flag
does, none of them empty. -/
theorem toConfig_ok {parseNumber : Bytes → Option Rat} {flags : EngineFlags}
    {config : EngineConfig} (accepted : toConfig parseNumber flags = .ok config) :
    0 < config.nCtx ∧ 0 ≤ config.nThreads ∧ [] ∉ config.devices ∧
      ∀ text, flags.devices = some text → [comma].intercalate config.devices = text := by
  rw [toConfig] at accepted
  split at accepted
  · cases accepted
  rename_i positive
  split at accepted
  · cases accepted
  rename_i nonnegative
  obtain ⟨names, named, accepted⟩ := except_bind_eq_ok_iff.mp accepted
  obtain ⟨shares, _, accepted⟩ := except_bind_eq_ok_iff.mp accepted
  cases accepted
  exact ⟨by dsimp only; omega, by dsimp only; omega, deviceNames_ok named⟩

end Config

end Llamad.Cli
