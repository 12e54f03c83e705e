import Llamad.Engine.Contract
import Llamad.Semantics.Program
import Mathlib.Algebra.Order.BigOperators.Group.List
import Mathlib.Algebra.Order.Ring.Rat
import Mathlib.Tactic.Linarith

/-!
# The devices a model is offloaded to

The constructor of an engine turns the names and the shares of its configuration into the
devices and the tensor split that llama.cpp is given. Which lists are accepted, what becomes
of them and which entry an error is about is said here exactly.
-/

namespace Llamad

open Logical Semantics Program

/-- `ggml_backend_dev_type`. -/
inductive DeviceType where
  | cpu | gpu | igpu | accel | metaBackend
deriving DecidableEq, Repr

/-- The backends that were compiled in. -/
structure Registry where
  Device : Type
  [decidableEq : DecidableEq Device]
  /-- `ggml_backend_dev_get` of every index. -/
  registered : List (Option Device)
  /-- The identifier of a device, empty where it has none. -/
  name : Device → Bytes
  type : Device → DeviceType
  /-- `llama_max_devices()`. -/
  maxDevices : Nat

attribute [instance] Registry.decidableEq

/-- One share of a tensor split; `none` is not a number. -/
abbrev Share := Option Rat

/-- What an engine is constructed with. -/
structure LoadConfig where
  modelPath : Bytes
  nCtx : Nat := 4096
  nGpuLayers : Int := 99
  nThreads : Int := 0
  devices : List Bytes := []
  tensorSplit : List Share := []

/-- The statements that throw `EngineError` while an engine is constructed. -/
inductive LoadError where
  | noModelPath
  | unknownDevice (wanted available : Bytes)
  | listedTwice (wanted : Bytes)
  | splitEntry (position : Nat)
  | splitZeros
  | splitWithoutGpu
  | splitTooLong (entries offload : Nat) (named : Bool)
  | splitUnsupported (entries supported : Nat)
  | modelUnloadable (path : Bytes)
  | noVocabulary (path : Bytes)
  | noContext (path : Bytes)
  | zeroContext
  | reranker (path : Bytes)
deriving DecidableEq

/-- The text `what()` carries. -/
def LoadError.what : LoadError → Bytes
  | .noModelPath => literal "no model path was given"
  | .unknownDevice wanted available =>
      literal "unknown device '" ++ wanted ++ literal "'; available devices are: " ++ available
  | .listedTwice wanted => literal "device '" ++ wanted ++ literal "' is listed more than once"
  | .splitEntry position =>
      literal ("tensor split entry " ++ toString position ++ " is negative or not a number")
  | .splitZeros =>
      literal "tensor split is all zeros: it would leave every device without work"
  | .splitWithoutGpu => literal "a tensor split was given but there is no GPU to offload to"
  | .splitTooLong entries offload named =>
      literal ("tensor split has " ++ toString entries ++ " entries but only " ++
        toString offload ++
        if named then " device(s) were requested" else " device(s) will be used for offloading")
  | .splitUnsupported entries supported =>
      literal ("tensor split has " ++ toString entries ++
        " entries but llama.cpp supports at most " ++ toString supported ++ " devices")
  | .modelUnloadable path =>
      literal "failed to load the model from '" ++ path ++
        literal ("' (missing file, not a supported GGUF, or not enough memory on the " ++
          "offload devices; see the errors above)")
  | .noVocabulary path => literal "model '" ++ path ++ literal "' has no vocabulary"
  | .noContext path => literal "failed to create a llama context for '" ++ path ++ literal "'"
  | .zeroContext => literal "llama context reports a zero context or batch size"
  | .reranker path =>
      literal "'" ++ path ++ literal "' is a reranking model, which llamad does not serve"

variable (registry : Registry)

/-- Every device the compiled-in backends registered, in backend order. -/
def allDevices : List registry.Device := registry.registered.filterMap id

variable {registry}

/-- The device identifiers in one line. -/
def joinDeviceNames (devices : List registry.Device) : Bytes :=
  devices.foldl
    (fun out dev => (if out.isEmpty then out else out ++ literal ", ") ++ registry.name dev) []

/-- Every discrete GPU, or the integrated GPUs if there is no discrete one. -/
def defaultOffloadDevices (devices : List registry.Device) : List registry.Device :=
  let gpus := devices.filter fun dev => registry.type dev = .gpu
  let igpus := devices.filter fun dev => registry.type dev = .igpu
  if gpus.isEmpty then igpus else gpus

/-- The first device of that name. -/
def deviceNamed (devices : List registry.Device) (wanted : Bytes) : Option registry.Device :=
  devices.find? fun dev => registry.name dev = wanted

/-- One more name, behind the devices that were chosen. -/
def selectOffloadDevices.choose (devices offload : List registry.Device) (wanted : Bytes) :
    Except LoadError (List registry.Device) :=
  match deviceNamed devices wanted with
  | none => .error (.unknownDevice wanted (joinDeviceNames devices))
  | some dev => if dev ∈ offload then .error (.listedTwice wanted) else .ok (offload ++ [dev])

/-- The devices the layers of the model will land on: those that are named, in that order, or
llama.cpp's default. -/
def selectOffloadDevices (config : LoadConfig) (devices : List registry.Device) :
    Except LoadError (List registry.Device) :=
  if config.devices.isEmpty then .ok (defaultOffloadDevices devices)
  else config.devices.foldlM (selectOffloadDevices.choose devices) []

/-- The loop of `padded_tensor_split`: the sum, unless an entry is no share. -/
def paddedTensorSplit.total (index : Nat) (sum : Rat) : List Share → Except LoadError Rat
  | [] => .ok sum
  | none :: _ => .error (.splitEntry (index + 1))
  | some share :: rest =>
      if 0 ≤ share then total (index + 1) (sum + share) rest
      else .error (.splitEntry (index + 1))

/-- The tensor split as llama.cpp reads it, or empty when none was given. -/
def paddedTensorSplit (config : LoadConfig) (nOffload maxDevices : Nat) :
    Except LoadError (List Rat) :=
  let split := config.tensorSplit
  if split.isEmpty then .ok []
  else do
    let sum ← paddedTensorSplit.total 0 0 split
    if sum ≤ 0 then .error .splitZeros
    else if nOffload = 0 then .error .splitWithoutGpu
    else if nOffload < split.length then
      .error (.splitTooLong split.length nOffload (!config.devices.isEmpty))
    else if maxDevices < split.length then .error (.splitUnsupported split.length maxDevices)
    else .ok (split.filterMap id ++ List.replicate (maxDevices - split.length) 0)

section Selection

variable {config : LoadConfig} {devices offload chosen : List registry.Device}
  {names : List Bytes} {wanted : Bytes} {error : LoadError}

theorem selectOffloadDevices.choose_eq_ok_iff :
    choose devices offload wanted = .ok chosen ↔
      ∃ dev, deviceNamed devices wanted = some dev ∧ dev ∉ offload ∧ chosen = offload ++ [dev] := by
  rw [choose]
  cases found : deviceNamed devices wanted with
  | none => simp
  | some dev =>
      by_cases taken : dev ∈ offload
      · simp [taken]
      · simp [taken, eq_comm]

theorem selectOffloadDevices.choose_eq_error_iff :
    choose devices offload wanted = .error error ↔
      deviceNamed devices wanted = none ∧
          error = .unknownDevice wanted (joinDeviceNames devices) ∨
        ∃ dev ∈ offload, deviceNamed devices wanted = some dev ∧ error = .listedTwice wanted := by
  rw [choose]
  cases found : deviceNamed devices wanted with
  | none => simp [eq_comm]
  | some dev =>
      by_cases taken : dev ∈ offload
      · simp [taken, eq_comm]
      · simp [taken]

/-- The loop returns exactly when every name is the one of a device of its own. -/
theorem selectOffloadDevices.foldlM_eq_ok_iff (apart : offload.Nodup) :
    names.foldlM (choose devices) offload = .ok chosen ↔
      ∃ more, chosen = offload ++ more ∧ chosen.Nodup ∧
        names.map (deviceNamed devices) = more.map some := by
  induction names generalizing offload with
  | nil =>
      constructor
      · rintro ⟨⟩
        exact ⟨[], by simp, apart, rfl⟩
      · rintro ⟨more, rfl, _, none⟩
        rw [List.map_eq_nil_iff.mp none.symm, List.append_nil]
        rfl
  | cons wanted names inductionHypothesis =>
      have longer {dev : registry.Device} (fresh : dev ∉ offload) : (offload ++ [dev]).Nodup :=
        List.nodup_append.mpr ⟨apart, by simp, by
          rintro other member _ last rfl
          rw [List.mem_singleton.mp last] at member
          exact fresh member⟩
      rw [List.foldlM_cons, except_bind_eq_ok_iff]
      constructor
      · rintro ⟨next, chose, rest⟩
        obtain ⟨dev, found, fresh, rfl⟩ := choose_eq_ok_iff.mp chose
        obtain ⟨more, rfl, distinct, same⟩ := (inductionHypothesis (longer fresh)).mp rest
        exact ⟨dev :: more, by simp, distinct, by simp [found, same]⟩
      · rintro ⟨more, rfl, distinct, same⟩
        cases more with
        | nil => simp at same
        | cons dev more =>
            rw [List.map_cons, List.map_cons, List.cons.injEq] at same
            have fresh : dev ∉ offload := fun member =>
              (List.nodup_append.mp distinct).2.2 dev member dev List.mem_cons_self rfl
            exact ⟨offload ++ [dev], choose_eq_ok_iff.mpr ⟨dev, same.1, fresh, rfl⟩,
              (inductionHypothesis (longer fresh)).mpr
                ⟨more, by simp, by simpa using distinct, same.2⟩⟩

/-- What is refused is refused about a name. -/
theorem selectOffloadDevices_error (refused : selectOffloadDevices config devices = .error error) :
    (∃ wanted, error = .unknownDevice wanted (joinDeviceNames devices)) ∨
      ∃ wanted, error = .listedTwice wanted := by
  rw [selectOffloadDevices] at refused
  split at refused
  · cases refused
  · obtain ⟨_, wanted, _, _, _, _, failed⟩ := foldlM_eq_error_iff.mp refused
    obtain ⟨_, rfl⟩ | ⟨_, _, _, rfl⟩ := selectOffloadDevices.choose_eq_error_iff.mp failed
    · exact .inl ⟨wanted, rfl⟩
    · exact .inr ⟨wanted, rfl⟩

theorem defaultOffloadDevices_sublist (devices : List registry.Device) :
    (defaultOffloadDevices devices).Sublist devices := by
  rw [defaultOffloadDevices]
  split
  · exact List.filter_sublist
  · exact List.filter_sublist

/-- A device is one of the default ones when it is a discrete GPU, or an integrated one where
there is no discrete one. -/
theorem mem_defaultOffloadDevices {dev : registry.Device} :
    dev ∈ defaultOffloadDevices devices ↔ dev ∈ devices ∧ (registry.type dev = .gpu ∨
      registry.type dev = .igpu ∧ ∀ other ∈ devices, registry.type other ≠ .gpu) := by
  rw [defaultOffloadDevices]
  split
  · rename_i none
    have integrated : ∀ other ∈ devices, registry.type other ≠ .gpu := by
      simpa [List.isEmpty_iff, List.filter_eq_nil_iff] using none
    rw [List.mem_filter, decide_eq_true_eq]
    constructor
    · rintro ⟨member, type⟩
      exact ⟨member, .inr ⟨type, integrated⟩⟩
    · rintro ⟨member, discrete | ⟨type, _⟩⟩
      · exact absurd discrete (integrated dev member)
      · exact ⟨member, type⟩
  · rename_i some
    have discrete : ∃ other ∈ devices, registry.type other = .gpu := by
      simpa [List.isEmpty_iff, List.filter_eq_nil_iff] using some
    obtain ⟨other, present, type⟩ := discrete
    rw [List.mem_filter, decide_eq_true_eq]
    constructor
    · rintro ⟨member, type⟩
      exact ⟨member, .inl type⟩
    · rintro ⟨member, type | ⟨_, none⟩⟩
      · exact ⟨member, type⟩
      · exact absurd type (none other present)

/-- Named devices are accepted exactly when each name is the one of some device and no device
is named twice, and then they are the first devices of these names in the order of the names;
otherwise the error is about the first name that no device has or whose device was named
before. Without names every discrete GPU is taken, or every integrated one if there is no
discrete one. -/
theorem selectOffloadDevices_exact (config : LoadConfig) (devices : List registry.Device) :
    (config.devices = [] → ∃ chosen, selectOffloadDevices config devices = .ok chosen ∧
      chosen.Sublist devices ∧
      ∀ dev, dev ∈ chosen ↔ dev ∈ devices ∧ (registry.type dev = .gpu ∨
        registry.type dev = .igpu ∧ ∀ other ∈ devices, registry.type other ≠ .gpu)) ∧
    (config.devices ≠ [] →
      (∀ chosen : List registry.Device, selectOffloadDevices config devices = .ok chosen ↔
        chosen.Nodup ∧ config.devices.map (deviceNamed devices) = chosen.map some) ∧
      ∀ error, selectOffloadDevices config devices = .error error ↔
        ∃ before wanted after, ∃ chosen : List registry.Device,
          config.devices = before ++ wanted :: after ∧
          chosen.Nodup ∧ before.map (deviceNamed devices) = chosen.map some ∧
          (deviceNamed devices wanted = none ∧
              error = .unknownDevice wanted (joinDeviceNames devices) ∨
            ∃ dev ∈ chosen, deviceNamed devices wanted = some dev ∧
              error = .listedTwice wanted)) := by
  have accepted (names : List Bytes) (chosen : List registry.Device) :
      names.foldlM (selectOffloadDevices.choose devices) [] = .ok chosen ↔
        chosen.Nodup ∧ names.map (deviceNamed devices) = chosen.map some := by
    rw [selectOffloadDevices.foldlM_eq_ok_iff .nil]
    constructor
    · rintro ⟨more, rfl, distinct, same⟩
      exact ⟨distinct, same⟩
    · rintro ⟨distinct, same⟩
      exact ⟨chosen, rfl, distinct, same⟩
  refine ⟨fun unnamed => ?_, fun named => ?_⟩
  · rw [selectOffloadDevices, if_pos (List.isEmpty_iff.mpr unnamed)]
    exact ⟨_, rfl, defaultOffloadDevices_sublist devices, fun dev => mem_defaultOffloadDevices⟩
  · rw [selectOffloadDevices, if_neg (by rwa [List.isEmpty_iff])]
    refine ⟨accepted config.devices, fun error => ?_⟩
    rw [foldlM_eq_error_iff]
    constructor
    · rintro ⟨before, wanted, after, chosen, split, passed, failed⟩
      obtain ⟨distinct, same⟩ := (accepted before chosen).mp passed
      exact ⟨before, wanted, after, chosen, split, distinct, same,
        selectOffloadDevices.choose_eq_error_iff.mp failed⟩
    · rintro ⟨before, wanted, after, chosen, split, distinct, same, failed⟩
      exact ⟨before, wanted, after, chosen, split, (accepted before chosen).mpr ⟨distinct, same⟩,
        selectOffloadDevices.choose_eq_error_iff.mpr failed⟩

/-- A machine with a processor and two discrete GPUs. -/
abbrev Registry.twoGpus : Registry where
  Device := Nat
  registered := [some 0, none, some 1, some 2]
  name dev := literal (if dev = 0 then "CPU" else "Vulkan" ++ toString (dev - 1))
  type dev := if dev = 0 then .cpu else .gpu
  maxDevices := 16

/-- Both GPUs, the second one first. -/
theorem selectOffloadDevices_exact_twoGpus :
    @selectOffloadDevices Registry.twoGpus
      { modelPath := [], devices := [literal "Vulkan1", literal "Vulkan0"] }
      (allDevices Registry.twoGpus) = .ok [(2 : Nat), (1 : Nat)] := by
  have exact_ := @selectOffloadDevices_exact Registry.twoGpus
    { modelPath := [], devices := [literal "Vulkan1", literal "Vulkan0"] }
    (allDevices Registry.twoGpus)
  have found : [literal "Vulkan1", literal "Vulkan0"].map
      (@deviceNamed Registry.twoGpus (allDevices Registry.twoGpus)) =
        [(2 : Nat), (1 : Nat)].map some := by
    decide +kernel
  exact ((exact_.2 (List.cons_ne_nil _ _)).1 _).mpr ⟨by decide, found⟩

end Selection

section Split

variable {config : LoadConfig} {split : List Share} {sum total : Rat} {index : Nat}
  {error : LoadError}

/-- Every entry is a share and the sum is theirs. -/
theorem paddedTensorSplit.total_eq_ok_iff :
    paddedTensorSplit.total index sum split = .ok total ↔
      ∃ shares : List Rat, split = shares.map some ∧ (∀ share ∈ shares, 0 ≤ share) ∧
        total = sum + shares.sum := by
  induction split generalizing index sum with
  | nil =>
      rw [paddedTensorSplit.total]
      constructor
      · rintro ⟨⟩
        exact ⟨[], rfl, by simp, by simp⟩
      · rintro ⟨shares, none, _, rfl⟩
        rw [List.map_eq_nil_iff.mp none.symm, List.sum_nil, add_zero]
  | cons entry split inductionHypothesis =>
      cases entry with
      | none =>
          rw [paddedTensorSplit.total]
          constructor
          · rintro ⟨⟩
          · rintro ⟨shares, same, _⟩
            cases shares <;> cases same
      | some share =>
          rw [paddedTensorSplit.total]
          constructor
          · intro returned
            by_cases nonnegative : 0 ≤ share
            · rw [if_pos nonnegative] at returned
              obtain ⟨shares, rfl, rest, rfl⟩ := inductionHypothesis.mp returned
              exact ⟨share :: shares, rfl, by simpa using ⟨nonnegative, rest⟩, by
                rw [List.sum_cons, add_assoc]⟩
            · rw [if_neg nonnegative] at returned
              cases returned
          · rintro ⟨shares, same, nonnegative, rfl⟩
            cases shares with
            | nil => cases same
            | cons first shares =>
                cases same
                rw [List.forall_mem_cons] at nonnegative
                rw [if_pos nonnegative.1]
                exact inductionHypothesis.mpr ⟨shares, rfl, nonnegative.2, by
                  rw [List.sum_cons, add_assoc]⟩

/-- The error is about the first entry that is no share. -/
theorem paddedTensorSplit.total_eq_error_iff :
    paddedTensorSplit.total index sum split = .error error ↔
      ∃ before : List Rat, ∃ entry after, split = before.map some ++ entry :: after ∧
        (∀ share ∈ before, 0 ≤ share) ∧ (∀ share ∈ entry, share < 0) ∧
        error = .splitEntry (index + before.length + 1) := by
  induction split generalizing index sum with
  | nil =>
      rw [paddedTensorSplit.total]
      constructor
      · rintro ⟨⟩
      · rintro ⟨before, entry, after, same, _⟩
        cases before <;> cases same
  | cons entry split inductionHypothesis =>
      have first (bad : ∀ share ∈ entry, share < 0) :
          (.error (.splitEntry (index + 1)) : Except LoadError Rat) = .error error ↔
            ∃ before : List Rat, ∃ other after,
              entry :: split = before.map some ++ other :: after ∧
              (∀ share ∈ before, 0 ≤ share) ∧ (∀ share ∈ other, share < 0) ∧
              error = .splitEntry (index + before.length + 1) := by
        constructor
        · rintro ⟨⟩
          exact ⟨[], entry, split, rfl, by simp, bad, rfl⟩
        · rintro ⟨before, other, after, same, nonnegative, _, rfl⟩
          cases before with
          | nil => rfl
          | cons share before =>
              cases same
              exact absurd (bad share rfl) (Rat.not_lt.mpr (nonnegative share List.mem_cons_self))
      cases entry with
      | none =>
          rw [paddedTensorSplit.total]
          exact first (by simp)
      | some share =>
          rw [paddedTensorSplit.total]
          by_cases nonnegative : 0 ≤ share
          · rw [if_pos nonnegative, inductionHypothesis]
            constructor
            · rintro ⟨before, other, after, rfl, shares, bad, rfl⟩
              refine ⟨share :: before, other, after, rfl, ?_, bad, ?_⟩
              · exact List.forall_mem_cons.mpr ⟨nonnegative, shares⟩
              · rw [List.length_cons]
                congr 1
                omega
            · rintro ⟨before, other, after, same, shares, bad, rfl⟩
              cases before with
              | nil =>
                  cases same
                  exact absurd (bad share rfl) (Rat.not_lt.mpr nonnegative)
              | cons other before =>
                  cases same
                  refine ⟨before, _, after, rfl, (List.forall_mem_cons.mp shares).2, bad, ?_⟩
                  rw [List.length_cons]
                  congr 1
                  omega
          · rw [if_neg nonnegative]
            exact first (by simpa using Rat.not_le.mp nonnegative)

/-- Shares add up to something exactly when one of them is something. -/
theorem sum_pos_iff {shares : List Rat} (nonnegative : ∀ share ∈ shares, 0 ≤ share) :
    0 < shares.sum ↔ ∃ share ∈ shares, 0 < share := by
  induction shares with
  | nil => simp
  | cons share shares inductionHypothesis =>
      rw [List.forall_mem_cons] at nonnegative
      have rest : 0 ≤ shares.sum := List.sum_nonneg nonnegative.2
      rw [List.sum_cons, List.exists_mem_cons_iff, ← inductionHypothesis nonnegative.2]
      constructor
      · intro positive
        by_contra none
        rw [not_or, not_lt, not_lt] at none
        linarith
      · rintro (positive | positive)
        · linarith
        · linarith [nonnegative.1]

/-- What is decided about a split whose entries are shares. -/
theorem paddedTensorSplit_of_shares {shares : List Rat} {nOffload maxDevices : Nat}
    (given : shares ≠ []) (split : config.tensorSplit = shares.map some)
    (nonnegative : ∀ share ∈ shares, 0 ≤ share) :
    paddedTensorSplit config nOffload maxDevices =
      if shares.sum ≤ 0 then .error .splitZeros
      else if nOffload = 0 then .error .splitWithoutGpu
      else if nOffload < shares.length then
        .error (.splitTooLong shares.length nOffload (!config.devices.isEmpty))
      else if maxDevices < shares.length then
        .error (.splitUnsupported shares.length maxDevices)
      else .ok (shares ++ List.replicate (maxDevices - shares.length) 0) := by
  have total : paddedTensorSplit.total 0 0 config.tensorSplit = .ok shares.sum :=
    paddedTensorSplit.total_eq_ok_iff.mpr ⟨shares, split, nonnegative, (zero_add _).symm⟩
  have full : ¬ config.tensorSplit.isEmpty := by simpa [split] using given
  have values : config.tensorSplit.filterMap id = shares := by
    rw [split, List.filterMap_map]
    exact List.filterMap_some
  have length : config.tensorSplit.length = shares.length := by rw [split, List.length_map]
  rw [paddedTensorSplit, if_neg full, total, values, length]
  rfl

/-- A split is accepted, or its first entry that is no share is reported. -/
theorem paddedTensorSplit_cases (config : LoadConfig) (nOffload maxDevices : Nat) :
    config.tensorSplit = [] ∧ paddedTensorSplit config nOffload maxDevices = .ok [] ∨
    (∃ shares, shares ≠ [] ∧ config.tensorSplit = shares.map some ∧
      ∀ share ∈ shares, 0 ≤ share) ∨
    ∃ error, paddedTensorSplit.total 0 0 config.tensorSplit = .error error ∧
      paddedTensorSplit config nOffload maxDevices = .error error := by
  by_cases given : config.tensorSplit = []
  · refine .inl ⟨given, ?_⟩
    rw [paddedTensorSplit, given]
    rfl
  have full : ¬ config.tensorSplit.isEmpty := by rwa [List.isEmpty_iff]
  cases summed : paddedTensorSplit.total 0 0 config.tensorSplit with
  | ok total =>
      obtain ⟨shares, split, nonnegative, _⟩ := paddedTensorSplit.total_eq_ok_iff.mp summed
      refine .inr (.inl ⟨shares, ?_, split, nonnegative⟩)
      rintro rfl
      exact given split
  | error error =>
      refine .inr (.inr ⟨error, rfl, ?_⟩)
      rw [paddedTensorSplit, if_neg full, summed]
      rfl

/-- A tensor split is accepted exactly when its entries are shares, one of them is something,
and it is no longer than the devices and than what llama.cpp reads; then llama.cpp gets the
shares and zeros up to its length. An entry that is negative or not a number is reported with
its position, before anything else. -/
theorem paddedTensorSplit_exact (config : LoadConfig) (nOffload maxDevices : Nat) :
    (∀ padded, paddedTensorSplit config nOffload maxDevices = .ok padded ↔
      config.tensorSplit = [] ∧ padded = [] ∨
      ∃ shares : List Rat, config.tensorSplit = shares.map some ∧
        (∀ share ∈ shares, 0 ≤ share) ∧ (∃ share ∈ shares, 0 < share) ∧
        shares.length ≤ nOffload ∧ shares.length ≤ maxDevices ∧
        padded = shares ++ List.replicate (maxDevices - shares.length) 0) ∧
    ∀ position, paddedTensorSplit config nOffload maxDevices = .error (.splitEntry position) ↔
      ∃ before : List Rat, ∃ entry after,
        config.tensorSplit = before.map some ++ entry :: after ∧
        (∀ share ∈ before, 0 ≤ share) ∧ (∀ share ∈ entry, share < 0) ∧
        position = before.length + 1 := by
  have reported (position : Nat) :
      paddedTensorSplit.total 0 0 config.tensorSplit = .error (.splitEntry position) ↔
        ∃ before : List Rat, ∃ entry after,
          config.tensorSplit = before.map some ++ entry :: after ∧
          (∀ share ∈ before, 0 ≤ share) ∧ (∀ share ∈ entry, share < 0) ∧
          position = before.length + 1 := by
    rw [paddedTensorSplit.total_eq_error_iff]
    simp only [Nat.zero_add, LoadError.splitEntry.injEq]
  obtain ⟨given, nothing⟩ | ⟨shares, given, split, nonnegative⟩ | ⟨error, failed, refused⟩ :=
    paddedTensorSplit_cases config nOffload maxDevices
  · refine ⟨fun padded => ?_, fun position => ?_⟩
    · rw [nothing]
      constructor
      · rintro ⟨⟩
        exact .inl ⟨given, rfl⟩
      · rintro (⟨_, rfl⟩ | ⟨shares, same, _, ⟨share, member, _⟩, _⟩)
        · rfl
        · rw [given] at same
          rw [List.map_eq_nil_iff.mp same.symm] at member
          cases member
    · rw [nothing, ← reported, given]
      constructor
      · rintro ⟨⟩
      · rintro ⟨⟩
  · have same (others : List Rat) : config.tensorSplit = others.map some ↔ others = shares := by
      rw [split, eq_comm]
      exact (List.map_injective_iff.mpr (Option.some_injective _)).eq_iff
    have full : config.tensorSplit ≠ [] := by rwa [split, Ne, List.map_eq_nil_iff]
    rw [paddedTensorSplit_of_shares given split nonnegative]
    refine ⟨fun padded => ?_, fun position => ?_⟩
    · simp only [same, full, false_and, false_or, exists_eq_left, ← sum_pos_iff nonnegative]
      by_cases zeros : shares.sum ≤ 0
      · simp [zeros, Rat.not_lt.mpr zeros]
      by_cases without : nOffload = 0
      · simp [zeros, without, given]
      by_cases long : nOffload < shares.length
      · simp [zeros, without, long, Nat.not_le.mpr long]
      by_cases unsupported : maxDevices < shares.length
      · simp [zeros, without, long, unsupported, Nat.not_le.mpr unsupported]
      rw [if_neg zeros, if_neg without, if_neg long, if_neg unsupported, Except.ok.injEq]
      constructor
      · rintro rfl
        exact ⟨nonnegative, Rat.not_le.mp zeros, Nat.not_lt.mp long, Nat.not_lt.mp unsupported, rfl⟩
      · rintro ⟨_, _, _, _, rfl⟩
        rfl
    · have passed : paddedTensorSplit.total 0 0 config.tensorSplit = .ok (0 + shares.sum) :=
        paddedTensorSplit.total_eq_ok_iff.mpr ⟨shares, split, nonnegative, rfl⟩
      rw [← reported, passed]
      constructor
      · intro refused
        split_ifs at refused <;> cases refused
      · rintro ⟨⟩
  · refine ⟨fun padded => ?_, fun position => ?_⟩
    · rw [refused]
      constructor
      · rintro ⟨⟩
      · rintro (⟨none, _⟩ | ⟨shares, split, nonnegative, _⟩)
        · rw [none] at failed
          cases failed
        · have passed : paddedTensorSplit.total 0 0 config.tensorSplit = .ok (0 + shares.sum) :=
            paddedTensorSplit.total_eq_ok_iff.mpr ⟨shares, split, nonnegative, rfl⟩
          rw [failed] at passed
          cases passed
    · rw [refused, ← reported, failed, Except.error.injEq, Except.error.injEq]

end Split

end Llamad
