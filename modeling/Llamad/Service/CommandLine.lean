import Llamad.Engine.Loading
import Llamad.Service.Flags
import Mathlib.Data.List.TakeWhile

/-!
# The command line

The arguments of the daemon, from `argv` to what `main` does about them. An argument is a flag,
or the value of the flag in front of it, whatever it looks like; `Spelled` says which command
lines there are and `Stuck` where the others end.
-/

namespace Llamad.Cli

open Logical Semantics Program

/-- The statements that throw `FlagError` while the command line is read. -/
inductive ArgError where
  | needsValue (flag : Bytes)
  | needsInteger (flag : Bytes)
  | outOfRange (flag : Bytes)
  | unknown (argument : Bytes)
  | config (error : FlagError)
  | modelRequired
deriving DecidableEq

/-- The text `what()` carries. -/
def ArgError.what : ArgError → Bytes
  | .needsValue flag => flag ++ literal " needs a value"
  | .needsInteger flag => flag ++ literal " needs an integer"
  | .outOfRange flag => flag ++ literal " is out of range"
  | .unknown argument => literal "unknown argument '" ++ argument ++ literal "'"
  | .config error => error.what
  | .modelRequired => literal "--model is required"

section Numbers

/-- An ASCII digit. -/
def isDigit (byte : UInt8) : Bool := 0x30 ≤ byte && byte ≤ 0x39

/-- The number some digits stand for. -/
def decimal (digits : Bytes) : Nat :=
  digits.foldl (fun value digit => 10 * value + (digit.toNat - 0x30)) 0

/-- How `std::from_chars` ends: what it read and what it left. -/
inductive FromChars where
  | invalidArgument
  | outOfRange
  | parsed (value : Int) (rest : Bytes)
deriving DecidableEq

/-- The value of a numeral with or without a minus sign. -/
def signed (negative : Bool) (digits : Bytes) : Int :=
  if negative then -(decimal digits : Int) else decimal digits

/-- The digits of `std::from_chars` for an `int32_t`. -/
def fromChars.read (negative : Bool) (text : Bytes) : FromChars :=
  let digits := text.takeWhile isDigit
  if digits.isEmpty then .invalidArgument
  else if signed negative digits < -2 ^ 31 ∨ 2 ^ 31 ≤ signed negative digits then .outOfRange
  else .parsed (signed negative digits) (text.dropWhile isDigit)

/-- `std::from_chars` for an `int32_t`: a minus sign perhaps, and digits. -/
def fromChars (text : Bytes) : FromChars :=
  if text.head? = some 0x2D then fromChars.read true text.tail else fromChars.read false text

/-- Reads `text` whole as an `int32_t`. -/
def parseNumber (flag text : Bytes) : Except ArgError Int :=
  match fromChars text with
  | .outOfRange => .error (.outOfRange flag)
  | .invalidArgument => .error (.needsInteger flag)
  | .parsed value rest => if rest.isEmpty then .ok value else .error (.needsInteger flag)

/-- Digits in front of something that is no digit are all that is taken. -/
theorem takeWhile_digits {digits rest : Bytes} (all : ∀ byte ∈ digits, isDigit byte)
    (ends : ∀ byte ∈ rest.head?, ¬ isDigit byte) :
    (digits ++ rest).takeWhile isDigit = digits ∧ (digits ++ rest).dropWhile isDigit = rest := by
  rw [List.takeWhile_append_of_pos all, List.dropWhile_append_of_pos all]
  cases rest with
  | nil => simp
  | cons byte rest =>
      have stops := ends byte rfl
      simp [stops]

/-- The sign in front of the digits of a numeral. -/
def sign (negative : Bool) : Bytes := if negative then [0x2D] else []

/-- A text starts with a numeral: its sign, its digits, and what is left. -/
structure Numeral (text : Bytes) (negative : Bool) (digits rest : Bytes) : Prop where
  text_eq : text = sign negative ++ digits ++ rest
  nonempty : digits ≠ []
  digits : ∀ byte ∈ digits, isDigit byte
  ends : ∀ byte ∈ rest.head?, ¬ isDigit byte

variable {text digits rest : Bytes} {negative : Bool}

theorem Numeral.minus_iff (numeral : Numeral text negative digits rest) :
    text.head? = some 0x2D ↔ negative = true := by
  obtain ⟨rfl, nonempty, all, _⟩ := numeral
  cases negative with
  | true => simp [sign]
  | false =>
      cases digits with
      | nil => exact absurd rfl nonempty
      | cons byte digits =>
          have digit := all byte List.mem_cons_self
          constructor
          · rintro ⟨⟩
            exact absurd digit (by decide)
          · rintro ⟨⟩

/-- A text starts with one numeral at most. -/
theorem Numeral.unique {other : Bool} {others left : Bytes}
    (numeral : Numeral text negative digits rest) (found : Numeral text other others left) :
    other = negative ∧ others = digits ∧ left = rest := by
  have signs : other = negative := by
    rw [Bool.eq_iff_iff, ← found.minus_iff, ← numeral.minus_iff]
  subst signs
  have same : digits ++ rest = others ++ left := by
    have both := numeral.text_eq.symm.trans found.text_eq
    rwa [List.append_assoc, List.append_assoc, List.append_cancel_left_eq] at both
  obtain ⟨taken, dropped⟩ := takeWhile_digits numeral.digits numeral.ends
  obtain ⟨takenToo, droppedToo⟩ := takeWhile_digits found.digits found.ends
  rw [same] at taken dropped
  exact ⟨rfl, takenToo.symm.trans taken, droppedToo.symm.trans dropped⟩

theorem Numeral.fromChars_eq (numeral : Numeral text negative digits rest) :
    fromChars text =
      if signed negative digits < -2 ^ 31 ∨ 2 ^ 31 ≤ signed negative digits then .outOfRange
      else .parsed (signed negative digits) rest := by
  have minus := numeral.minus_iff
  obtain ⟨rfl, nonempty, all, ends⟩ := numeral
  obtain ⟨taken, left⟩ := takeWhile_digits all ends
  have full : ¬ digits.isEmpty := by rwa [List.isEmpty_iff]
  have read : fromChars.read negative (digits ++ rest) =
      if signed negative digits < -2 ^ 31 ∨ 2 ^ 31 ≤ signed negative digits then .outOfRange
      else .parsed (signed negative digits) rest := by
    rw [fromChars.read, taken, left, if_neg full]
  cases negative with
  | true => exact read
  | false =>
      have unsigned : ¬ (sign false ++ digits ++ rest).head? = some 0x2D :=
        fun first => Bool.noConfusion (minus.mp first)
      rw [fromChars, if_neg unsigned]
      exact read

/-- A text that starts with no numeral is refused. -/
theorem fromChars_cases (text : Bytes) : fromChars text = .invalidArgument ∨
    ∃ negative digits rest, Numeral text negative digits rest := by
  have split (negative : Bool) (unsigned : Bytes) :
      fromChars.read negative unsigned = .invalidArgument ∨
        ∃ digits rest, Numeral (sign negative ++ unsigned) negative digits rest := by
    by_cases none : (unsigned.takeWhile isDigit).isEmpty
    · exact .inl (if_pos none)
    · refine .inr ⟨unsigned.takeWhile isDigit, unsigned.dropWhile isDigit, ?_, ?_, ?_, ?_⟩
      · rw [List.append_assoc, List.takeWhile_append_dropWhile]
      · rwa [List.isEmpty_iff] at none
      · exact fun byte member => List.mem_takeWhile_imp member
      · intro byte first
        have stops := List.head?_dropWhile_not isDigit unsigned
        rw [Option.mem_def.mp first] at stops
        simp [stops]
  by_cases minus : text.head? = some 0x2D
  · rw [fromChars, if_pos minus]
    obtain ⟨unsigned, rfl⟩ : ∃ unsigned, text = 0x2D :: unsigned := by
      cases text with
      | nil => cases minus
      | cons byte unsigned =>
          cases minus
          exact ⟨unsigned, rfl⟩
    obtain invalid | ⟨digits, rest, numeral⟩ := split true unsigned
    · exact .inl invalid
    · exact .inr ⟨true, digits, rest, numeral⟩
  · rw [fromChars, if_neg minus]
    obtain invalid | ⟨digits, rest, numeral⟩ := split false text
    · exact .inl invalid
    · exact .inr ⟨false, digits, rest, numeral⟩

/-- A text is a number exactly when it is digits behind a minus sign or nothing that stand for
an `int32_t`. It is out of range exactly when it starts with the digits of a larger or smaller
number, whatever follows them. -/
theorem parseNumber_exact (flag text : Bytes) :
    (∀ value, parseNumber flag text = .ok value ↔
      ∃ negative digits, Numeral text negative digits [] ∧ value = signed negative digits ∧
        -2 ^ 31 ≤ value ∧ value < 2 ^ 31) ∧
    (parseNumber flag text = .error (.outOfRange flag) ↔
      ∃ negative digits rest, Numeral text negative digits rest ∧
        (signed negative digits < -2 ^ 31 ∨ 2 ^ 31 ≤ signed negative digits)) ∧
    ∀ error, parseNumber flag text = .error error →
      error = .outOfRange flag ∨ error = .needsInteger flag := by
  obtain invalid | ⟨negative, digits, rest, numeral⟩ := fromChars_cases text
  · have none {negative : Bool} {digits rest : Bytes} :
        ¬ Numeral text negative digits rest := by
      intro numeral
      rw [numeral.fromChars_eq] at invalid
      split at invalid <;> cases invalid
    simp [parseNumber, invalid, none, eq_comm]
  · by_cases out : signed negative digits < -2 ^ 31 ∨ 2 ^ 31 ≤ signed negative digits
    · have refused : parseNumber flag text = .error (.outOfRange flag) := by
        rw [parseNumber, numeral.fromChars_eq, if_pos out]
      rw [refused]
      refine ⟨fun value => ?_, ?_, ?_⟩
      · constructor
        · rintro ⟨⟩
        · rintro ⟨other, others, found, rfl, above, below⟩
          obtain ⟨rfl, rfl, _⟩ := numeral.unique found
          omega
      · exact ⟨fun _ => ⟨negative, digits, rest, numeral, out⟩, fun _ => rfl⟩
      · rintro _ ⟨⟩
        exact .inl rfl
    · have read : parseNumber flag text = if rest.isEmpty then .ok (signed negative digits)
          else .error (.needsInteger flag) := by
        rw [parseNumber, numeral.fromChars_eq, if_neg out]
      rw [read]
      refine ⟨fun value => ?_, ?_, ?_⟩
      · constructor
        · intro accepted
          split at accepted
          · rename_i whole
            cases accepted
            cases List.isEmpty_iff.mp whole
            exact ⟨negative, digits, numeral, rfl, by omega, by omega⟩
          · cases accepted
        · rintro ⟨other, others, found, rfl, above, below⟩
          obtain ⟨rfl, rfl, rfl⟩ := numeral.unique found
          rfl
      · constructor
        · intro refused
          split at refused <;> cases refused
        · rintro ⟨other, others, left, found, wrong⟩
          obtain ⟨rfl, rfl, _⟩ := numeral.unique found
          exact absurd wrong out
      · intro error refused
        split at refused
        · cases refused
        · cases refused
          exact .inr rfl

/-- A number that is too large is out of range before its end is looked at. -/
example : parseNumber [] (literal "99999999999x") = .error (.outOfRange []) := by decide +kernel

end Numbers

/-- One assignment that the command line makes. -/
inductive Setting where
  | model (path : Bytes)
  | socket (path : Bytes)
  | help
  | version
  | ctx (tokens : Int)
  | ngl (layers : Int)
  | threads (count : Int)
  | devices (names : Bytes)
  | tensorSplit (shares : Bytes)
  | listDevices
deriving DecidableEq

/-- What the command line gives: the options of the daemon and the engine flags. -/
structure Options where
  model : Bytes := []
  socket : Option Bytes := none
  help : Bool := false
  version : Bool := false
  flags : EngineFlags := {}
  listDevices : Bool := false

/-- The options after one assignment. -/
def Options.set (options : Options) : Setting → Options
  | .model path => { options with model := path }
  | .socket path => { options with socket := some path }
  | .help => { options with help := true }
  | .version => { options with version := true }
  | .ctx tokens => { options with flags := { options.flags with ctx := tokens } }
  | .ngl layers => { options with flags := { options.flags with ngl := layers } }
  | .threads count => { options with flags := { options.flags with threads := count } }
  | .devices names => { options with flags := { options.flags with devices := some names } }
  | .tensorSplit shares =>
      { options with flags := { options.flags with tensorSplit := some shares } }
  | .listDevices => { options with listDevices := true }

/-- The option that an assignment is about has the value it gives. -/
def Options.Holds (options : Options) : Setting → Prop
  | .model path => options.model = path
  | .socket path => options.socket = some path
  | .help => options.help = true
  | .version => options.version = true
  | .ctx tokens => options.flags.ctx = tokens
  | .ngl layers => options.flags.ngl = layers
  | .threads count => options.flags.threads = count
  | .devices names => options.flags.devices = some names
  | .tensorSplit shares => options.flags.tensorSplit = some shares
  | .listDevices => options.listDevices = true

/-- Two assignments are about the same option. -/
def Setting.Same (setting other : Setting) : Prop := setting.ctorIdx = other.ctorIdx

instance (setting other : Setting) : Decidable (setting.Same other) :=
  inferInstanceAs (Decidable (_ = _))

/-- `Args`, at one argument, and what was read so far. -/
structure CommandLine where
  current : Bytes := []
  ahead : List Bytes
  options : Options := {}

section Reading

/-- Moves to the next argument; false when there is none. -/
def next : Program CommandLine ArgError Bool := do
  let line ← get
  match line.ahead with
  | [] => return false
  | argument :: rest => do
      modify fun line => { line with current := argument, ahead := rest }
      return true

/-- Whether the current argument is the flag `name`; -h is --help. -/
def CommandLine.is (line : CommandLine) (name : Bytes) : Bool :=
  line.current = name || (line.current = literal "-h" && name = literal "--help")

/-- The current flag's value: the argument after it. -/
def value : Program CommandLine ArgError Bytes := do
  let line ← get
  match line.ahead with
  | [] => throw (.needsValue line.current)
  | argument :: rest => do
      modify fun line => { line with current := argument, ahead := rest }
      return argument

/-- The current flag's value read as a number. -/
def number : Program CommandLine ArgError Int := do
  let line ← get
  let text ← value
  attempt (parseNumber line.current text)

/-- One assignment. -/
def assign (setting : Setting) : Program CommandLine ArgError Unit :=
  modify fun line => { line with options := line.options.set setting }

/-- Reads the current argument if it is an engine flag; false if it is not. -/
def parseEngineFlag : Program CommandLine ArgError Bool := do
  let line ← get
  if line.is (literal "--ctx") then
    assign (.ctx (← number))
    return true
  else if line.is (literal "--ngl") then
    assign (.ngl (← number))
    return true
  else if line.is (literal "--threads") then
    assign (.threads (← number))
    return true
  else if line.is (literal "--devices") then
    assign (.devices (← value))
    return true
  else if line.is (literal "--tensor-split") then
    assign (.tensorSplit (← value))
    return true
  else if line.is (literal "--list-devices") then
    assign .listDevices
    return true
  else
    return false

/-- The body of the loop of `parse_command_line`. -/
def parseArgument : Program CommandLine ArgError Unit := do
  let line ← get
  if line.is (literal "--model") then
    assign (.model (← value))
  else if line.is (literal "--socket") then
    assign (.socket (← value))
  else if line.is (literal "--help") then
    assign .help
  else if line.is (literal "--version") then
    assign .version
  else
    let known ← parseEngineFlag
    throwIf (¬ known) (.unknown line.current)

end Reading

section Grammar

/-- The flags that a number follows. -/
def numeric : List Bytes := [literal "--threads", literal "--ngl", literal "--ctx"]

/-- The flags that a value follows. -/
def valued : List Bytes :=
  [literal "--tensor-split", literal "--devices"] ++ numeric ++
    [literal "--socket", literal "--model"]

/-- The flags that stand alone. -/
def switches : List Bytes :=
  [literal "--list-devices", literal "--version", literal "--help", literal "-h"]

/-- The words that make one assignment. -/
inductive Spells : List Bytes → Setting → Prop
  | model (path : Bytes) : Spells [literal "--model", path] (.model path)
  | socket (path : Bytes) : Spells [literal "--socket", path] (.socket path)
  | help : Spells [literal "--help"] .help
  | h : Spells [literal "-h"] .help
  | version : Spells [literal "--version"] .version
  | ctx {text : Bytes} {tokens : Int} (read : parseNumber (literal "--ctx") text = .ok tokens) :
      Spells [literal "--ctx", text] (.ctx tokens)
  | ngl {text : Bytes} {layers : Int} (read : parseNumber (literal "--ngl") text = .ok layers) :
      Spells [literal "--ngl", text] (.ngl layers)
  | threads {text : Bytes} {count : Int}
      (read : parseNumber (literal "--threads") text = .ok count) :
      Spells [literal "--threads", text] (.threads count)
  | devices (names : Bytes) : Spells [literal "--devices", names] (.devices names)
  | tensorSplit (shares : Bytes) : Spells [literal "--tensor-split", shares] (.tensorSplit shares)
  | listDevices : Spells [literal "--list-devices"] .listDevices

/-- The words that make these assignments, one after the other. -/
inductive Spelled : List Bytes → List Setting → Prop
  | nil : Spelled [] []
  | cons {words rest : List Bytes} {setting : Setting} {settings : List Setting}
      (spells : Spells words setting) (spelled : Spelled rest settings) :
      Spelled (words ++ rest) (setting :: settings)

/-- Words that start with no assignment, and the error about that. -/
inductive Stuck : List Bytes → ArgError → Prop
  | unknown {argument : Bytes} (rest : List Bytes) (known : argument ∉ valued ++ switches) :
      Stuck (argument :: rest) (.unknown argument)
  | unvalued {flag : Bytes} (takes : flag ∈ valued) : Stuck [flag] (.needsValue flag)
  | unread {flag text : Bytes} {error : ArgError} (rest : List Bytes) (takes : flag ∈ numeric)
      (failed : parseNumber flag text = .error error) : Stuck (flag :: text :: rest) error

/-- No two flags are the same. -/
theorem flags_nodup : [literal "--list-devices", literal "--tensor-split", literal "--devices",
    literal "--threads", literal "--ngl", literal "--ctx", literal "--version", literal "--help",
    literal "--socket", literal "--model", literal "-h"].Nodup := by
  decide +kernel

theorem h_apart : literal "-h" ≠ literal "--model" ∧ literal "-h" ≠ literal "--socket" ∧
    literal "--model" ≠ literal "--help" ∧ literal "--socket" ≠ literal "--help" := by
  decide +kernel

/-- A flag and a value make an assignment, unless the value cannot be read. -/
theorem spells_of_valued {flag : Bytes} (takes : flag ∈ valued) (text : Bytes) :
    (∃ setting, Spells [flag, text] setting) ∨
      flag ∈ numeric ∧ ∃ error, parseNumber flag text = .error error := by
  have numbered : flag ∈ numeric →
      (∃ setting, Spells [flag, text] setting) ∨
        flag ∈ numeric ∧ ∃ error, parseNumber flag text = .error error := by
    intro number
    cases read : parseNumber flag text with
    | error error => exact .inr ⟨number, error, rfl⟩
    | ok count =>
        simp only [numeric, List.mem_cons, List.not_mem_nil, or_false] at number
        obtain rfl | rfl | rfl := number
        · exact .inl ⟨_, .threads read⟩
        · exact .inl ⟨_, .ngl read⟩
        · exact .inl ⟨_, .ctx read⟩
  simp only [valued, List.mem_append, List.mem_cons, List.not_mem_nil, or_false] at takes
  obtain ((rfl | rfl) | number) | (rfl | rfl) := takes
  · exact .inl ⟨_, .tensorSplit text⟩
  · exact .inl ⟨_, .devices text⟩
  · exact numbered number
  · exact .inl ⟨_, .socket text⟩
  · exact .inl ⟨_, .model text⟩

/-- Words either start with an assignment or are stuck. -/
theorem spells_or_stuck (first : Bytes) (more : List Bytes) :
    (∃ words setting rest, first :: more = words ++ rest ∧ Spells words setting) ∨
      ∃ error, Stuck (first :: more) error := by
  by_cases known : first ∈ valued ++ switches
  · obtain takes | alone := List.mem_append.mp known
    · cases more with
      | nil => exact .inr ⟨_, .unvalued takes⟩
      | cons text rest =>
          obtain ⟨setting, spells⟩ | ⟨number, error, failed⟩ := spells_of_valued takes text
          · exact .inl ⟨_, setting, rest, rfl, spells⟩
          · exact .inr ⟨error, .unread rest number failed⟩
    · simp only [switches, List.mem_cons, List.not_mem_nil, or_false] at alone
      obtain rfl | rfl | rfl | rfl := alone
      · exact .inl ⟨_, _, more, rfl, .listDevices⟩
      · exact .inl ⟨_, _, more, rfl, .version⟩
      · exact .inl ⟨_, _, more, rfl, .help⟩
      · exact .inl ⟨_, _, more, rfl, .h⟩
  · exact .inr ⟨_, .unknown more known⟩

/-- The words of an assignment are read as that assignment. -/
theorem parseArgument_of_spells {words : List Bytes} {setting : Setting}
    (spells : Spells words setting) :
    ∃ first more, words = first :: more ∧ ∀ options rest, ∃ last,
      parseArgument ⟨first, more ++ rest, options⟩ =
        (.ok (), ⟨last, rest, options.set setting⟩) := by
  have apart := flags_nodup
  simp only [List.nodup_cons, List.mem_cons, List.not_mem_nil, or_false, not_or] at apart
  cases spells with
  | model path =>
      refine ⟨_, _, rfl, fun options rest => ⟨path, ?_⟩⟩
      simp [parseArgument, CommandLine.is, value, assign, bind_apply]
  | socket path =>
      refine ⟨_, _, rfl, fun options rest => ⟨path, ?_⟩⟩
      simp [parseArgument, CommandLine.is, value, assign, bind_apply, apart]
  | help =>
      refine ⟨_, _, rfl, fun options rest => ⟨literal "--help", ?_⟩⟩
      simp [parseArgument, CommandLine.is, assign, bind_apply, apart]
  | h =>
      refine ⟨_, _, rfl, fun options rest => ⟨literal "-h", ?_⟩⟩
      simp [parseArgument, CommandLine.is, assign, bind_apply, apart, h_apart]
  | version =>
      refine ⟨_, _, rfl, fun options rest => ⟨literal "--version", ?_⟩⟩
      simp [parseArgument, CommandLine.is, assign, bind_apply, apart]
  | @ctx text tokens read =>
      refine ⟨_, _, rfl, fun options rest => ⟨text, ?_⟩⟩
      simp [parseArgument, parseEngineFlag, CommandLine.is, number, value, assign, bind_apply,
        apart, read]
  | @ngl text layers read =>
      refine ⟨_, _, rfl, fun options rest => ⟨text, ?_⟩⟩
      simp [parseArgument, parseEngineFlag, CommandLine.is, number, value, assign, bind_apply,
        apart, read]
  | @threads text count read =>
      refine ⟨_, _, rfl, fun options rest => ⟨text, ?_⟩⟩
      simp [parseArgument, parseEngineFlag, CommandLine.is, number, value, assign, bind_apply,
        apart, read]
  | devices names =>
      refine ⟨_, _, rfl, fun options rest => ⟨names, ?_⟩⟩
      simp [parseArgument, parseEngineFlag, CommandLine.is, value, assign, bind_apply, apart]
  | tensorSplit shares =>
      refine ⟨_, _, rfl, fun options rest => ⟨shares, ?_⟩⟩
      simp [parseArgument, parseEngineFlag, CommandLine.is, value, assign, bind_apply, apart]
  | listDevices =>
      refine ⟨_, _, rfl, fun options rest => ⟨literal "--list-devices", ?_⟩⟩
      simp [parseArgument, parseEngineFlag, CommandLine.is, assign, bind_apply, apart]

/-- Words that are stuck end the reading. -/
theorem parseArgument_of_stuck {first : Bytes} {more : List Bytes} {error : ArgError}
    (stuck : Stuck (first :: more) error) (options : Options) :
    (parseArgument ⟨first, more, options⟩).1 = .error error := by
  have apart := flags_nodup
  simp only [List.nodup_cons, List.mem_cons, List.not_mem_nil, or_false, not_or] at apart
  cases stuck with
  | unknown rest known =>
      simp only [valued, numeric, switches, List.mem_append, List.mem_cons, List.not_mem_nil,
        or_false, not_or] at known
      simp [parseArgument, parseEngineFlag, CommandLine.is, bind_apply, known]
  | unvalued takes =>
      simp only [valued, numeric, List.mem_append, List.mem_cons, List.not_mem_nil,
        or_false] at takes
      obtain ((rfl | rfl) | (rfl | rfl | rfl)) | (rfl | rfl) := takes <;>
        simp [parseArgument, parseEngineFlag, CommandLine.is, number, value, bind_apply, apart]
  | unread rest takes failed =>
      simp only [numeric, List.mem_cons, List.not_mem_nil, or_false] at takes
      obtain rfl | rfl | rfl := takes <;>
        simp [parseArgument, parseEngineFlag, CommandLine.is, number, value, bind_apply, apart,
          failed]

/-- A round of the loop of `parse_command_line`. -/
def parseRound (_ : Unit) : Program CommandLine ArgError (Unit ⊕ Unit) := do
  if ← next then
    parseArgument
    return .inl ()
  else
    return .inr ()

theorem parseRound_of_spells {words : List Bytes} {setting : Setting}
    (spells : Spells words setting) (rest : List Bytes) (current : Bytes) (options : Options) :
    ∃ last, parseRound () ⟨current, words ++ rest, options⟩ =
      (.ok (.inl ()), ⟨last, rest, options.set setting⟩) := by
  obtain ⟨first, more, rfl, reads⟩ := parseArgument_of_spells spells
  obtain ⟨last, ran⟩ := reads options rest
  exact ⟨last, by simp [parseRound, next, bind_apply, ran]⟩

theorem parseRound_of_stuck {words : List Bytes} {error : ArgError} (stuck : Stuck words error)
    (current : Bytes) (options : Options) :
    (parseRound () ⟨current, words, options⟩).1 = .error error := by
  obtain ⟨first, more, rfl⟩ : ∃ first more, words = first :: more := by
    cases stuck <;> exact ⟨_, _, rfl⟩
  have failed := parseArgument_of_stuck stuck options
  rcases ran : parseArgument ⟨first, more, options⟩ with ⟨outcome, after⟩
  rw [ran] at failed
  subst failed
  simp [parseRound, next, bind_apply, ran]

theorem Spells.length_pos {words : List Bytes} {setting : Setting} (spells : Spells words setting) :
    0 < words.length := by
  cases spells <;> exact Nat.succ_pos _

theorem parseRound_decreases {locals next : Unit} {line after : CommandLine}
    (round : parseRound locals line = (.ok (.inl next), after)) :
    after.ahead.length < line.ahead.length := by
  obtain ⟨current, ahead, options⟩ := line
  cases ahead with
  | nil => cases round
  | cons first more =>
      obtain ⟨words, setting, rest, same, spells⟩ | ⟨error, stuck⟩ := spells_or_stuck first more
      · obtain ⟨last, ran⟩ := parseRound_of_spells spells rest current options
        have positive := spells.length_pos
        rw [← same, round] at ran
        cases ran
        simp only [same, List.length_append]
        omega
      · have failed := parseRound_of_stuck stuck current options
        rw [round] at failed
        cases failed

/-- `parse_command_line`. -/
def parseCommandLine : Program CommandLine ArgError Unit :=
  loop (fun _ line => line.ahead.length) parseRound parseRound_decreases ()

/-- The options that the arguments behind the program's name give. -/
def parseOptions (arguments : List Bytes) : Except ArgError Options :=
  match parseCommandLine { ahead := arguments } with
  | (.ok (), line) => .ok line.options
  | (.error error, _) => .error error

theorem parseCommandLine_of_spelled {words : List Bytes} {settings : List Setting}
    (spelled : Spelled words settings) (rest : List Bytes) (current : Bytes) (options : Options) :
    ∃ last, parseCommandLine ⟨current, words ++ rest, options⟩ =
      parseCommandLine ⟨last, rest, settings.foldl Options.set options⟩ := by
  induction spelled generalizing current options with
  | nil => exact ⟨current, rfl⟩
  | @cons words more setting settings spells spelled inductionHypothesis =>
      obtain ⟨last, round⟩ := parseRound_of_spells spells (more ++ rest) current options
      obtain ⟨final, ran⟩ := inductionHypothesis last (options.set setting)
      refine ⟨final, ?_⟩
      rw [List.append_assoc, parseCommandLine, loop_of_inl round]
      exact ran

theorem parseOptions_of_spelled {words : List Bytes} {settings : List Setting}
    (spelled : Spelled words settings) :
    parseOptions words = .ok (settings.foldl Options.set {}) := by
  obtain ⟨last, ran⟩ := parseCommandLine_of_spelled spelled [] [] {}
  have ended (line : CommandLine) (none : line.ahead = []) :
      parseRound () line = (.ok (.inr ()), line) := by
    simp [parseRound, next, bind_apply, none]
  rw [List.append_nil] at ran
  rw [parseOptions, ran, parseCommandLine, loop_of_inr (ended _ rfl)]

theorem parseOptions_of_stuck {front back : List Bytes} {settings : List Setting}
    {error : ArgError} (spelled : Spelled front settings) (stuck : Stuck back error) :
    parseOptions (front ++ back) = .error error := by
  obtain ⟨last, ran⟩ := parseCommandLine_of_spelled spelled back [] {}
  have failed := parseRound_of_stuck stuck last (settings.foldl Options.set {})
  rcases round : parseRound () ⟨last, back, settings.foldl Options.set {}⟩ with ⟨outcome, after⟩
  rw [round] at failed
  subst failed
  rw [parseOptions, ran, parseCommandLine, loop_of_error round]

/-- Every command line makes assignments, to its end or until it is stuck. -/
theorem spelled_or_stuck (words : List Bytes) :
    (∃ settings, Spelled words settings) ∨ ∃ front back settings error,
      words = front ++ back ∧ Spelled front settings ∧ Stuck back error := by
  induction size : words.length using Nat.strongRecOn generalizing words with
  | ind bound inductionHypothesis =>
      cases words with
      | nil => exact .inl ⟨[], .nil⟩
      | cons first more =>
          obtain ⟨taken, setting, rest, same, spells⟩ | ⟨error, stuck⟩ := spells_or_stuck first more
          · rw [same] at size ⊢
            have positive := spells.length_pos
            rw [List.length_append] at size
            obtain ⟨settings, spelled⟩ | ⟨front, back, settings, error, rfl, spelled, stuck⟩ :=
              inductionHypothesis rest.length (by omega) rest rfl
            · exact .inl ⟨_, .cons spells spelled⟩
            · exact .inr ⟨taken ++ front, back, _, error, (List.append_assoc _ _ _).symm,
                .cons spells spelled, stuck⟩
          · exact .inr ⟨[], _, [], error, rfl, .nil, stuck⟩

/-- The options that some assignments give. -/
def given (settings : List Setting) : Options := settings.foldl Options.set {}

theorem given_snoc (settings : List Setting) (setting : Setting) :
    given (settings ++ [setting]) = (given settings).set setting :=
  List.foldl_append

theorem Options.holds_set_of_same {options : Options} {setting other : Setting}
    (same : setting.Same other) : (options.set other).Holds setting ↔ setting = other := by
  cases setting <;> cases other <;>
    first
      | exact absurd same (Nat.ne_of_beq_eq_false rfl)
      | exact ⟨fun holds => by cases holds; rfl, fun equal => by cases equal; rfl⟩

theorem Options.holds_set_of_not_same {options : Options} {setting other : Setting}
    (different : ¬ setting.Same other) :
    (options.set other).Holds setting ↔ options.Holds setting := by
  cases setting <;> cases other <;> first | exact absurd rfl different | exact Iff.rfl

/-- The last assignment about an option stands, and its default where there is none. -/
theorem given_holds_iff (settings : List Setting) (setting : Setting) :
    (given settings).Holds setting ↔
      (settings.filter (setting.Same ·)).getLast?.elim (({} : Options).Holds setting)
        (setting = ·) := by
  induction settings using List.reverseRecOn with
  | nil => exact Iff.rfl
  | append_singleton settings last inductionHypothesis =>
      rw [given_snoc, List.filter_append]
      by_cases same : setting.Same last
      · rw [Options.holds_set_of_same same]
        simp [same]
      · rw [Options.holds_set_of_not_same same, inductionHypothesis]
        simp [same]

theorem parseOptions_eq_ok_iff {words : List Bytes} {options : Options} :
    parseOptions words = .ok options ↔
      ∃ settings, Spelled words settings ∧ options = given settings := by
  constructor
  · intro parsed
    obtain ⟨settings, spelled⟩ | ⟨front, back, settings, error, rfl, spelled, stuck⟩ :=
      spelled_or_stuck words
    · rw [parseOptions_of_spelled spelled] at parsed
      cases parsed
      exact ⟨settings, spelled, rfl⟩
    · rw [parseOptions_of_stuck spelled stuck] at parsed
      cases parsed
  · rintro ⟨settings, spelled, rfl⟩
    exact parseOptions_of_spelled spelled

theorem parseOptions_eq_error_iff {words : List Bytes} {error : ArgError} :
    parseOptions words = .error error ↔
      ∃ front back settings, words = front ++ back ∧ Spelled front settings ∧
        Stuck back error := by
  constructor
  · intro parsed
    obtain ⟨settings, spelled⟩ | ⟨front, back, settings, other, rfl, spelled, stuck⟩ :=
      spelled_or_stuck words
    · rw [parseOptions_of_spelled spelled] at parsed
      cases parsed
    · rw [parseOptions_of_stuck spelled stuck] at parsed
      cases parsed
      exact ⟨front, back, settings, rfl, spelled, stuck⟩
  · rintro ⟨front, back, settings, rfl, spelled, stuck⟩
    exact parseOptions_of_stuck spelled stuck

/-- A command line is accepted exactly when it is made of the words of assignments, and these
are then made in order, so that the last one about an option stands; it is refused with an error
exactly when such words are followed by something stuck, and the error is about that. -/
theorem parseOptions_exact (words : List Bytes) :
    (∀ options, parseOptions words = .ok options ↔
      ∃ settings, Spelled words settings ∧ options = given settings ∧
        ∀ setting, options.Holds setting ↔
          (settings.filter (setting.Same ·)).getLast?.elim (({} : Options).Holds setting)
            (setting = ·)) ∧
    ∀ error, parseOptions words = .error error ↔
      ∃ front back settings, words = front ++ back ∧ Spelled front settings ∧
        Stuck back error := by
  refine ⟨fun options => parseOptions_eq_ok_iff.trans ?_, fun _ => parseOptions_eq_error_iff⟩
  constructor
  · rintro ⟨settings, spelled, rfl⟩
    exact ⟨settings, spelled, rfl, given_holds_iff settings⟩
  · rintro ⟨settings, spelled, same, _⟩
    exact ⟨settings, spelled, same⟩

end Grammar

section Launching

/-- What `main` does about a command line. -/
inductive Launch where
  | help
  | version
  | listDevices
  | serve (config : LoadConfig) (socket : Option Bytes)

/-- The configuration with the model to load. -/
def EngineConfig.load (config : EngineConfig) (model : Bytes) : LoadConfig where
  modelPath := model
  nCtx := config.nCtx
  nGpuLayers := config.nGpuLayers
  nThreads := config.nThreads
  devices := config.devices
  tensorSplit := config.tensorSplit.map some

variable (parseFloat : Bytes → Option Rat)

/-- The first part of `main`: it prints something, exits with 2 or goes on to serve. -/
def launch (arguments : List Bytes) : Except ArgError Launch := do
  let options ← parseOptions arguments
  if options.help then
    return .help
  else if options.version then
    return .version
  else
    let config ← (toConfig parseFloat options.flags).mapError .config
    if options.listDevices then
      return .listDevices
    else if options.model.isEmpty then
      throw .modelRequired
    else
      return .serve (config.load options.model) options.socket

/-- The exit status of a daemon that does not go on to serve. -/
def exitStatus : Except ArgError Launch → Option Nat
  | .error _ => some 2
  | .ok (.serve _ _) => none
  | .ok _ => some 0

theorem mapError_eq_ok_iff {Error Other Value : Type} {wrap : Error → Other}
    {result : Except Error Value} {value : Value} :
    result.mapError wrap = .ok value ↔ result = .ok value := by
  cases result with
  | ok found => simp [Except.mapError]
  | error error => simp [Except.mapError]

theorem foldl_set_iff {component : Options → Bool} {switch : Setting}
    (sets : ∀ options setting,
      component (options.set setting) = true ↔ component options = true ∨ setting = switch)
    (settings : List Setting) (options : Options) :
    component (settings.foldl Options.set options) = true ↔
      component options = true ∨ switch ∈ settings := by
  induction settings generalizing options with
  | nil => simp
  | cons setting settings inductionHypothesis =>
      rw [List.foldl_cons, inductionHypothesis, sets, List.mem_cons, or_assoc,
        @eq_comm Setting switch]

theorem help_iff (settings : List Setting) :
    (given settings).help = true ↔ .help ∈ settings := by
  have sets (options : Options) (setting : Setting) :
      (options.set setting).help = true ↔ options.help = true ∨ setting = .help := by
    cases setting <;> simp [Options.set]
  simpa [given] using foldl_set_iff sets settings {}

theorem version_iff (settings : List Setting) :
    (given settings).version = true ↔ .version ∈ settings := by
  have sets (options : Options) (setting : Setting) :
      (options.set setting).version = true ↔ options.version = true ∨ setting = .version := by
    cases setting <;> simp [Options.set]
  simpa [given] using foldl_set_iff sets settings {}

theorem listDevices_iff (settings : List Setting) :
    (given settings).listDevices = true ↔ .listDevices ∈ settings := by
  have sets (options : Options) (setting : Setting) :
      (options.set setting).listDevices = true ↔
        options.listDevices = true ∨ setting = .listDevices := by
    cases setting <;> simp [Options.set]
  simpa [given] using foldl_set_iff sets settings {}

variable {parseFloat}

/-- What is done about the options. -/
theorem launch_of_given {arguments : List Bytes} {settings : List Setting}
    (spelled : Spelled arguments settings) :
    launch parseFloat arguments =
      if .help ∈ settings then .ok .help
      else if .version ∈ settings then .ok .version
      else (toConfig parseFloat (given settings).flags).mapError .config >>= fun config =>
        if .listDevices ∈ settings then .ok .listDevices
        else if (given settings).model = [] then .error .modelRequired
        else .ok (.serve (config.load (given settings).model) (given settings).socket) := by
  have parsed : parseOptions arguments = .ok (given settings) := parseOptions_of_spelled spelled
  rw [launch, parsed]
  simp only [← help_iff, ← version_iff, ← listDevices_iff, ← List.isEmpty_iff]
  rfl

theorem launch_of_stuck {front back : List Bytes} {settings : List Setting} {error : ArgError}
    (spelled : Spelled front settings) (stuck : Stuck back error) :
    launch parseFloat (front ++ back) = .error error := by
  rw [launch, parseOptions_of_stuck spelled stuck]
  rfl

/-- What a command line says that makes the daemon serve. -/
theorem serve_of_launch {arguments : List Bytes} {config : LoadConfig} {socket : Option Bytes}
    (launched : launch parseFloat arguments = .ok (.serve config socket)) :
    ∃ settings read, Spelled arguments settings ∧ .help ∉ settings ∧ .version ∉ settings ∧
      .listDevices ∉ settings ∧ toConfig parseFloat (given settings).flags = .ok read ∧
      (given settings).model ≠ [] ∧ config = read.load (given settings).model ∧
      socket = (given settings).socket := by
  obtain ⟨settings, spelled⟩ | ⟨front, back, settings, error, rfl, spelled, stuck⟩ :=
    spelled_or_stuck arguments
  · rw [launch_of_given spelled] at launched
    split at launched
    · cases launched
    rename_i noHelp
    split at launched
    · cases launched
    rename_i noVersion
    obtain ⟨read, described, launched⟩ := except_bind_eq_ok_iff.mp launched
    rw [mapError_eq_ok_iff] at described
    split at launched
    · cases launched
    rename_i noDevices
    split at launched
    · cases launched
    rename_i named
    cases launched
    exact ⟨settings, read, spelled, noHelp, noVersion, noDevices, described, named, rfl, rfl⟩
  · rw [launch_of_stuck spelled stuck] at launched
    cases launched

/-- The daemon goes on to serve exactly when its command line makes assignments that neither ask
for the help, the version nor the devices, describe a configuration and name a model. It exits
with 2 exactly when its command line is stuck, or asks for neither the help nor the version and
describes no configuration, or one without a model and without asking for the devices. -/
theorem launch_exact (parseFloat : Bytes → Option Rat) (arguments : List Bytes) :
    (∀ config socket, launch parseFloat arguments = .ok (.serve config socket) ↔
      ∃ settings read, Spelled arguments settings ∧ .help ∉ settings ∧ .version ∉ settings ∧
        .listDevices ∉ settings ∧ toConfig parseFloat (given settings).flags = .ok read ∧
        (given settings).model ≠ [] ∧ config = read.load (given settings).model ∧
        socket = (given settings).socket) ∧
    (exitStatus (launch parseFloat arguments) = some 2 ↔
      (∃ front back settings error, arguments = front ++ back ∧ Spelled front settings ∧
        Stuck back error) ∨
      ∃ settings, Spelled arguments settings ∧ .help ∉ settings ∧ .version ∉ settings ∧
        ((∃ error, toConfig parseFloat (given settings).flags = .error error) ∨
          .listDevices ∉ settings ∧ (given settings).model = [])) := by
  refine ⟨fun config socket => ⟨serve_of_launch, ?_⟩, fun exits => ?_, ?_⟩
  · rintro ⟨settings, read, spelled, noHelp, noVersion, noDevices, described, named, rfl, rfl⟩
    rw [launch_of_given spelled, if_neg noHelp, if_neg noVersion, except_bind_eq_ok_iff]
    exact ⟨read, mapError_eq_ok_iff.mpr described, by rw [if_neg noDevices, if_neg named]⟩
  · obtain ⟨settings, spelled⟩ | stuck := spelled_or_stuck arguments
    · refine .inr ⟨settings, spelled, ?_⟩
      rw [launch_of_given spelled] at exits
      split at exits
      · cases exits
      rename_i noHelp
      split at exits
      · cases exits
      rename_i noVersion
      refine ⟨noHelp, noVersion, ?_⟩
      cases described : toConfig parseFloat (given settings).flags with
      | error error => exact .inl ⟨error, rfl⟩
      | ok read =>
          refine .inr ?_
          rw [described] at exits
          change exitStatus (if _ then _ else _) = _ at exits
          split at exits
          · cases exits
          rename_i noDevices
          refine ⟨noDevices, ?_⟩
          by_contra named
          rw [if_neg named] at exits
          cases exits
    · exact .inl stuck
  · rintro (⟨front, back, settings, error, rfl, spelled, stuck⟩ |
      ⟨settings, spelled, noHelp, noVersion, undescribed⟩)
    · rw [launch_of_stuck spelled stuck, exitStatus]
    · rw [launch_of_given spelled, if_neg noHelp, if_neg noVersion]
      cases described : toConfig parseFloat (given settings).flags with
      | error error => rfl
      | ok read =>
          obtain ⟨error, failed⟩ | ⟨noDevices, unnamed⟩ := undescribed
          · rw [described] at failed
            cases failed
          · change exitStatus (if _ then _ else _) = _
            rw [if_neg noDevices, if_pos unnamed]
            rfl

/-- Every share that a flag gives is one. -/
theorem nonneg_of_shares {text : Option Bytes} {values : List Rat}
    (read : shares parseFloat text = .ok values) : ∀ value ∈ values, 0 ≤ value := by
  have all {parts : List Bytes} {values : List Rat}
      (read : parts.mapM (share parseFloat) = .ok values) : ∀ value ∈ values, 0 ≤ value := by
    induction parts generalizing values with
    | nil =>
        cases read
        simp
    | cons part parts inductionHypothesis =>
        obtain ⟨value, more, here, later, rfl⟩ := mapM_cons_eq_ok_iff.mp read
        refine List.forall_mem_cons.mpr ⟨?_, inductionHypothesis later⟩
        rw [share] at here
        split at here
        · cases here
        split at here
        · rename_i nonnegative
          cases here
          exact nonnegative
        · cases here
  cases text with
  | none =>
      cases read
      simp
  | some text =>
      rw [shares] at read
      split at read
      · cases read
      · exact all read

theorem nonneg_of_toConfig {flags : EngineFlags} {config : EngineConfig}
    (described : toConfig parseFloat flags = .ok config) :
    ∀ value ∈ config.tensorSplit, 0 ≤ value := by
  rw [toConfig] at described
  split at described
  · cases described
  split at described
  · cases described
  obtain ⟨names, _, described⟩ := except_bind_eq_ok_iff.mp described
  obtain ⟨values, read, described⟩ := except_bind_eq_ok_iff.mp described
  cases described
  exact nonneg_of_shares read

/-- An engine that the daemon constructs has been given the path of a model, and nothing but
shares as its tensor split: what is left to complain about takes the devices or llama.cpp. -/
theorem launched_constructs {arguments : List Bytes} {config : LoadConfig} {socket : Option Bytes}
    (launched : launch parseFloat arguments = .ok (.serve config socket)) {llama : Llama}
    {registry : Registry} (loader : Loader llama registry) (state : Construction llama) :
    (Engine.construct loader config state).1 ≠ .error (.engine .noModelPath) ∧
      ∀ position, (Engine.construct loader config state).1 ≠
        .error (.engine (.splitEntry position)) := by
  obtain ⟨settings, read, _, _, _, _, described, named, rfl, _⟩ := serve_of_launch launched
  have nonnegative := nonneg_of_toConfig described
  have split {offload : Nat} {refused : LoadError}
      (failed : paddedTensorSplit (read.load (given settings).model) offload registry.maxDevices =
        .error refused) : refused ≠ .noModelPath ∧ ∀ position, refused ≠ .splitEntry position := by
    by_cases none : read.tensorSplit = []
    · simp [paddedTensorSplit, EngineConfig.load, none] at failed
    · rw [paddedTensorSplit_of_shares none rfl nonnegative] at failed
      split_ifs at failed <;> cases failed <;> simp
  have fails {failure : LoadFailure}
      (failed : Engine.Fails registry (read.load (given settings).model) failure) :
      failure ≠ .engine .noModelPath ∧ ∀ position, failure ≠ .engine (.splitEntry position) := by
    cases failed with
    | noModelPath none => exact absurd none named
    | devices failed =>
        obtain ⟨wanted, rfl⟩ | ⟨wanted, rfl⟩ := selectOffloadDevices_error failed
        · simp
        · simp
    | tensorSplit failed => simpa using split failed
    | late failed =>
        refine ⟨?_, fun position => ?_⟩
        · rintro rfl
          exact failed
        · rintro rfl
          exact failed
  have ended {failure : LoadFailure}
      (failed : (Engine.construct loader (read.load (given settings).model) state).1 =
        .error failure) :
      Engine.Fails registry (read.load (given settings).model) failure :=
    Engine.construct_throws state failure _ (Prod.ext failed rfl)
  exact ⟨fun failed => (fails (ended failed)).1 rfl,
    fun position failed => (fails (ended failed)).2 position rfl⟩

/-- A model is named, and nothing else. -/
theorem launch_model : launch (fun _ => none) [literal "--model", [0x6D]] =
    .ok (.serve (({} : EngineConfig).load [0x6D]) none) := by
  have spelled : Spelled [literal "--model", [0x6D]] [.model [0x6D]] := .cons (.model _) .nil
  rw [launch_of_given spelled]
  rfl

theorem launched_constructs_model :
    (Engine.construct Loader.pooling (({} : EngineConfig).load [0x6D])
      { host := (), logits := fun _ => (0 : Int) }).1 ≠ .error (.engine .noModelPath) :=
  (launched_constructs launch_model Loader.pooling _).1

end Launching

end Llamad.Cli
