import Llamad.Logical.Utf8

/-!
# JSON texts

The grammar of RFC 8259 over bytes, as a reader of UTF-8 sees it. A reader may bound
the numbers it takes, so the grammar has a parameter for the numbers in range. The
module's one result is about a text that was cut: a proper nonempty prefix of an
object is no JSON text (`Object.prefix_not_text`), because a scanner that counts open
brackets outside strings still has one open.
-/

namespace Llamad.Grammar.Json

open Logical

/-- A decimal digit. -/
def isDigit (byte : UInt8) : Bool := 0x30 ≤ byte && byte ≤ 0x39

/-- The value of a hexadecimal digit in either case. -/
def hexValue? (byte : UInt8) : Option Nat :=
  if isDigit byte then some (byte.toNat - 0x30)
  else if 0x41 ≤ byte && byte ≤ 0x46 then some (byte.toNat - 0x37)
  else if 0x61 ≤ byte && byte ≤ 0x66 then some (byte.toNat - 0x57)
  else none

/-- `digits` are four hexadecimal digits with the value `code`. -/
def HexCode (digits : Bytes) (code : Nat) : Prop :=
  ∃ a b c d, digits.map hexValue? = [some a, some b, some c, some d] ∧
    code = ((a * 16 + b) * 16 + c) * 16 + d

/-- Space, tab, line feed and carriage return. -/
def Whitespace (text : Bytes) : Prop :=
  ∀ byte ∈ text, byte ∈ [(0x20 : UInt8), 0x09, 0x0A, 0x0D]

/-- At least one digit. -/
def Digits (text : Bytes) : Prop := text ≠ [] ∧ ∀ byte ∈ text, isDigit byte

/-- The integer part of a number has no leading zero. -/
def IntegerPart (text : Bytes) : Prop :=
  text = [0x30] ∨ Digits text ∧ text.head? ≠ some 0x30

/-- A number: integer part, fraction and exponent. -/
inductive Number : Bytes → Prop where
  | mk {sign integer fraction exponent : Bytes} (signed : sign = [] ∨ sign = [0x2D])
      (whole : IntegerPart integer)
      (fractional : fraction = [] ∨ ∃ digits, Digits digits ∧ fraction = 0x2E :: digits)
      (scaled : exponent = [] ∨ ∃ e sign digits, (e = 0x65 ∨ e = 0x45) ∧
        (sign = [] ∨ sign = [0x2B] ∨ sign = [0x2D]) ∧ Digits digits ∧
        exponent = e :: sign ++ digits) :
      Number (sign ++ integer ++ fraction ++ exponent)

/-- What stands between the quotes of a string. -/
inductive Characters : Bytes → Prop where
  | nil : Characters []
  | plain (char : Char) {rest : Bytes} (printable : 0x20 ≤ char.val)
      (unquoted : String.utf8EncodeChar char ≠ [0x22])
      (unescaped : String.utf8EncodeChar char ≠ [0x5C]) (more : Characters rest) :
      Characters (String.utf8EncodeChar char ++ rest)
  | escape {letter : UInt8} {rest : Bytes}
      (known : letter ∈ [(0x22 : UInt8), 0x5C, 0x2F, 0x62, 0x66, 0x6E, 0x72, 0x74])
      (more : Characters rest) : Characters (0x5C :: letter :: rest)
  | unicode {digits rest : Bytes} {code : Nat} (hex : HexCode digits code)
      (scalar : code < 0xD800 ∨ 0xDFFF < code) (more : Characters rest) :
      Characters (0x5C :: 0x75 :: digits ++ rest)
  | surrogates {high low rest : Bytes} {first second : Nat} (hexHigh : HexCode high first)
      (isHigh : 0xD800 ≤ first ∧ first ≤ 0xDBFF) (hexLow : HexCode low second)
      (isLow : 0xDC00 ≤ second ∧ second ≤ 0xDFFF) (more : Characters rest) :
      Characters (0x5C :: 0x75 :: high ++ 0x5C :: 0x75 :: low ++ rest)

/-- The nonterminals above the tokens. -/
inductive Symbol where
  | value | members | memberList | elements | elementList

variable (inRange : Bytes → Prop)

/-- The texts of each nonterminal. White space belongs to what it surrounds inside
brackets. -/
inductive Derives : Symbol → Bytes → Prop where
  | null : Derives .value [0x6E, 0x75, 0x6C, 0x6C]
  | true : Derives .value [0x74, 0x72, 0x75, 0x65]
  | false : Derives .value [0x66, 0x61, 0x6C, 0x73, 0x65]
  | number {text : Bytes} (number : Number text) (readable : inRange text) :
      Derives .value text
  | string {text : Bytes} (characters : Characters text) : Derives .value (0x22 :: text ++ [0x22])
  | object {inner : Bytes} (members : Derives .members inner) :
      Derives .value (0x7B :: inner ++ [0x7D])
  | array {inner : Bytes} (elements : Derives .elements inner) :
      Derives .value (0x5B :: inner ++ [0x5D])
  | noMembers {space : Bytes} (blank : Whitespace space) : Derives .members space
  | someMembers {text : Bytes} (list : Derives .memberList text) : Derives .members text
  | lastMember {before name between gap value after : Bytes} (blankBefore : Whitespace before)
      (characters : Characters name) (blankBetween : Whitespace between)
      (blankGap : Whitespace gap) (content : Derives .value value)
      (blankAfter : Whitespace after) :
      Derives .memberList
        (before ++ (0x22 :: name ++ [0x22]) ++ between ++ 0x3A :: gap ++ value ++ after)
  | moreMembers {first rest : Bytes} (head : Derives .memberList first)
      (tail : Derives .memberList rest) : Derives .memberList (first ++ 0x2C :: rest)
  | noElements {space : Bytes} (blank : Whitespace space) : Derives .elements space
  | someElements {text : Bytes} (list : Derives .elementList text) : Derives .elements text
  | lastElement {before value after : Bytes} (blankBefore : Whitespace before)
      (content : Derives .value value) (blankAfter : Whitespace after) :
      Derives .elementList (before ++ value ++ after)
  | moreElements {first rest : Bytes} (head : Derives .elementList first)
      (tail : Derives .elementList rest) : Derives .elementList (first ++ 0x2C :: rest)

/-- A JSON text: one value in white space. -/
def Text (text : Bytes) : Prop :=
  ∃ before value after, text = before ++ value ++ after ∧ Whitespace before ∧
    Derives inRange .value value ∧ Whitespace after

/-- The text of one object, with nothing around it. -/
def Object (text : Bytes) : Prop :=
  ∃ inner, text = 0x7B :: inner ++ [0x7D] ∧ Derives inRange .members inner

theorem Object.text {text : Bytes} (object : Object inRange text) : Text inRange text := by
  obtain ⟨inner, rfl, members⟩ := object
  exact ⟨[], _, [], by simp, by simp [Whitespace], .object members, by simp [Whitespace]⟩

/-- An object without members. -/
theorem Object.empty : Object inRange [0x7B, 0x7D] :=
  ⟨[], rfl, .noMembers (by simp [Whitespace])⟩

/-- A JSON text that is an object: one object in white space. -/
def ObjectText (text : Bytes) : Prop :=
  ∃ before object after, text = before ++ object ++ after ∧ Whitespace before ∧
    Object inRange object ∧ Whitespace after

variable {inRange} in
theorem Object.objectText {text : Bytes} (object : Object inRange text) :
    ObjectText inRange text :=
  ⟨[], text, [], by simp, by simp [Whitespace], object, by simp [Whitespace]⟩

variable {inRange} in
/-- An object has a brace. -/
theorem ObjectText.brace_mem {text : Bytes} (object : ObjectText inRange text) :
    0x7B ∈ text := by
  obtain ⟨before, _, after, rfl, _, ⟨inner, rfl, _⟩, _⟩ := object
  simp

section Scanner

/-- Where a bracket scanner stands. -/
inductive Mode where
  | outside | quoted | escaped
deriving DecidableEq

/-- A bracket scanner: its mode and the number of brackets open. -/
structure Scan where
  mode : Mode
  depth : Nat
deriving DecidableEq

/-- One byte of a bracket scan. -/
def Scan.step (scan : Scan) (byte : UInt8) : Scan :=
  match scan.mode with
  | .escaped => { scan with mode := .quoted }
  | .quoted =>
      if byte = 0x5C then { scan with mode := .escaped }
      else if byte = 0x22 then { scan with mode := .outside }
      else scan
  | .outside =>
      if byte = 0x22 then { scan with mode := .quoted }
      else if byte = 0x7B ∨ byte = 0x5B then { scan with depth := scan.depth + 1 }
      else if byte = 0x7D ∨ byte = 0x5D then { scan with depth := scan.depth - 1 }
      else scan

/-- A scan of `text` from `scan` ends in `after`, with at least `floor` brackets open all
along. -/
def Scan.Reaches (floor : Nat) (scan after : Scan) : Bytes → Prop
  | [] => floor ≤ scan.depth ∧ scan = after
  | byte :: text => floor ≤ scan.depth ∧ (scan.step byte).Reaches floor after text

namespace Scan.Reaches

variable {floor lower : Nat} {scan middle after : Scan} {first second text : Bytes}

theorem append (one : scan.Reaches floor middle first) (two : middle.Reaches floor after second) :
    scan.Reaches floor after (first ++ second) := by
  induction first generalizing scan with
  | nil =>
      obtain ⟨_, rfl⟩ := one
      exact two
  | cons byte first inductionHypothesis => exact ⟨one.1, inductionHypothesis one.2⟩

/-- A front part is scanned to some point, where the floor holds too. -/
theorem front (whole : scan.Reaches floor after (first ++ second)) :
    ∃ middle, scan.Reaches floor middle first ∧ floor ≤ middle.depth := by
  induction first generalizing scan with
  | nil =>
      have above : floor ≤ scan.depth := by
        cases second with
        | nil => exact whole.1
        | cons byte second => exact whole.1
      exact ⟨scan, ⟨above, rfl⟩, above⟩
  | cons byte first inductionHypothesis =>
      obtain ⟨middle, reached, above⟩ := inductionHypothesis whole.2
      exact ⟨middle, ⟨whole.1, reached⟩, above⟩

theorem deterministic {other : Scan} (one : scan.Reaches floor after text)
    (two : scan.Reaches lower other text) : after = other := by
  induction text generalizing scan with
  | nil => exact one.2.symm.trans two.2
  | cons byte text inductionHypothesis => exact inductionHypothesis one.2 two.2

theorem weaken (below : lower ≤ floor) (reached : scan.Reaches floor after text) :
    scan.Reaches lower after text := by
  induction text generalizing scan with
  | nil => exact ⟨below.trans reached.1, reached.2⟩
  | cons byte text inductionHypothesis =>
      exact ⟨below.trans reached.1, inductionHypothesis reached.2⟩

/-- Bytes that leave a scan where it is. -/
theorem still (above : floor ≤ scan.depth) (quiet : ∀ byte ∈ text, scan.step byte = scan) :
    scan.Reaches floor scan text := by
  induction text with
  | nil => exact ⟨above, rfl⟩
  | cons byte text inductionHypothesis =>
      refine ⟨above, ?_⟩
      rw [quiet byte (by simp)]
      exact inductionHypothesis fun byte member => quiet byte (by simp [member])

end Scan.Reaches

/-- Brackets match, strings are closed, and no byte is zero. -/
structure Nested (text : Bytes) : Prop where
  nonzero : (0 : UInt8) ∉ text
  returns : ∀ depth,
    Scan.Reaches depth ⟨.outside, depth⟩ ⟨.outside, depth⟩ text

namespace Nested

variable {first second text : Bytes}

theorem append (one : Nested first) (two : Nested second) : Nested (first ++ second) := by
  refine ⟨?_, fun depth => (one.returns depth).append (two.returns depth)⟩
  rw [List.mem_append]
  exact fun member => member.elim one.nonzero two.nonzero

/-- Bytes that neither open nor close anything. -/
theorem flat (quiet : ∀ byte ∈ text, byte ∉ [(0x00 : UInt8), 0x22, 0x7B, 0x5B, 0x7D, 0x5D]) :
    Nested text := by
  refine ⟨fun member => quiet 0 member (by simp), fun depth => .still le_rfl ?_⟩
  intro byte member
  have kept := quiet byte member
  simp only [List.mem_cons, List.not_mem_nil, or_false, not_or] at kept
  simp [Scan.step, kept]

/-- Brackets around a nested text. -/
theorem bracket {opening closing : UInt8}
    (pair : opening = 0x7B ∧ closing = 0x7D ∨ opening = 0x5B ∧ closing = 0x5D)
    (inner : Nested text) : Nested (opening :: text ++ [closing]) := by
  refine ⟨?_, fun depth => ?_⟩
  · have outer : (0 : UInt8) ≠ opening ∧ (0 : UInt8) ≠ closing := by
      obtain ⟨rfl, rfl⟩ | ⟨rfl, rfl⟩ := pair <;> decide
    simp [outer, inner.nonzero]
  · have opens : Scan.step ⟨.outside, depth⟩ opening = ⟨.outside, depth + 1⟩ := by
      obtain ⟨rfl, rfl⟩ | ⟨rfl, rfl⟩ := pair <;> simp [Scan.step]
    have closes : Scan.step ⟨.outside, depth + 1⟩ closing = ⟨.outside, depth⟩ := by
      obtain ⟨rfl, rfl⟩ | ⟨rfl, rfl⟩ := pair <;> simp [Scan.step]
    have inside := (inner.returns (depth + 1)).weaken (Nat.le_succ depth)
    have last : Scan.Reaches depth ⟨.outside, depth + 1⟩ ⟨.outside, depth⟩ [closing] := by
      refine ⟨Nat.le_succ depth, ?_⟩
      rw [closes]
      exact ⟨le_rfl, rfl⟩
    refine ⟨le_rfl, ?_⟩
    rw [opens]
    exact inside.append last

end Nested

private theorem hexValue?_quiet : ∀ byte, hexValue? byte ≠ none →
    byte ≠ 0x00 ∧ byte ≠ 0x22 ∧ byte ≠ 0x5C :=
  Utf8.forall_byte (by decide +kernel)

private theorem HexCode.quiet {digits : Bytes} {code : Nat} (hex : HexCode digits code) :
    ∀ byte ∈ digits, byte ≠ 0x00 ∧ byte ≠ 0x22 ∧ byte ≠ 0x5C := by
  obtain ⟨a, b, c, d, values, _⟩ := hex
  intro byte member
  apply hexValue?_quiet
  have value : hexValue? byte ∈ digits.map hexValue? := List.mem_map_of_mem member
  rw [values] at value
  intro unknown
  simp [unknown] at value

private theorem continuation_quiet : ∀ byte, Utf8.isContinuation byte = true →
    byte ≠ 0x00 ∧ byte ≠ 0x22 ∧ byte ≠ 0x5C :=
  Utf8.forall_byte (by decide +kernel)

/-- The encoding of a printable character is not a zero byte. -/
private theorem printable_nonzero {char : Char} (printable : 0x20 ≤ char.val) :
    String.utf8EncodeChar char ≠ [0x00] := by
  intro zero
  have single : char.utf8Size = 1 := by
    rw [← String.length_utf8EncodeChar, zero]
    rfl
  rw [String.utf8EncodeChar_eq_singleton single, List.cons.injEq] at zero
  have small : char.val ≤ 127 := Char.utf8Size_eq_one_iff.mp single
  have value : char.val.toUInt8.toNat = char.val.toNat % 256 := UInt32.toNat_toUInt8 _
  rw [zero.1] at value
  rw [UInt32.le_iff_toNat_le] at small printable
  have bound : (127 : UInt32).toNat = 127 := rfl
  have bound' : (0x20 : UInt32).toNat = 32 := rfl
  have bound'' : (0x00 : UInt8).toNat = 0 := rfl
  omega

/-- A printable character other than a quote or a backslash has neither among its bytes. -/
private theorem plain_quiet {char : Char} (printable : 0x20 ≤ char.val)
    (unquoted : String.utf8EncodeChar char ≠ [0x22])
    (unescaped : String.utf8EncodeChar char ≠ [0x5C]) :
    ∀ byte ∈ String.utf8EncodeChar char, byte ≠ 0x00 ∧ byte ≠ 0x22 ∧ byte ≠ 0x5C := by
  obtain ⟨lead, continuations, shape, announces, continued⟩ := Utf8.encodeChar_shape char
  have alone : Utf8.announced lead = 1 → String.utf8EncodeChar char = [lead] := by
    intro one
    have none : continuations = [] := List.eq_nil_of_length_eq_zero (by omega)
    rw [shape, none]
  have nonzero := printable_nonzero printable
  intro byte member
  rw [shape, List.mem_cons] at member
  obtain rfl | member := member
  · refine ⟨?_, ?_, ?_⟩
    · rintro rfl
      exact nonzero (alone (by decide))
    · rintro rfl
      exact unquoted (alone (by decide))
    · rintro rfl
      exact unescaped (alone (by decide))
  · exact continuation_quiet byte (continued byte member)

/-- Bytes inside a string that neither end it nor escape anything. -/
private theorem Scan.Reaches.quoted {text : Bytes} {depth : Nat}
    (quiet : ∀ byte ∈ text, byte ≠ 0x00 ∧ byte ≠ 0x22 ∧ byte ≠ 0x5C) :
    Scan.Reaches depth ⟨.quoted, depth⟩ ⟨.quoted, depth⟩ text := by
  refine .still le_rfl fun byte member => ?_
  obtain ⟨_, unquoted, unescaped⟩ := quiet byte member
  simp [Scan.step, unquoted, unescaped]

private theorem zero_not_mem {text : Bytes}
    (quiet : ∀ byte ∈ text, byte ≠ 0x00 ∧ byte ≠ 0x22 ∧ byte ≠ 0x5C) : (0 : UInt8) ∉ text :=
  fun member => (quiet 0 member).1 rfl

/-- A scan does not leave a string before its end. -/
private theorem Characters.reaches {text : Bytes} (characters : Characters text) :
    (0 : UInt8) ∉ text ∧
      ∀ depth, Scan.Reaches depth ⟨.quoted, depth⟩ ⟨.quoted, depth⟩ text := by
  have backslash : ∀ (letter : UInt8) (rest : Bytes) (depth : Nat),
      Scan.Reaches depth ⟨.quoted, depth⟩ ⟨.quoted, depth⟩ rest →
      Scan.Reaches depth ⟨.quoted, depth⟩ ⟨.quoted, depth⟩ (0x5C :: letter :: rest) :=
    fun letter rest depth reached => ⟨le_rfl, le_rfl, reached⟩
  induction characters with
  | nil => exact ⟨by simp, fun depth => ⟨le_rfl, rfl⟩⟩
  | plain char printable unquoted unescaped _ inductionHypothesis =>
      have quiet := plain_quiet printable unquoted unescaped
      refine ⟨?_, fun depth => (Scan.Reaches.quoted quiet).append (inductionHypothesis.2 depth)⟩
      rw [List.mem_append]
      exact fun member => member.elim (zero_not_mem quiet) inductionHypothesis.1
  | escape known _ inductionHypothesis =>
      refine ⟨?_, fun depth => backslash _ _ depth (inductionHypothesis.2 depth)⟩
      have nonzero : ∀ letter ∈ [(0x22 : UInt8), 0x5C, 0x2F, 0x62, 0x66, 0x6E, 0x72, 0x74],
          letter ≠ 0 := by decide +kernel
      simp [inductionHypothesis.1, (nonzero _ known).symm]
  | unicode hex _ _ inductionHypothesis =>
      refine ⟨?_, fun depth => ?_⟩
      · simp [inductionHypothesis.1, zero_not_mem hex.quiet]
      · exact backslash _ _ depth ((Scan.Reaches.quoted hex.quiet).append
          (inductionHypothesis.2 depth))
  | @surrogates high low rest _ _ hexHigh _ hexLow _ _ inductionHypothesis =>
      refine ⟨?_, fun depth => ?_⟩
      · simp [inductionHypothesis.1, zero_not_mem hexHigh.quiet, zero_not_mem hexLow.quiet]
      · have second := backslash 0x75 _ depth ((Scan.Reaches.quoted hexLow.quiet).append
          (inductionHypothesis.2 depth))
        have first := backslash 0x75 _ depth ((Scan.Reaches.quoted hexHigh.quiet).append second)
        simpa using first

/-- A string in its quotes. -/
private theorem Characters.nested {text : Bytes} (characters : Characters text) :
    Nested (0x22 :: text ++ [0x22]) := by
  obtain ⟨nonzero, reached⟩ := characters.reaches
  refine ⟨by simp [nonzero], fun depth => ⟨le_rfl, ?_⟩⟩
  have closing : Scan.Reaches depth ⟨.quoted, depth⟩ ⟨.outside, depth⟩ [0x22] :=
    ⟨le_rfl, le_rfl, rfl⟩
  exact (reached depth).append closing

end Scanner

section Nesting

private theorem Whitespace.nested {text : Bytes} (blank : Whitespace text) : Nested text := by
  have apart : ∀ byte ∈ [(0x20 : UInt8), 0x09, 0x0A, 0x0D],
      byte ∉ [(0x00 : UInt8), 0x22, 0x7B, 0x5B, 0x7D, 0x5D] := by decide +kernel
  exact .flat fun byte member => apart byte (blank byte member)

private theorem digit_flat : ∀ byte, isDigit byte = true →
    byte ∉ [(0x00 : UInt8), 0x22, 0x7B, 0x5B, 0x7D, 0x5D] :=
  Utf8.forall_byte (by decide +kernel)

private theorem Digits.nested {text : Bytes} (digits : Digits text) : Nested text :=
  .flat fun byte member => digit_flat byte (digits.2 byte member)

private theorem Nested.byte {byte : UInt8}
    (quiet : byte ∉ [(0x00 : UInt8), 0x22, 0x7B, 0x5B, 0x7D, 0x5D]) : Nested [byte] :=
  .flat fun other member => by rwa [List.mem_singleton.mp member]

private theorem Nested.nil : Nested [] := .flat (by simp)

private theorem Number.nested {text : Bytes} (number : Number text) : Nested text := by
  obtain ⟨signed, whole, fractional, scaled⟩ := number
  refine ((Nested.append ?_ ?_).append ?_).append ?_
  · obtain rfl | rfl := signed
    · exact .nil
    · exact .byte (by decide)
  · obtain rfl | ⟨digits, _⟩ := whole
    · exact .byte (by decide)
    · exact digits.nested
  · obtain rfl | ⟨digits, isDigits, rfl⟩ := fractional
    · exact .nil
    · have point : Nested [0x2E] := .byte (by decide)
      exact point.append isDigits.nested
  · obtain rfl | ⟨e, sign, digits, known, signed, isDigits, rfl⟩ := scaled
    · exact .nil
    · have letter : Nested [e] := by
        obtain rfl | rfl := known <;> exact .byte (by decide)
      have plus : Nested sign := by
        obtain rfl | rfl | rfl := signed
        · exact .nil
        · exact .byte (by decide)
        · exact .byte (by decide)
      exact (letter.append plus).append isDigits.nested

variable {inRange}

/-- In a text of any nonterminal the brackets match. -/
theorem Derives.nested {symbol : Symbol} {text : Bytes} (derivation : Derives inRange symbol text) :
    Nested text := by
  have joined : ∀ {first rest : Bytes} (byte : UInt8),
      byte ∉ [(0x00 : UInt8), 0x22, 0x7B, 0x5B, 0x7D, 0x5D] →
      Nested first → Nested rest → Nested (first ++ byte :: rest) := by
    intro first rest byte quiet one two
    exact one.append ((Nested.byte quiet).append two)
  induction derivation with
  | null => exact .flat (by decide +kernel)
  | true => exact .flat (by decide +kernel)
  | false => exact .flat (by decide +kernel)
  | number number _ => exact number.nested
  | string characters => exact characters.nested
  | object _ inductionHypothesis => exact .bracket (.inl ⟨rfl, rfl⟩) inductionHypothesis
  | array _ inductionHypothesis => exact .bracket (.inr ⟨rfl, rfl⟩) inductionHypothesis
  | noMembers blank => exact blank.nested
  | someMembers _ inductionHypothesis => exact inductionHypothesis
  | lastMember blankBefore characters blankBetween blankGap _ blankAfter inductionHypothesis =>
      have name := (blankBefore.nested.append characters.nested).append blankBetween.nested
      have content := (joined 0x3A (by decide) name blankGap.nested).append inductionHypothesis
      simpa using content.append blankAfter.nested
  | moreMembers _ _ first second => exact joined 0x2C (by decide) first second
  | noElements blank => exact blank.nested
  | someElements _ inductionHypothesis => exact inductionHypothesis
  | lastElement blankBefore _ blankAfter inductionHypothesis =>
      exact (blankBefore.nested.append inductionHypothesis).append blankAfter.nested
  | moreElements _ _ first second => exact joined 0x2C (by decide) first second

theorem Text.nested {text : Bytes} (isText : Text inRange text) : Nested text := by
  obtain ⟨before, value, after, rfl, blankBefore, content, blankAfter⟩ := isText
  exact (blankBefore.nested.append content.nested).append blankAfter.nested

/-- An object that was cut behind its first byte is no JSON text: the scan has its brace
still open. -/
theorem Object.prefix_not_text {text front : Bytes} (object : Object inRange text)
    (cut : front <+: text) (nonempty : front ≠ []) (proper : front ≠ text) :
    ¬ Text inRange front := by
  intro isText
  obtain ⟨inner, rfl, members⟩ := object
  obtain ⟨rest, same⟩ := cut
  obtain ⟨first, front, rfl⟩ := List.exists_cons_of_ne_nil nonempty
  obtain rfl | ⟨rest, last, rfl⟩ := rest.eq_nil_or_concat
  · exact proper (by simpa using same)
  rw [List.concat_eq_append, ← List.append_assoc] at same
  obtain ⟨same, _⟩ := List.append_inj' same rfl
  obtain ⟨rfl, rfl⟩ := List.cons.inj same
  obtain ⟨middle, reached, above⟩ := (members.nested.returns 1).front
  have closed : Scan.Reaches 0 ⟨.outside, 1⟩ ⟨.outside, 0⟩ front := (isText.nested.returns 0).2
  rw [reached.deterministic closed] at above
  exact Nat.not_succ_le_zero 0 above

end Nesting

end Llamad.Grammar.Json
