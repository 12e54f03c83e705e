import Llamad.Engine.Contract
import Llamad.Logical.Regex

/-!
# Patterns

The syntax of ECMAScript's regular expressions over bytes, as `std::regex` reads it. A
pattern is scanned byte by byte into symbols, and the symbols are read one after the other
into alternatives with the open groups on a stack. Both are folds, so a byte more at the
end of a pattern is one step more (`parse_concat_dollar`), and an anchor in front of a
pattern stays in front of its first alternative through all of them (`parse_caret`).
-/

namespace Llamad.Pattern

open Logical

/-- The bytes in one of some ranges, or all others. -/
structure ByteSet where
  ranges : List (UInt8 × UInt8)
  inverted : Bool := false
deriving DecidableEq

namespace ByteSet

/-- The byte is in the set. -/
def accepts (set : ByteSet) (byte : UInt8) : Bool :=
  (set.ranges.any fun range => range.1 ≤ byte && byte ≤ range.2) != set.inverted

/-- One byte. -/
def one (byte : UInt8) : ByteSet := { ranges := [(byte, byte)] }

/-- What a dot stands for: anything but a line terminator. -/
def dot : ByteSet := { ranges := [(0x0A, 0x0A), (0x0D, 0x0D)], inverted := true }

end ByteSet

/-- The ranges of `\d`, `\w` and `\s`, and of what they leave out. -/
def digits (inverted : Bool) : List (UInt8 × UInt8) :=
  if inverted then [(0x00, 0x2F), (0x3A, 0xFF)] else [(0x30, 0x39)]

@[inherit_doc digits] def words (inverted : Bool) : List (UInt8 × UInt8) :=
  if inverted then [(0x00, 0x2F), (0x3A, 0x40), (0x5B, 0x5E), (0x60, 0x60), (0x7B, 0xFF)]
  else [(0x30, 0x39), (0x41, 0x5A), (0x5F, 0x5F), (0x61, 0x7A)]

@[inherit_doc digits] def spaces (inverted : Bool) : List (UInt8 × UInt8) :=
  if inverted then [(0x00, 0x08), (0x0E, 0x1F), (0x21, 0xFF)]
  else [(0x09, 0x0D), (0x20, 0x20)]

/-- How a group begins. -/
inductive Opening where
  | capture
  | plain
  | look (inverted : Bool)
deriving DecidableEq

/-- The symbols a pattern is made of. -/
inductive Symbol where
  | set (bytes : ByteSet)
  | startOfText
  | endOfText
  | boundary (inverted : Bool)
  | reference (index : Nat)
  | opening (how : Opening)
  | closing
  | bar
  | question
  | quantifier (least : Nat) (most : Option Nat)
deriving DecidableEq

section Scanning

/-- What was read of a bracketed class. -/
structure ByteClass where
  inverted : Bool
  ranges : List (UInt8 × UInt8) := []
  /-- The byte that may turn out to begin a range. -/
  last : Option UInt8 := none
  /-- A dash stands behind that byte. -/
  dash : Bool := false
deriving DecidableEq

namespace ByteClass

/-- One byte more, which may end a range. -/
def byte (current : ByteClass) (byte : UInt8) : Option ByteClass :=
  match current.last, current.dash with
  | some low, true =>
      if low ≤ byte then
        some { current with
          ranges := current.ranges ++ [(low, byte)], last := none, dash := false }
      else none
  | _, _ =>
      some { current with
        ranges := current.ranges ++ [(byte, byte)], last := some byte, dash := false }

/-- A class escape more, which cannot end a range. -/
def escape (current : ByteClass) (ranges : List (UInt8 × UInt8)) : Option ByteClass :=
  if current.dash then none
  else some { current with ranges := current.ranges ++ ranges, last := none }

/-- A dash: between two bytes it makes a range, elsewhere it is a byte. -/
def hyphen (current : ByteClass) : Option ByteClass :=
  if current.last.isSome && !current.dash then some { current with dash := true }
  else current.byte 0x2D

/-- The finished class. -/
def finish (current : ByteClass) : ByteSet where
  ranges := current.ranges ++ if current.dash then [(0x2D, 0x2D)] else []
  inverted := current.inverted

end ByteClass

/-- What the scanner is in the middle of. -/
inductive Mode where
  | text
  /-- Behind a backslash, outside of a class or inside of one. -/
  | escape (within : Option ByteClass)
  | decimal (index : Nat)
  | control (within : Option ByteClass)
  | hex (within : Option ByteClass) (left value : Nat)
  | opened
  | openedQuestion
  | braces (least : Option Nat)
  | bracesMost (least : Nat) (most : Option Nat)
  | classOpened
  | inClass (current : ByteClass)
deriving DecidableEq

/-- The value of a decimal digit. -/
def digit? (byte : UInt8) : Option Nat :=
  if 0x30 ≤ byte && byte ≤ 0x39 then some (byte.toNat - 0x30) else none

/-- The value of a hexadecimal digit. -/
def hexDigit? (byte : UInt8) : Option Nat :=
  if 0x30 ≤ byte && byte ≤ 0x39 then some (byte.toNat - 0x30)
  else if 0x41 ≤ byte && byte ≤ 0x46 then some (byte.toNat - 0x37)
  else if 0x61 ≤ byte && byte ≤ 0x66 then some (byte.toNat - 0x57)
  else none

/-- An ASCII letter. -/
def isLetter (byte : UInt8) : Bool :=
  (0x41 ≤ byte && byte ≤ 0x5A) || (0x61 ≤ byte && byte ≤ 0x7A)

/-- A character `\b` and `\w` count as part of a word. -/
def isWord (byte : UInt8) : Bool := (ByteSet.mk (words false) false).accepts byte

/-- What a byte makes of a mode: the symbols it completes and how to go on. -/
abbrev Scanned := Option (List Symbol × Mode)

/-- A byte that stands for itself. -/
def takeByte (within : Option ByteClass) (byte : UInt8) : Scanned :=
  match within with
  | none => some ([.set (.one byte)], .text)
  | some current => (current.byte byte).map fun current => ([], .inClass current)

/-- A class escape. -/
def takeEscape (within : Option ByteClass) (ranges : List (UInt8 × UInt8)) : Scanned :=
  match within with
  | none => some ([.set { ranges := ranges }], .text)
  | some current => (current.escape ranges).map fun current => ([], .inClass current)

/-- A word boundary outside of a class; inside, `\b` is a backspace. -/
def takeBoundary (within : Option ByteClass) (inverted : Bool) : Scanned :=
  match within with
  | none => some ([.boundary inverted], .text)
  | some _ => if inverted then none else takeByte within 0x08

/-- A byte behind a backslash. -/
def scanEscape (within : Option ByteClass) (byte : UInt8) : Scanned :=
  match Char.ofUInt8 byte with
  | 'd' => takeEscape within (digits false)
  | 'D' => takeEscape within (digits true)
  | 'w' => takeEscape within (words false)
  | 'W' => takeEscape within (words true)
  | 's' => takeEscape within (spaces false)
  | 'S' => takeEscape within (spaces true)
  | 'b' => takeBoundary within false
  | 'B' => takeBoundary within true
  | 'f' => takeByte within 0x0C
  | 'n' => takeByte within 0x0A
  | 'r' => takeByte within 0x0D
  | 't' => takeByte within 0x09
  | 'v' => takeByte within 0x0B
  | '0' => takeByte within 0x00
  | 'c' => some ([], .control within)
  | 'x' => some ([], .hex within 2 0)
  | 'u' => some ([], .hex within 4 0)
  | _ =>
      match digit? byte with
      | some index => if within.isSome then none else some ([], .decimal index)
      | none => if isWord byte then none else takeByte within byte

/-- A byte of the pattern that is in the middle of nothing. -/
def scanText (byte : UInt8) : List Symbol × Mode :=
  match Char.ofUInt8 byte with
  | '^' => ([.startOfText], .text)
  | '$' => ([.endOfText], .text)
  | '\\' => ([], .escape none)
  | '.' => ([.set .dot], .text)
  | '*' => ([.quantifier 0 none], .text)
  | '+' => ([.quantifier 1 none], .text)
  | '?' => ([.question], .text)
  | '(' => ([], .opened)
  | ')' => ([.closing], .text)
  | '[' => ([], .classOpened)
  | '{' => ([], .braces none)
  | '|' => ([.bar], .text)
  | _ => ([.set (.one byte)], .text)

/-- A byte of a class. -/
def scanClass (current : ByteClass) (byte : UInt8) : Scanned :=
  match Char.ofUInt8 byte with
  | ']' => some ([.set current.finish], .text)
  | '\\' => some ([], .escape (some current))
  | '-' => current.hyphen.map fun current => ([], .inClass current)
  | _ => takeByte (some current) byte

/-- A byte of the count in braces. -/
def scanBraces (least : Option Nat) (byte : UInt8) : Scanned :=
  match digit? byte, least with
  | some digit, _ => some ([], .braces (some (least.getD 0 * 10 + digit)))
  | none, none => none
  | none, some least =>
      match Char.ofUInt8 byte with
      | ',' => some ([], .bracesMost least none)
      | '}' => some ([.quantifier least (some least)], .text)
      | _ => none

/-- A byte behind the comma in braces. -/
def scanBracesMost (least : Nat) (most : Option Nat) (byte : UInt8) : Scanned :=
  match digit? byte with
  | some digit => some ([], .bracesMost least (some (most.getD 0 * 10 + digit)))
  | none =>
      if Char.ofUInt8 byte = '}' ∧ most.all (least ≤ ·) then
        some ([.quantifier least most], .text)
      else none

/-- One byte of a pattern. -/
def scan (mode : Mode) (byte : UInt8) : Scanned :=
  match mode with
  | .text => some (scanText byte)
  | .escape within => scanEscape within byte
  | .decimal index =>
      match digit? byte with
      | some digit => some ([], .decimal (index * 10 + digit))
      | none => some (.reference index :: (scanText byte).1, (scanText byte).2)
  | .control within => if isLetter byte then takeByte within (byte % 32) else none
  | .hex within left value =>
      match hexDigit? byte with
      | none => none
      | some digit =>
          if 1 < left then some ([], .hex within (left - 1) (value * 16 + digit))
          else if value * 16 + digit < 256 then takeByte within (.ofNat (value * 16 + digit))
          else none
  | .opened =>
      if Char.ofUInt8 byte = '?' then some ([], .openedQuestion)
      else some (.opening .capture :: (scanText byte).1, (scanText byte).2)
  | .openedQuestion =>
      match Char.ofUInt8 byte with
      | ':' => some ([.opening .plain], .text)
      | '=' => some ([.opening (.look false)], .text)
      | '!' => some ([.opening (.look true)], .text)
      | _ => none
  | .braces least => scanBraces least byte
  | .bracesMost least most => scanBracesMost least most byte
  | .classOpened =>
      if Char.ofUInt8 byte = '^' then some ([], .inClass { inverted := true })
      else scanClass { inverted := false } byte
  | .inClass current => scanClass current byte

/-- The symbols that are complete at the end of a pattern; nothing else may be open there. -/
def Mode.finish : Mode → Option (List Symbol)
  | .text => some []
  | .decimal index => some [.reference index]
  | _ => none

/-- The bytes of a pattern, one after the other. -/
def scanAll : Mode → Bytes → Scanned
  | mode, [] => some ([], mode)
  | mode, byte :: rest => do
      let (symbols, next) ← scan mode byte
      let (more, last) ← scanAll next rest
      return (symbols ++ more, last)

/-- The symbols of a pattern. -/
def symbolsOf (pattern : Bytes) : Option (List Symbol) := do
  let (symbols, mode) ← scanAll .text pattern
  return symbols ++ (← mode.finish)

end Scanning

section Reading

/-- One thing matched in a sequence, and whether a quantifier may follow it. -/
inductive Item where
  /-- May be counted. -/
  | atom (regex : Regex UInt8)
  /-- Counted greedily, which a question mark may still change. -/
  | counted (body : Regex UInt8) (least : Nat) (most : Option Nat)
  | closed (regex : Regex UInt8)

/-- The expression of an item. -/
def Item.regex : Item → Regex UInt8
  | .atom regex | .closed regex => regex
  | .counted body least most => .loop body least most true

/-- A group that is still open. -/
structure Frame where
  opening : Opening
  index : Nat
  branches : Branches Item := .one []

/-- The group as an item of what is around it. -/
def Frame.item (frame : Frame) : Item :=
  let body := (frame.branches.map (List.map Item.regex)).regex
  match frame.opening with
  | .capture => .atom (.group frame.index body)
  | .plain => .atom body
  | .look inverted => .closed (.look inverted body)

/-- A pattern that is being read. -/
structure Reader where
  /-- The open groups, innermost first. -/
  frames : List Frame := []
  root : Branches Item := .one []
  /-- How many capturing groups were opened. -/
  groups : Nat := 0
  /-- The highest group a reference names. -/
  highest : Nat := 0

namespace Reader

/-- A change of the innermost alternatives. -/
def change (edit : Branches Item → Option (Branches Item)) (reader : Reader) : Option Reader :=
  match reader.frames with
  | [] => (edit reader.root).map fun root => { reader with root := root }
  | frame :: rest =>
      (edit frame.branches).map fun branches =>
        { reader with frames := { frame with branches := branches } :: rest }

/-- One more item. -/
def push (item : Item) : Reader → Option Reader :=
  change fun branches => some (branches.append item)

/-- The last item with a quantifier. -/
def quantify (least : Nat) (most : Option Nat) (items : List Item) : Option (List Item) :=
  match items.getLast? with
  | some (.atom regex) => some (items.dropLast ++ [.counted regex least most])
  | _ => none

/-- The last item with a question mark: an optional one, or a counted one that is not greedy. -/
def hesitate (items : List Item) : Option (List Item) :=
  match items.getLast? with
  | some (.counted body least most) =>
      some (items.dropLast ++ [.closed (.loop body least most false)])
  | _ => quantify 0 (some 1) items

/-- One symbol of a pattern. -/
def step (reader : Reader) : Symbol → Option Reader
  | .set bytes => reader.push (.atom (.set bytes.accepts))
  | .startOfText => reader.push (.closed .startOfText)
  | .endOfText => reader.push (.closed .endOfText)
  | .boundary inverted => reader.push (.closed (.boundary isWord inverted))
  | .reference index =>
      ({ reader with highest := max reader.highest index } : Reader).push (.atom (.reference index))
  | .bar => reader.change fun branches => some branches.bar
  | .quantifier least most => reader.change (Branches.editLast (quantify least most))
  | .question => reader.change (Branches.editLast hesitate)
  | .opening how =>
      some { reader with
        frames := { opening := how, index := reader.groups + 1 } :: reader.frames
        groups := if how = .capture then reader.groups + 1 else reader.groups }
  | .closing =>
      match reader.frames with
      | [] => none
      | frame :: rest => ({ reader with frames := rest } : Reader).push frame.item

/-- The alternatives of a pattern without an open group or a reference to a missing one. -/
def finish (reader : Reader) : Option (Branches (Regex UInt8)) :=
  if reader.frames.isEmpty ∧ reader.highest ≤ reader.groups then
    some (reader.root.map (List.map Item.regex))
  else none

end Reader

/-- The alternatives a pattern stands for; nothing where it is not well formed. -/
def parse (pattern : Bytes) : Option (Branches (Regex UInt8)) := do
  let symbols ← symbolsOf pattern
  (← symbols.foldlM Reader.step {}).finish

end Reading

section Front

/-- A fold commutes with a change its steps commute with. -/
theorem foldlM_comm {State Item : Type} {step : State → Item → Option State}
    {change : State → State}
    (commutes : ∀ state item, step (change state) item = (step state item).map change)
    (items : List Item) (state : State) :
    items.foldlM step (change state) = (items.foldlM step state).map change := by
  induction items generalizing state with
  | nil => rfl
  | cons item items inductionHypothesis =>
      rw [List.foldlM_cons, List.foldlM_cons, commutes]
      cases step state item with
      | none => rfl
      | some next => exact inductionHypothesis next

namespace Reader

/-- The reader with the start of the text in front of everything. -/
def prependStart (reader : Reader) : Reader :=
  { reader with root := reader.root.prepend (.closed .startOfText) }

theorem change_prependStart (edit : Branches Item → Option (Branches Item))
    (keeps : ∀ branches : Branches Item, edit (branches.prepend (.closed .startOfText)) =
      (edit branches).map (Branches.prepend (.closed .startOfText)))
    (reader : Reader) :
    reader.prependStart.change edit = (reader.change edit).map prependStart := by
  obtain ⟨frames, root, groups, highest⟩ := reader
  cases frames with
  | nil =>
      simp only [prependStart, change, keeps, Option.map_map]
      rfl
  | cons frame rest =>
      simp only [prependStart, change, Option.map_map]
      rfl

theorem push_prependStart (item : Item) (reader : Reader) :
    reader.prependStart.push item = (reader.push item).map prependStart := by
  refine change_prependStart _ (fun branches => ?_) reader
  cases branches <;> rfl

theorem editLast_prependStart {edit : List Item → Option (List Item)}
    (keeps : ∀ items, edit (.closed .startOfText :: items) =
      (edit items).map (.closed .startOfText :: ·)) (branches : Branches Item) :
    Branches.editLast edit (branches.prepend (.closed .startOfText)) =
      (Branches.editLast edit branches).map (Branches.prepend (.closed .startOfText)) := by
  cases branches with
  | one items =>
      simp only [Branches.prepend, Branches.editLast, keeps, Option.map_map]
      rfl
  | several first middle last =>
      simp only [Branches.prepend, Branches.editLast, Option.map_map]
      rfl

/-- A quantifier looks at the last item alone. -/
theorem quantify_concat (least : Nat) (most : Option Nat) (items : List Item) (last : Item) :
    quantify least most (items ++ [last]) = (quantify least most [last]).map (items ++ ·) := by
  cases last <;> simp [quantify]

theorem hesitate_concat (items : List Item) (last : Item) :
    hesitate (items ++ [last]) = (hesitate [last]).map (items ++ ·) := by
  cases last <;> simp [hesitate, quantify]

/-- Nothing is counted at the start of the text: an edit of the last item leaves it alone. -/
theorem edit_startOfText {edit : List Item → Option (List Item)}
    (nothing : edit [.closed .startOfText] = none ∧ edit [] = none)
    (concat : ∀ items last, edit (items ++ [last]) = (edit [last]).map (items ++ ·))
    (items : List Item) :
    edit (.closed .startOfText :: items) = (edit items).map (.closed .startOfText :: ·) := by
  obtain rfl | ⟨front, last, rfl⟩ := items.eq_nil_or_concat
  · rw [nothing.1, nothing.2]
    rfl
  · rw [List.concat_eq_append, ← List.cons_append, concat, concat, Option.map_map]
    rfl

/-- A step leaves what stands in front of everything there. -/
theorem step_prependStart (reader : Reader) (symbol : Symbol) :
    reader.prependStart.step symbol = (reader.step symbol).map prependStart := by
  cases symbol with
  | set bytes => exact push_prependStart _ reader
  | startOfText => exact push_prependStart _ reader
  | endOfText => exact push_prependStart _ reader
  | boundary inverted => exact push_prependStart _ reader
  | reference index =>
      exact push_prependStart _ { reader with highest := max reader.highest index }
  | bar =>
      refine change_prependStart (fun branches => some branches.bar) (fun branches => ?_) reader
      cases branches <;> rfl
  | quantifier least most =>
      refine change_prependStart _ (editLast_prependStart ?_) reader
      exact edit_startOfText ⟨rfl, rfl⟩ (quantify_concat least most)
  | question =>
      refine change_prependStart _ (editLast_prependStart ?_) reader
      exact edit_startOfText ⟨rfl, rfl⟩ hesitate_concat
  | opening how => rfl
  | closing =>
      obtain ⟨frames, root, groups, highest⟩ := reader
      cases frames with
      | nil => rfl
      | cons frame rest => exact push_prependStart _ ⟨rest, root, groups, highest⟩

theorem finish_prependStart (reader : Reader) :
    reader.prependStart.finish = reader.finish.map (Branches.prepend .startOfText) := by
  have root : (reader.root.prepend (.closed .startOfText)).map (List.map Item.regex) =
      (reader.root.map (List.map Item.regex)).prepend .startOfText := by
    cases reader.root <;> rfl
  simp only [finish, prependStart, root]
  split <;> rfl

end Reader

/-- A caret in front of a pattern is the first of its symbols. -/
theorem symbolsOf_caret (pattern : Bytes) :
    symbolsOf (0x5E :: pattern) = (symbolsOf pattern).map (.startOfText :: ·) := by
  have first : scan .text 0x5E = some ([.startOfText], .text) := by decide +kernel
  simp only [symbolsOf, scanAll, first, Option.bind_eq_bind, Option.bind_some]
  cases scanAll .text pattern with
  | none => rfl
  | some scanned =>
      obtain ⟨symbols, mode⟩ := scanned
      simp only [Option.bind_some, Option.pure_def]
      cases mode.finish <;> rfl

/-- A caret in front of a pattern joins its first alternative. -/
theorem parse_caret (pattern : Bytes) :
    parse (0x5E :: pattern) = (parse pattern).map (Branches.prepend .startOfText) := by
  rw [parse, parse, symbolsOf_caret]
  cases symbolsOf pattern with
  | none => rfl
  | some symbols =>
      have start : Reader.step {} .startOfText = some (Reader.prependStart {}) := rfl
      simp only [Option.map_some, Option.bind_eq_bind, Option.bind_some, List.foldlM_cons, start,
        foldlM_comm Reader.step_prependStart]
      cases symbols.foldlM Reader.step {} with
      | none => rfl
      | some reader => exact Reader.finish_prependStart reader

end Front

section Back

/-- The last byte of a pattern is a dollar that a backslash makes stand for itself. -/
def endsInEscapedDollar (pattern : Bytes) : Bool :=
  pattern.getLast? == some 0x24 &&
    (scanAll .text pattern.dropLast).any fun scanned => scanned.2 = .escape none

/-- A pattern is scanned part by part. -/
theorem scanAll_append {mode middle last : Mode} {first second : Bytes}
    {symbols more : List Symbol} (scanned : scanAll mode first = some (symbols, middle))
    (scannedToo : scanAll middle second = some (more, last)) :
    scanAll mode (first ++ second) = some (symbols ++ more, last) := by
  induction first generalizing mode symbols with
  | nil =>
      cases scanned
      exact scannedToo
  | cons byte rest inductionHypothesis =>
      obtain ⟨⟨here, next⟩, stepped, scanned⟩ := Option.bind_eq_some_iff.mp scanned
      obtain ⟨⟨later, end_⟩, scannedRest, gathered⟩ := Option.bind_eq_some_iff.mp scanned
      cases gathered
      rw [List.cons_append, scanAll, stepped]
      simp only [Option.bind_eq_bind, Option.bind_some, inductionHypothesis scannedRest,
        List.append_assoc, Option.pure_def]

/-- The scan of a front part of a pattern that is scanned. -/
theorem scanAll_of_append {mode last : Mode} {first second : Bytes} {symbols : List Symbol}
    (scanned : scanAll mode (first ++ second) = some (symbols, last)) :
    ∃ front middle more, scanAll mode first = some (front, middle) ∧
      scanAll middle second = some (more, last) ∧ symbols = front ++ more := by
  induction first generalizing mode symbols with
  | nil => exact ⟨[], mode, symbols, rfl, scanned, rfl⟩
  | cons byte rest inductionHypothesis =>
      obtain ⟨⟨here, next⟩, stepped, scanned⟩ := Option.bind_eq_some_iff.mp scanned
      obtain ⟨⟨later, end_⟩, scannedRest, gathered⟩ := Option.bind_eq_some_iff.mp scanned
      cases gathered
      obtain ⟨front, middle, more, scannedFront, scannedMore, rfl⟩ :=
        inductionHypothesis scannedRest
      refine ⟨here ++ front, middle, more, ?_, scannedMore, (List.append_assoc _ _ _).symm⟩
      rw [scanAll, stepped]
      simp only [Option.bind_eq_bind, Option.bind_some, scannedFront, Option.pure_def]

/-- Where a pattern may end, a dollar is the end of the text. -/
theorem scan_dollar_of_finish {mode : Mode} {more : List Symbol}
    (finishes : mode.finish = some more) :
    scan mode 0x24 = some (more ++ [.endOfText], .text) := by
  cases mode with
  | text =>
      cases finishes
      decide +kernel
  | decimal index =>
      cases finishes
      rfl
  | _ => cases finishes

/-- A dollar behind which a pattern may end is the end of the text, unless it is escaped. -/
theorem endOfText_of_scan_dollar {mode next : Mode} {symbols more : List Symbol}
    (unescaped : mode ≠ .escape none) (scanned : scan mode 0x24 = some (symbols, next))
    (finishes : next.finish = some more) :
    ∃ front, symbols ++ more = front ++ [.endOfText] := by
  have nowhere {current : ByteClass} {byte : UInt8}
      (taken : takeByte (some current) byte = some (symbols, next)) :
      ∃ front, symbols ++ more = front ++ [.endOfText] := by
    obtain ⟨_, _, gathered⟩ := Option.map_eq_some_iff.mp taken
    cases gathered
    cases finishes
  cases mode with
  | text =>
      cases scanned
      cases finishes
      exact ⟨[], rfl⟩
  | escape within =>
      cases within with
      | none => exact absurd rfl unescaped
      | some current => exact nowhere scanned
  | decimal index =>
      cases scanned
      cases finishes
      exact ⟨[.reference index], rfl⟩
  | control within => cases scanned
  | hex within left value => cases scanned
  | opened =>
      cases scanned
      cases finishes
      exact ⟨[.opening .capture], rfl⟩
  | openedQuestion => cases scanned
  | braces least => cases least <;> cases scanned
  | bracesMost least most => cases scanned
  | classOpened => exact @nowhere { inverted := false } 0x24 scanned
  | inClass current => exact nowhere scanned

namespace Reader

/-- The end of the text behind everything joins the last alternative, where no group is open. -/
theorem finish_endOfText (reader : Reader) :
    (reader.step .endOfText).bind finish = reader.finish.map (Branches.append .endOfText) := by
  obtain ⟨frames, root, groups, highest⟩ := reader
  have joined : (root.append (.closed .endOfText)).map (List.map Item.regex) =
      (root.map (List.map Item.regex)).append .endOfText := by
    cases root <;> simp [Branches.append, Branches.map, Item.regex]
  cases frames with
  | nil =>
      simp only [step, push, change, Option.map_some, Option.bind_some, finish, joined]
      split <;> rfl
  | cons frame rest => simp [step, push, change, finish]

end Reader

/-- The alternatives of a pattern's symbols. -/
def read (symbols : List Symbol) : Option (Branches (Regex UInt8)) := do
  (← symbols.foldlM Reader.step {}).finish

theorem parse_eq (pattern : Bytes) : parse pattern = (symbolsOf pattern).bind read := rfl

/-- The end of the text as the last symbol joins the last alternative. -/
theorem read_concat_endOfText (symbols : List Symbol) :
    read (symbols ++ [.endOfText]) = (read symbols).map (Branches.append .endOfText) := by
  rw [read, read, List.foldlM_append]
  cases symbols.foldlM Reader.step {} with
  | none => rfl
  | some reader =>
      have last : ([.endOfText] : List Symbol).foldlM Reader.step reader =
          reader.step .endOfText := by
        rw [List.foldlM_cons]
        cases reader.step .endOfText <;> rfl
      simp only [Option.bind_eq_bind, Option.bind_some, last]
      exact reader.finish_endOfText

/-- A dollar behind a pattern joins its last alternative. -/
theorem parse_concat_dollar {pattern : Bytes} {branches : Branches (Regex UInt8)}
    (parsed : parse pattern = some branches) :
    parse (pattern ++ [0x24]) = some (branches.append .endOfText) := by
  rw [parse_eq] at parsed
  obtain ⟨symbols, found, reads⟩ := Option.bind_eq_some_iff.mp parsed
  obtain ⟨⟨front, mode⟩, scanned, finished⟩ := Option.bind_eq_some_iff.mp found
  obtain ⟨more, finishes, gathered⟩ := Option.bind_eq_some_iff.mp finished
  cases gathered
  have dollar : scanAll mode [0x24] = some (more ++ [.endOfText], .text) := by
    simp [scanAll, scan_dollar_of_finish finishes]
  have whole := scanAll_append scanned dollar
  have found : symbolsOf (pattern ++ [0x24]) = some (front ++ more ++ [.endOfText]) := by
    simp [symbolsOf, whole, Mode.finish]
  rw [parse_eq, found, Option.bind_some, read_concat_endOfText, reads, Option.map_some]

/-- The last dollar of a pattern that does not escape it ends its last alternative. -/
theorem exists_append_of_dollar {front : Bytes} {branches : Branches (Regex UInt8)}
    (parsed : parse (front ++ [0x24]) = some branches)
    (unescaped : endsInEscapedDollar (front ++ [0x24]) = false) :
    ∃ inner : Branches (Regex UInt8), branches = inner.append .endOfText := by
  rw [parse_eq] at parsed
  obtain ⟨symbols, found, reads⟩ := Option.bind_eq_some_iff.mp parsed
  obtain ⟨⟨scanned, last⟩, all, finished⟩ := Option.bind_eq_some_iff.mp found
  obtain ⟨more, finishes, gathered⟩ := Option.bind_eq_some_iff.mp finished
  cases gathered
  obtain ⟨earlier, mode, late, scannedFront, scannedDollar, rfl⟩ := scanAll_of_append all
  have other : mode ≠ .escape none := by
    rintro rfl
    simp [endsInEscapedDollar, scannedFront] at unescaped
  have dollar : scan mode 0x24 = some (late, last) := by
    obtain ⟨⟨here, next⟩, stepped, gathered⟩ := Option.bind_eq_some_iff.mp scannedDollar
    cases gathered
    rw [stepped, List.append_nil]
  obtain ⟨inner, ends⟩ := endOfText_of_scan_dollar other dollar finishes
  rw [List.append_assoc, ends, ← List.append_assoc, read_concat_endOfText] at reads
  obtain ⟨before, _, rfl⟩ := Option.map_eq_some_iff.mp reads
  exact ⟨before, rfl⟩

end Back

section Matching

/-- The pattern is found somewhere in the text. -/
def Searches (pattern text : Bytes) : Prop :=
  ∃ branches, parse pattern = some branches ∧ branches.regex.Search text

/-- The pattern matches the whole text. -/
def MatchesWhole (pattern text : Bytes) : Prop :=
  ∃ branches, parse pattern = some branches ∧ branches.regex.FullMatch text

variable {pattern text : Bytes} {branches : Branches (Regex UInt8)}

theorem searches_iff (parsed : parse pattern = some branches) :
    Searches pattern text ↔ branches.regex.Search text := by
  simp only [Searches, parsed, Option.some.injEq, exists_eq_left']

theorem matchesWhole_iff (parsed : parse pattern = some branches) :
    MatchesWhole pattern text ↔ branches.regex.FullMatch text := by
  simp only [MatchesWhole, parsed, Option.some.injEq, exists_eq_left']

end Matching

section Words

/-- The set of one byte accepts that byte. -/
theorem ByteSet.accepts_one (byte : UInt8) : (ByteSet.one byte).accepts = (· == byte) := by
  funext other
  have same : (byte ≤ other && other ≤ byte) = (other == byte) := by
    rw [Bool.eq_iff_iff, Bool.and_eq_true, decide_eq_true_iff, decide_eq_true_iff, beq_iff_eq]
    constructor
    · exact fun both => UInt8.le_antisymm both.2 both.1
    · rintro rfl
      exact ⟨UInt8.le_refl _, UInt8.le_refl _⟩
  simp [accepts, one, same]

/-- Symbols of single bytes are read as a word behind the items there are. -/
theorem foldlM_bytes (word : Bytes) (items : List Item) (groups highest : Nat) :
    (word.map fun byte => Symbol.set (.one byte)).foldlM Reader.step
        { root := .one items, groups := groups, highest := highest } =
      some { root := .one (items ++ word.map fun byte => .atom (.set (· == byte)))
             groups := groups, highest := highest } := by
  induction word generalizing items with
  | nil => rw [List.map_nil, List.map_nil, List.append_nil]; rfl
  | cons byte word inductionHypothesis =>
      rw [List.map_cons, List.foldlM_cons]
      have stepped : Reader.step { root := .one items, groups := groups, highest := highest }
          (.set (.one byte)) = some { root := .one (items ++ [.atom (.set (· == byte))])
                                      groups := groups, highest := highest } := by
        rw [← ByteSet.accepts_one]
        rfl
      rw [stepped]
      refine (inductionHypothesis _).trans ?_
      rw [List.map_cons, List.append_assoc, List.singleton_append]

/-- Symbols of single bytes are a word. -/
theorem read_bytes (word : Bytes) :
    read (word.map fun byte => .set (.one byte)) = some (.one (wordItems word)) := by
  have folded := foldlM_bytes word [] 0 0
  rw [List.nil_append] at folded
  rw [read]
  change ((word.map fun byte => Symbol.set (.one byte)).foldlM Reader.step
    { root := .one [], groups := 0, highest := 0 }).bind Reader.finish = _
  rw [folded]
  simp [Reader.finish, Branches.map, wordItems, Item.regex, Function.comp_def]

variable {pattern word text : Bytes}

/-- A pattern of single bytes is the expression of their word. -/
theorem parse_bytes (found : symbolsOf pattern = some (word.map fun byte => .set (.one byte))) :
    parse pattern = some (.one (wordItems word)) := by
  rw [parse_eq, found, Option.bind_some, read_bytes]

/-- A search for a pattern of single bytes finds the occurrences of their word. -/
theorem searches_bytes
    (found : symbolsOf pattern = some (word.map fun byte => .set (.one byte))) :
    Searches pattern text ↔ word <:+: text := by
  rw [searches_iff (parse_bytes found), search_word_iff]

/-- A pattern of single bytes matches their word as a whole. -/
theorem matchesWhole_bytes
    (found : symbolsOf pattern = some (word.map fun byte => .set (.one byte))) :
    MatchesWhole pattern text ↔ text = word := by
  rw [matchesWhole_iff (parse_bytes found), fullMatch_word_iff]

end Words

end Llamad.Pattern
