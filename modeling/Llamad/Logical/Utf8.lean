import Mathlib.Data.List.Basic
import Mathlib.Data.List.Infix

/-!
# UTF-8 byte sequences

Validity is Lean's own encoding of characters, so no second decoder is defined
here. The module relates it to what a byte scanner can see: which bytes continue
a character, how long a lead byte says its character is, and when a text stops
inside one. `Valid.split` cuts a valid text in front of any byte that does not
continue a character, and `ValidPrefix.split` takes the unfinished last character
off a text that was cut anywhere.
-/

namespace Llamad.Logical

/-- Byte strings, as `std::string` holds them. -/
abbrev Bytes := List UInt8

namespace Utf8

/-- A byte of the form `10xxxxxx`. -/
def isContinuation (byte : UInt8) : Bool := byte &&& 0xC0 == 0x80

/-- Length of the sequence a lead byte announces; zero for a byte that leads none. -/
def announced (byte : UInt8) : Nat :=
  if byte &&& 0x80 = 0x00 then 1
  else if byte &&& 0xE0 = 0xC0 then 2
  else if byte &&& 0xF0 = 0xE0 then 3
  else if byte &&& 0xF8 = 0xF0 then 4
  else 0

/-- The encoding of some sequence of characters. -/
def Valid (bytes : Bytes) : Prop :=
  ∃ chars : List Char, bytes = chars.flatMap String.utf8EncodeChar

/-- A text that more bytes can complete to a valid one. -/
def ValidPrefix (bytes : Bytes) : Prop := ∃ rest, Valid (bytes ++ rest)

/-- A proper nonempty prefix of one character. -/
def CharPrefix (bytes : Bytes) : Prop :=
  ∃ char rest, String.utf8EncodeChar char = bytes ++ rest ∧ bytes ≠ [] ∧ rest ≠ []

/-- A lead byte followed by fewer continuation bytes than it announces. -/
def Truncated (bytes : Bytes) : Prop :=
  ∃ lead continuations, bytes = lead :: continuations ∧
    (∀ byte ∈ continuations, isContinuation byte) ∧ bytes.length < announced lead

/-- A text whose last bytes are a truncated character. -/
def EndsTruncated (bytes : Bytes) : Prop :=
  ∃ front tail, bytes = front ++ tail ∧ Truncated tail

section Bytes

/-- A property of all bytes is one of the 256 of them. -/
theorem forall_byte {property : UInt8 → Prop}
    (holds : ∀ value : Fin 256, property (UInt8.ofFin value)) : ∀ byte, property byte := by
  intro byte
  simpa using holds byte.toFin

theorem announced_eq_zero_of_isContinuation :
    ∀ byte, isContinuation byte = true → announced byte = 0 :=
  forall_byte (by decide +kernel)

theorem announced_le_four (byte : UInt8) : announced byte ≤ 4 := by
  unfold announced
  split_ifs <;> omega

private theorem announced_ascii : ∀ byte : UInt8, byte ≤ 127 → announced byte = 1 :=
  forall_byte (by decide +kernel)

private theorem announced_two : ∀ byte : UInt8, announced (byte &&& 0x1f ||| 0xc0) = 2 :=
  forall_byte (by decide +kernel)

private theorem announced_three : ∀ byte : UInt8, announced (byte &&& 0x0f ||| 0xe0) = 3 :=
  forall_byte (by decide +kernel)

private theorem announced_four : ∀ byte : UInt8, announced (byte &&& 0x07 ||| 0xf0) = 4 :=
  forall_byte (by decide +kernel)

private theorem isContinuation_tail :
    ∀ byte : UInt8, isContinuation (byte &&& 0x3f ||| 0x80) = true :=
  forall_byte (by decide +kernel)

end Bytes

/-- A character is a lead byte and exactly the continuation bytes it announces. -/
theorem encodeChar_shape (char : Char) :
    ∃ lead continuations, String.utf8EncodeChar char = lead :: continuations ∧
      announced lead = continuations.length + 1 ∧
      ∀ byte ∈ continuations, isContinuation byte := by
  obtain size | size | size | size := char.utf8Size_eq
  · refine ⟨_, _, String.utf8EncodeChar_eq_singleton size, ?_, by simp⟩
    apply announced_ascii
    have small : char.val ≤ 127 := Char.utf8Size_eq_one_iff.mp size
    rw [UInt8.le_iff_toNat_le]
    rw [UInt32.le_iff_toNat_le] at small
    have value : char.val.toUInt8.toNat = char.val.toNat % 256 := UInt32.toNat_toUInt8 _
    have bound : (127 : UInt32).toNat = 127 := rfl
    have bound' : (127 : UInt8).toNat = 127 := rfl
    omega
  · exact ⟨_, _, String.utf8EncodeChar_eq_cons_cons size, announced_two _,
      by simp [isContinuation_tail]⟩
  · exact ⟨_, _, String.utf8EncodeChar_eq_cons_cons_cons size, announced_three _,
      by simp [isContinuation_tail]⟩
  · exact ⟨_, _, String.utf8EncodeChar_eq_cons_cons_cons_cons size, announced_four _,
      by simp [isContinuation_tail]⟩

/-- Every byte of a character after its first continues it. -/
theorem isContinuation_of_encodeChar_eq {char : Char} {front rest : Bytes} {byte : UInt8}
    (encoded : String.utf8EncodeChar char = front ++ byte :: rest) (later : front ≠ []) :
    isContinuation byte := by
  obtain ⟨lead, continuations, shape, _, follow⟩ := encodeChar_shape char
  rw [shape] at encoded
  cases front with
  | nil => exact absurd rfl later
  | cons _ front =>
      obtain ⟨-, rfl⟩ := List.cons.inj encoded
      exact follow byte (by simp)

theorem CharPrefix.truncated {bytes : Bytes} (charPrefix : CharPrefix bytes) :
    Truncated bytes := by
  obtain ⟨char, rest, encoded, nonempty, more⟩ := charPrefix
  obtain ⟨lead, continuations, shape, length, follow⟩ := encodeChar_shape char
  rw [shape] at encoded
  cases bytes with
  | nil => exact absurd rfl nonempty
  | cons first bytes =>
      rw [List.cons_append] at encoded
      obtain ⟨rfl, rfl⟩ := List.cons.inj encoded
      refine ⟨lead, bytes, rfl, fun byte member => follow byte (by simp [member]), ?_⟩
      have positive := List.length_pos_iff.mpr more
      rw [List.length_append] at length
      rw [List.length_cons]
      omega

namespace Truncated

variable {bytes : Bytes}

theorem length_pos (truncated : Truncated bytes) : 0 < bytes.length := by
  obtain ⟨lead, continuations, rfl, _, _⟩ := truncated
  simp

theorem length_lt_four (truncated : Truncated bytes) : bytes.length < 4 := by
  obtain ⟨lead, continuations, rfl, _, short⟩ := truncated
  exact Nat.lt_of_lt_of_le short (announced_le_four lead)

/-- The beginning of a truncated character is one. -/
theorem of_append {front back : Bytes} (truncated : Truncated (front ++ back))
    (nonempty : front ≠ []) : Truncated front := by
  obtain ⟨lead, continuations, same, follow, short⟩ := truncated
  cases front with
  | nil => exact absurd rfl nonempty
  | cons first front =>
      obtain ⟨rfl, rfl⟩ := List.cons.inj same
      refine ⟨first, front, rfl, fun byte member => follow byte (List.mem_append_left _ member), ?_⟩
      exact Nat.lt_of_le_of_lt ((List.prefix_append _ back).length_le) short

/-- The lead byte of a truncated character continues none. -/
theorem head_not_continuation {lead : UInt8} {rest : Bytes}
    (truncated : Truncated (lead :: rest)) : isContinuation lead = false := by
  obtain ⟨first, continuations, same, _, short⟩ := truncated
  obtain ⟨rfl, rfl⟩ := List.cons.inj same
  by_contra continues
  rw [announced_eq_zero_of_isContinuation lead (by simpa using continues)] at short
  exact Nat.not_lt_zero _ short

/-- A text ends in at most one truncated character: its lead is the last byte that
continues none. -/
theorem unique {front front' tail tail' : Bytes} (same : front ++ tail = front' ++ tail')
    (truncated : Truncated tail) (truncated' : Truncated tail') : tail = tail' := by
  have suffixOf : ∀ {tail tail' middle : Bytes}, Truncated tail → Truncated tail' →
      tail = middle ++ tail' → tail = tail' := by
    intro tail tail' middle truncated truncated' split
    cases middle with
    | nil => simpa using split
    | cons first middle =>
        obtain ⟨lead, continuations, rfl, follow, _⟩ := truncated
        obtain ⟨lead', continuations', rfl, _, _⟩ := id truncated'
        obtain ⟨-, rfl⟩ := List.cons.inj split
        have continues := follow lead' (by simp)
        rw [truncated'.head_not_continuation] at continues
        cases continues
  obtain ⟨middle, -, split⟩ | ⟨middle, -, split⟩ := List.append_eq_append_iff.mp same
  · exact suffixOf truncated truncated' split
  · exact (suffixOf truncated' truncated split).symm

end Truncated

namespace Valid

theorem nil : Valid [] := ⟨[], rfl⟩

theorem append {left right : Bytes} (validLeft : Valid left) (validRight : Valid right) :
    Valid (left ++ right) := by
  obtain ⟨chars, rfl⟩ := validLeft
  obtain ⟨chars', rfl⟩ := validRight
  exact ⟨chars ++ chars', by simp⟩

/-- A valid text can be cut in front of any byte that continues no character. -/
theorem split {front back : Bytes} (valid : Valid (front ++ back))
    (boundary : ∀ byte rest, back = byte :: rest → isContinuation byte = false) :
    Valid front ∧ Valid back := by
  obtain ⟨chars, encoded⟩ := valid
  induction chars generalizing front with
  | nil =>
      obtain ⟨rfl, rfl⟩ := List.append_eq_nil_iff.mp encoded
      exact ⟨nil, nil⟩
  | cons char chars inductionHypothesis =>
      by_cases empty : front = []
      · subst empty
        exact ⟨nil, ⟨char :: chars, by simpa using encoded⟩⟩
      · rw [List.flatMap_cons] at encoded
        obtain ⟨middle, first, rest⟩ | ⟨middle, first, rest⟩ :=
          List.append_eq_append_iff.mp encoded
        · cases middle with
          | nil =>
              simp only [List.append_nil] at first
              simp only [List.nil_append] at rest
              exact ⟨⟨[char], by simp [first]⟩, ⟨chars, rest⟩⟩
          | cons byte middle =>
              have continues := isContinuation_of_encodeChar_eq first empty
              rw [boundary byte _ rest] at continues
              cases continues
        · obtain ⟨validMiddle, validBack⟩ := inductionHypothesis rest.symm
          subst first
          exact ⟨append ⟨[char], by simp⟩ validMiddle, validBack⟩

/-- A valid beginning of a valid text leaves a valid rest. -/
theorem cancel_left {front back : Bytes} (validFront : Valid front)
    (valid : Valid (front ++ back)) : Valid back := by
  obtain ⟨chars, rfl⟩ := validFront
  induction chars with
  | nil => simpa using valid
  | cons char chars inductionHypothesis =>
      apply inductionHypothesis
      obtain ⟨others, encoded⟩ := valid
      obtain ⟨lead, continuations, shape, length, follow⟩ := encodeChar_shape char
      cases others with
      | nil => simp [shape] at encoded
      | cons other others =>
          refine ⟨others, ?_⟩
          obtain ⟨lead', continuations', shape', length', _⟩ := encodeChar_shape other
          rw [List.flatMap_cons, List.flatMap_cons, List.append_assoc] at encoded
          have sameLead : lead = lead' := by
            rw [shape, shape'] at encoded
            exact (List.cons.inj encoded).1
          have sameLength : (String.utf8EncodeChar char).length =
              (String.utf8EncodeChar other).length := by
            rw [shape, shape', List.length_cons, List.length_cons, ← length, ← length', sameLead]
          exact (List.append_inj encoded sameLength).2

/-- A valid text does not stop inside a character. -/
theorem not_endsTruncated {bytes : Bytes} (valid : Valid bytes) : ¬ EndsTruncated bytes := by
  rintro ⟨front, tail, rfl, truncated⟩
  obtain ⟨lead, continuations, rfl, follow, short⟩ := id truncated
  have boundary : ∀ byte rest, lead :: continuations = byte :: rest →
      isContinuation byte = false := by
    intro byte rest same
    obtain ⟨rfl, -⟩ := List.cons.inj same
    exact truncated.head_not_continuation
  obtain ⟨chars, encoded⟩ := (valid.split boundary).2
  cases chars with
  | nil => cases encoded
  | cons char chars =>
      obtain ⟨lead', continuations', shape, length, _⟩ := encodeChar_shape char
      rw [List.flatMap_cons, shape] at encoded
      have total := congrArg List.length encoded
      obtain ⟨rfl, -⟩ := List.cons.inj encoded
      simp only [List.length_cons, List.cons_append, List.length_append] at total short
      omega

end Valid

namespace ValidPrefix

variable {front back bytes : Bytes}

theorem of_append (prefixed : ValidPrefix (front ++ back)) : ValidPrefix front := by
  obtain ⟨rest, valid⟩ := prefixed
  exact ⟨back ++ rest, by simpa using valid⟩

/-- A text that was cut anywhere can be cut in front of a byte that continues no
character. -/
theorem valid_front {byte : UInt8} (prefixed : ValidPrefix (front ++ byte :: back))
    (boundary : isContinuation byte = false) : Valid front := by
  obtain ⟨rest, valid⟩ := prefixed
  rw [List.append_assoc] at valid
  refine (valid.split ?_).1
  intro other others same
  obtain ⟨rfl, -⟩ := List.cons.inj same
  exact boundary

/-- A text that was cut anywhere is whole characters and at most one unfinished one. -/
theorem split (prefixed : ValidPrefix bytes) :
    ∃ whole tail, bytes = whole ++ tail ∧ Valid whole ∧ (tail = [] ∨ CharPrefix tail) := by
  obtain ⟨rest, chars, encoded⟩ := prefixed
  induction chars generalizing bytes with
  | nil =>
      obtain ⟨rfl, -⟩ := List.append_eq_nil_iff.mp encoded
      exact ⟨[], [], rfl, Valid.nil, .inl rfl⟩
  | cons char chars inductionHypothesis =>
      rw [List.flatMap_cons] at encoded
      obtain ⟨middle, first, second⟩ | ⟨middle, first, second⟩ :=
        List.append_eq_append_iff.mp encoded
      · by_cases empty : bytes = []
        · exact ⟨[], [], by simp [empty], Valid.nil, .inl rfl⟩
        · by_cases complete : middle = []
          · subst complete
            exact ⟨bytes, [], by simp, ⟨[char], by simpa using first.symm⟩, .inl rfl⟩
          · exact ⟨[], bytes, rfl, Valid.nil, .inr ⟨char, middle, first, empty, complete⟩⟩
      · obtain ⟨whole, tail, rfl, validWhole, unfinished⟩ := inductionHypothesis second.symm
        subst first
        exact ⟨String.utf8EncodeChar char ++ whole, tail, by simp,
          Valid.append ⟨[char], by simp⟩ validWhole, unfinished⟩

end ValidPrefix

end Utf8

end Llamad.Logical
