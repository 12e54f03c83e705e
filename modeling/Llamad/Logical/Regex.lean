import Mathlib.Data.List.Basic
import Mathlib.Data.List.Infix
import Mathlib.Logic.Function.Basic

/-!
# Regular expressions

The expressions of ECMAScript over any alphabet, with the meaning its backtracking matcher
gives them: `ways` lists where a match may end and what its groups captured then, in the
order in which the matcher tries them. `Search` and `FullMatch` are what
`std::regex_search` and `std::regex_match` decide.

`Branches` keeps the alternatives of an expression apart, because an anchor that is put at
one end of a pattern joins one of them alone.
-/

namespace Llamad.Logical

universe u

/-- An expression. -/
inductive Regex (α : Type u) where
  | empty
  | set (accepts : α → Bool)
  | startOfText
  | endOfText
  | boundary (isWord : α → Bool) (inverted : Bool)
  | seq (first second : Regex α)
  | alt (first second : Regex α)
  | group (index : Nat) (body : Regex α)
  | look (inverted : Bool) (body : Regex α)
  | reference (index : Nat)
  | loop (body : Regex α) (least : Nat) (most : Option Nat) (greedy : Bool)

/-- A point a match has reached: its position in the text, and where its groups matched. -/
structure Thread where
  position : Nat
  captured : Nat → Option (Nat × Nat) := fun _ => none

namespace Thread

/-- The thread with group `index` captured from `start` on. -/
def capture (index start : Nat) (thread : Thread) : Thread :=
  { thread with
    captured := Function.update thread.captured index (some (start, thread.position)) }

/-- The thread without the captures of some groups. -/
def forget (indices : List Nat) (thread : Thread) : Thread :=
  { thread with
    captured := fun index => if index ∈ indices then none else thread.captured index }

/-- `count` rounds of a loop that must be made. -/
def times (round : Thread → List Thread) : (count : Nat) → Thread → List Thread
  | 0, thread => [thread]
  | count + 1, thread => (round thread).flatMap (times round count)

/-- Rounds of a loop that may be made, at most `most` of them and only such that move on. -/
def again (round : Thread → List Thread) (greedy : Bool) :
    (fuel : Nat) → (most : Option Nat) → Thread → List Thread
  | 0, _, thread => [thread]
  | fuel + 1, most, thread =>
      if most = some 0 then [thread]
      else
        let more := ((round thread).filter fun after => thread.position < after.position).flatMap
          (again round greedy fuel (most.map (· - 1)))
        if greedy then more ++ [thread] else thread :: more

end Thread

namespace Regex

variable {α : Type u}

/-- The groups of an expression. -/
def groups : Regex α → List Nat
  | .seq first second | .alt first second => first.groups ++ second.groups
  | .group index body => index :: body.groups
  | .look _ body | .loop body _ _ _ => body.groups
  | _ => []

/-- A word character stands on exactly one side of the position. -/
def atBoundary (isWord : α → Bool) (text : List α) (position : Nat) : Bool :=
  let before := if position = 0 then false else text[position - 1]?.any isWord
  before != text[position]?.any isWord

/-- The ways to match an expression from a thread on, in the order in which they are tried.
An assertion is not gone back into: of its ways the first one counts. -/
def ways [DecidableEq α] (text : List α) : Regex α → Thread → List Thread
  | .empty, thread => [thread]
  | .set accepts, thread =>
      if text[thread.position]?.any accepts then
        [{ thread with position := thread.position + 1 }]
      else []
  | .startOfText, thread => if thread.position = 0 then [thread] else []
  | .endOfText, thread => if thread.position = text.length then [thread] else []
  | .boundary isWord inverted, thread =>
      if atBoundary isWord text thread.position != inverted then [thread] else []
  | .seq first second, thread => (first.ways text thread).flatMap (second.ways text)
  | .alt first second, thread => first.ways text thread ++ second.ways text thread
  | .group index body, thread =>
      (body.ways text thread).map (Thread.capture index thread.position)
  | .look false body, thread =>
      (body.ways text thread).head?.toList.map fun after =>
        { thread with captured := after.captured }
  | .look true body, thread => if (body.ways text thread).isEmpty then [thread] else []
  | .reference index, thread =>
      match thread.captured index with
      | none => [thread]
      | some (start, stop) =>
          let word := (text.drop start).take (stop - start)
          if word <+: text.drop thread.position then
            [{ thread with position := thread.position + word.length }]
          else []
  | .loop body least most greedy, thread =>
      let round := fun thread => body.ways text (thread.forget body.groups)
      (Thread.times round least thread).flatMap
        (Thread.again round greedy text.length (most.map (· - least)))

/-- The items one after the other. -/
def sequence (items : List (Regex α)) : Regex α := items.foldr .seq .empty

end Regex

/-- The alternatives of an expression, each a list of items: one, or a first and a last one
with others between them. -/
inductive Branches (β : Type u) where
  | one (items : List β)
  | several (first : List β) (middle : List (List β)) (last : List β)

namespace Branches

variable {α : Type u} {β γ : Type*}

/-- All alternatives, from left to right. -/
def all : Branches β → List (List β)
  | .one items => [items]
  | .several first middle last => first :: middle ++ [last]

/-- The alternatives with each list of items changed. -/
def map (change : List β → List γ) : Branches β → Branches γ
  | .one items => .one (change items)
  | .several first middle last => .several (change first) (middle.map change) (change last)

/-- An item in front of everything joins the first alternative. -/
def prepend (item : β) : Branches β → Branches β
  | .one items => .one (item :: items)
  | .several first middle last => .several (item :: first) middle last

/-- An item behind everything joins the last alternative. -/
def append (item : β) : Branches β → Branches β
  | .one items => .one (items ++ [item])
  | .several first middle last => .several first middle (last ++ [item])

/-- One more alternative, empty so far. -/
def bar : Branches β → Branches β
  | .one items => .several items [] []
  | .several first middle last => .several first (middle ++ [last]) []

/-- A change of the last alternative. -/
def editLast (edit : List β → Option (List β)) : Branches β → Option (Branches β)
  | .one items => (edit items).map .one
  | .several first middle last => (edit last).map (.several first middle)

/-- The expression of some alternatives. -/
def regex (branches : Branches (Regex α)) : Regex α :=
  match branches with
  | .one items => .sequence items
  | .several first middle last =>
      .alt (.sequence first)
        (middle.foldr (fun items rest => .alt (.sequence items) rest) (.sequence last))

end Branches

section Matching

variable {α : Type u} [DecidableEq α] {text : List α}

/-- The expression matches somewhere in the text. -/
def Regex.Search (regex : Regex α) (text : List α) : Prop :=
  ∃ start ≤ text.length, regex.ways text { position := start } ≠ []

/-- The expression matches the whole text. -/
def Regex.FullMatch (regex : Regex α) (text : List α) : Prop :=
  ∃ after ∈ regex.ways text { position := 0 }, after.position = text.length

/-- The items match from `start` to `stop`. -/
def Spans (text : List α) (items : List (Regex α)) (start stop : Nat) : Prop :=
  ∃ after ∈ (Regex.sequence items).ways text { position := start }, after.position = stop

/-- The ways of a sequence are those of its parts one after the other. -/
theorem Regex.ways_sequence_append (first second : List (Regex α)) (thread : Thread) :
    (sequence (first ++ second)).ways text thread =
      ((sequence first).ways text thread).flatMap ((sequence second).ways text) := by
  induction first generalizing thread with
  | nil => exact (List.append_nil _).symm
  | cons item items inductionHypothesis =>
      have split (more : List (Regex α)) : (sequence (item :: more)).ways text thread =
          (item.ways text thread).flatMap ((sequence more).ways text) := rfl
      rw [List.cons_append, split, split, List.flatMap_assoc]
      exact congrArg (fun rest => (item.ways text thread).flatMap rest)
        (funext inductionHypothesis)

/-- In front of a sequence, an item with one way at most keeps the matches that go on there. -/
theorem spans_cons_of_ways {item : Regex α} {items : List (Regex α)} {start next stop : Nat}
    {holds : Prop} [Decidable holds]
    (ways : item.ways text { position := start } =
      if holds then [{ position := next }] else []) :
    Spans text (item :: items) start stop ↔ holds ∧ Spans text items next stop := by
  have sequenced : (Regex.sequence (item :: items)).ways text { position := start } =
      (item.ways text { position := start }).flatMap ((Regex.sequence items).ways text) := rfl
  rw [Spans, sequenced, ways]
  by_cases goesOn : holds
  · rw [if_pos goesOn, List.flatMap_singleton]
    exact ⟨fun spans => ⟨goesOn, spans⟩, fun spans => spans.2⟩
  · rw [if_neg goesOn, List.flatMap_nil]
    exact ⟨by rintro ⟨_, ⟨⟩, _⟩, fun spans => absurd spans.1 goesOn⟩

/-- In front of a sequence, the start of the text keeps the matches that begin there. -/
theorem spans_startOfText {items : List (Regex α)} {start stop : Nat} :
    Spans text (.startOfText :: items) start stop ↔ start = 0 ∧ Spans text items start stop :=
  spans_cons_of_ways rfl

/-- Behind a sequence, the end of the text keeps the matches that end there. -/
theorem spans_endOfText {items : List (Regex α)} {start stop : Nat} :
    Spans text (items ++ [.endOfText]) start stop ↔
      stop = text.length ∧ Spans text items start stop := by
  have last (after : Thread) : (Regex.sequence [.endOfText]).ways text after =
      if after.position = text.length then [after] else [] := by
    change List.flatMap _ (if after.position = text.length then _ else _) = _
    split
    · rfl
    · rfl
  simp only [Spans, Regex.ways_sequence_append, List.mem_flatMap, last]
  constructor
  · rintro ⟨after, ⟨middle, among, here⟩, rfl⟩
    split at here
    · obtain rfl := List.mem_singleton.mp here
      exact ⟨‹_›, after, among, rfl⟩
    · cases here
  · rintro ⟨atEnd, after, among, rfl⟩
    exact ⟨after, ⟨after, among, by rw [if_pos atEnd]; exact List.mem_singleton_self _⟩, rfl⟩

/-- The ways of alternatives are those of each in turn. -/
theorem Branches.ways_regex (branches : Branches (Regex α)) (thread : Thread) :
    branches.regex.ways text thread =
      branches.all.flatMap fun items => (Regex.sequence items).ways text thread := by
  cases branches with
  | one items => exact (List.append_nil _).symm
  | several first middle last =>
      have others : (middle.foldr (fun items rest => .alt (.sequence items) rest)
          (.sequence last) : Regex α).ways text thread =
          (middle ++ [last]).flatMap fun items => (Regex.sequence items).ways text thread := by
        induction middle with
        | nil => exact (List.append_nil _).symm
        | cons items middle inductionHypothesis =>
            rw [List.cons_append, List.flatMap_cons, ← inductionHypothesis]
            rfl
      rw [all, List.cons_append, List.flatMap_cons, ← others]
      rfl

namespace Branches

variable {branches : Branches (Regex α)}

/-- A search finds one of the alternatives somewhere. -/
theorem search_iff : branches.regex.Search text ↔
    ∃ items ∈ branches.all, ∃ start ≤ text.length, ∃ stop, Spans text items start stop := by
  simp only [Regex.Search, ways_regex, ne_eq, List.flatMap_eq_nil_iff, not_forall]
  constructor
  · rintro ⟨start, inside, items, among, some⟩
    obtain ⟨after, here⟩ := List.exists_mem_of_ne_nil _ some
    exact ⟨items, among, start, inside, after.position, after, here, rfl⟩
  · rintro ⟨items, among, start, inside, _, after, here, _⟩
    exact ⟨start, inside, items, among, List.ne_nil_of_mem here⟩

/-- A full match is one by one of the alternatives. -/
theorem fullMatch_iff : branches.regex.FullMatch text ↔
    ∃ items ∈ branches.all, Spans text items 0 text.length := by
  simp only [Regex.FullMatch, ways_regex, List.mem_flatMap]
  constructor
  · rintro ⟨after, ⟨items, among, here⟩, atEnd⟩
    exact ⟨items, among, after, here, atEnd⟩
  · rintro ⟨items, among, after, here, atEnd⟩
    exact ⟨after, ⟨items, among, here⟩, atEnd⟩

/-- What anchors at both ends of the alternatives leave of them: the first one matches from
the start of the text on, the last one up to its end when it is `closed`, and one between
them anywhere. -/
def Loose (closed : Prop) (text : List α) : Branches (Regex α) → Prop
  | .one items => ∃ stop, Spans text items 0 stop ∧ (closed → stop = text.length)
  | .several first middle last =>
      (∃ stop, Spans text first 0 stop) ∨
      (∃ items ∈ middle, ∃ start ≤ text.length, ∃ stop, Spans text items start stop) ∨
      ∃ start ≤ text.length, ∃ stop, Spans text last start stop ∧ (closed → stop = text.length)

theorem exists_mem_all_one {β : Type*} {items : List β} {holds : List β → Prop} :
    (∃ branch ∈ (Branches.one items).all, holds branch) ↔ holds items := by
  simp [all]

theorem exists_mem_all_several {β : Type*} {first last : List β} {middle : List (List β)}
    {holds : List β → Prop} :
    (∃ branch ∈ (Branches.several first middle last).all, holds branch) ↔
      holds first ∨ (∃ branch ∈ middle, holds branch) ∨ holds last := by
  simp only [all, List.cons_append, List.exists_mem_cons_iff, List.mem_append, List.mem_singleton,
    or_and_right, exists_or, exists_eq_left]

/-- A match from the start of the text on. -/
theorem exists_spans_startOfText {items : List (Regex α)} :
    (∃ start ≤ text.length, ∃ stop, Spans text (.startOfText :: items) start stop) ↔
      ∃ stop, Spans text items 0 stop := by
  simp only [spans_startOfText]
  constructor
  · rintro ⟨_, _, stop, rfl, spans⟩
    exact ⟨stop, spans⟩
  · rintro ⟨stop, spans⟩
    exact ⟨0, Nat.zero_le _, stop, rfl, spans⟩

/-- A search for alternatives that begin with a start of the text. -/
theorem search_prepend_iff :
    (branches.prepend .startOfText).regex.Search text ↔ branches.Loose False text := by
  rw [search_iff]
  cases branches with
  | one items =>
      simp only [prepend, exists_mem_all_one, exists_spans_startOfText, Loose, false_implies,
        and_true]
  | several first middle last =>
      simp only [prepend, exists_mem_all_several, exists_spans_startOfText, Loose, false_implies,
        and_true]

/-- A further start of the text changes nothing. -/
theorem loose_prepend {closed : Prop} :
    (branches.prepend .startOfText).Loose closed text ↔ branches.Loose closed text := by
  cases branches with
  | one items => simp only [prepend, Loose, spans_startOfText, true_and]
  | several first middle last => simp only [prepend, Loose, spans_startOfText, true_and]

/-- An end of the text closes the last alternative. -/
theorem loose_append {closed : Prop} :
    (branches.append .endOfText).Loose closed text ↔ branches.Loose True text := by
  have closes (start : Nat) (items : List (Regex α)) :
      (∃ stop, Spans text (items ++ [.endOfText]) start stop ∧ (closed → stop = text.length)) ↔
        ∃ stop, Spans text items start stop ∧ (True → stop = text.length) := by
    simp only [spans_endOfText, true_implies]
    constructor
    · rintro ⟨stop, ⟨atEnd, spans⟩, _⟩
      exact ⟨stop, spans, atEnd⟩
    · rintro ⟨stop, spans, atEnd⟩
      exact ⟨stop, ⟨atEnd, spans⟩, fun _ => atEnd⟩
  cases branches with
  | one items => exact closes 0 items
  | several first middle last => simp only [append, Loose, closes]

/-- A whole match is one that the anchors leave. -/
theorem loose_of_fullMatch {closed : Prop} (whole : branches.regex.FullMatch text) :
    branches.Loose closed text := by
  rw [fullMatch_iff] at whole
  cases branches with
  | one items => exact ⟨_, exists_mem_all_one.mp whole, fun _ => rfl⟩
  | several first middle last =>
      obtain spans | ⟨items, among, spans⟩ | spans := exists_mem_all_several.mp whole
      · exact .inl ⟨_, spans⟩
      · exact .inr (.inl ⟨items, among, 0, Nat.zero_le _, _, spans⟩)
      · exact .inr (.inr ⟨0, Nat.zero_le _, _, spans, fun _ => rfl⟩)

/-- A single alternative with both anchors matches whole texts alone. -/
theorem fullMatch_of_loose {items : List (Regex α)}
    (loose : (Branches.one items).Loose True text) :
    (Branches.one items).regex.FullMatch text := by
  obtain ⟨_, spans, atEnd⟩ := loose
  rw [fullMatch_iff, exists_mem_all_one]
  exact atEnd trivial ▸ spans

end Branches

section Words

/-- The items that match a word. -/
def wordItems (word : List α) : List (Regex α) := word.map fun item => .set (· == item)

/-- In front of a sequence, a set keeps the matches behind one of its members. -/
theorem spans_set {accepts : α → Bool} {items : List (Regex α)} {start stop : Nat} :
    Spans text (.set accepts :: items) start stop ↔
      text[start]?.any accepts = true ∧ Spans text items (start + 1) stop :=
  spans_cons_of_ways rfl

/-- A word is matched where it stands. -/
theorem spans_wordItems {word : List α} {start stop : Nat} :
    Spans text (wordItems word) start stop ↔
      stop = start + word.length ∧ word <+: text.drop start := by
  induction word generalizing start with
  | nil =>
      constructor
      · rintro ⟨after, here, rfl⟩
        obtain rfl := List.mem_singleton.mp here
        exact ⟨rfl, List.nil_prefix⟩
      · rintro ⟨rfl, _⟩
        exact ⟨_, List.mem_singleton_self _, rfl⟩
  | cons item word inductionHypothesis =>
      have first : item :: word <+: text.drop start ↔
          text[start]?.any (· == item) = true ∧ word <+: text.drop (start + 1) := by
        cases found : text[start]? with
        | none =>
            rw [List.drop_eq_nil_of_le (List.getElem?_eq_none_iff.mp found)]
            simp
        | some other =>
            obtain ⟨inside, rfl⟩ := List.getElem?_eq_some_iff.mp found
            rw [List.drop_eq_getElem_cons inside, List.cons_prefix_cons, Option.any_some,
              beq_iff_eq, eq_comm]
      rw [wordItems, List.map_cons, spans_set, first, ← wordItems, inductionHypothesis,
        List.length_cons]
      constructor
      · rintro ⟨here, atEnd, rest⟩
        exact ⟨by omega, here, rest⟩
      · rintro ⟨atEnd, here, rest⟩
        exact ⟨here, by omega, rest⟩

/-- A search for a word finds its occurrences. -/
theorem search_word_iff {word : List α} :
    (Branches.one (wordItems word)).regex.Search text ↔ word <:+: text := by
  simp only [Branches.search_iff, Branches.exists_mem_all_one, spans_wordItems]
  constructor
  · rintro ⟨start, _, _, _, after, same⟩
    refine ⟨text.take start, after, ?_⟩
    rw [List.append_assoc, same, List.take_append_drop]
  · rintro ⟨before, after, rfl⟩
    refine ⟨before.length, by simp, _, rfl, after, ?_⟩
    rw [List.append_assoc, List.drop_left]

/-- A word alone matches the word. -/
theorem fullMatch_word_iff {word : List α} :
    (Branches.one (wordItems word)).regex.FullMatch text ↔ text = word := by
  rw [Branches.fullMatch_iff, Branches.exists_mem_all_one, spans_wordItems, Nat.zero_add,
    List.drop_zero]
  constructor
  · rintro ⟨length, front⟩
    exact (front.eq_of_length length.symm).symm
  · rintro rfl
    exact ⟨rfl, List.prefix_refl _⟩

end Words

end Matching

end Llamad.Logical
