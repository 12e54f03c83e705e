import Llamad.Chat.Format
import Llamad.Grammar.Pattern

/-!
# Full-match triggers

A trigger that is to match a whole text is stored as a pattern that is searched for, with
an anchor at each end that has none. The anchors are put there by looking at the first and
the last byte, and an anchor joins one alternative of a pattern alone; a last dollar may
stand for itself. What the anchored pattern finds is what `Branches.Loose` says
(`searches_anchored_iff`).
-/

namespace Llamad

open Logical Pattern

/-- The anchors that are added. -/
theorem anchored_eq (pattern : Bytes) :
    anchored pattern = (if pattern.head? = some 0x5E then [] else [0x5E]) ++
      (pattern ++ if pattern.getLast? = some 0x24 then [] else [0x24]) := by
  have caret : literal "^" = [0x5E] := by decide +kernel
  have dollar : literal "$" = [0x24] := by decide +kernel
  have both : literal "^$" = [0x5E, 0x24] := by decide +kernel
  cases pattern with
  | nil => simp [anchored, both]
  | cons byte rest =>
      rw [anchored, if_neg (by simp), caret, dollar, List.append_assoc, ite_not, ite_not]

section Anchored

variable {pattern text : Bytes} {branches : Branches (Regex UInt8)}

/-- Behind a pattern the dollar closes the last alternative, unless the pattern ends in one
that stands for itself. -/
theorem exists_parse_closed (parsed : parse pattern = some branches) :
    ∃ closed, parse (pattern ++ if pattern.getLast? = some 0x24 then [] else [0x24]) =
        some closed ∧
      (closed.Loose False text ↔ branches.Loose (endsInEscapedDollar pattern = false) text) := by
  by_cases dollar : pattern.getLast? = some 0x24
  · rw [if_pos dollar, List.append_nil]
    refine ⟨branches, parsed, ?_⟩
    cases escaped : endsInEscapedDollar pattern with
    | true => rw [eq_false (by simp : ¬ true = false)]
    | false =>
        obtain ⟨front, rfl⟩ := List.getLast?_eq_some_iff.mp dollar
        obtain ⟨inner, rfl⟩ := exists_append_of_dollar parsed escaped
        rw [Branches.loose_append, Branches.loose_append]
  · rw [if_neg dollar]
    refine ⟨_, parse_concat_dollar parsed, ?_⟩
    have unescaped : endsInEscapedDollar pattern = false := by
      simp [endsInEscapedDollar, dollar]
    rw [Branches.loose_append, unescaped, eq_self]

/-- What a search for the anchored pattern finds. -/
theorem searches_anchored_iff (parsed : parse pattern = some branches) :
    Searches (anchored pattern) text ↔
      branches.Loose (endsInEscapedDollar pattern = false) text := by
  obtain ⟨closed, parsedToo, loose⟩ := @exists_parse_closed pattern text branches parsed
  rw [anchored_eq, ← loose]
  by_cases caret : pattern.head? = some 0x5E
  · rw [if_pos caret, List.nil_append, searches_iff parsedToo]
    obtain ⟨rest, rfl⟩ := List.head?_eq_some_iff.mp caret
    rw [List.cons_append, parse_caret] at parsedToo
    obtain ⟨inner, _, rfl⟩ := Option.map_eq_some_iff.mp parsedToo
    rw [Branches.search_prepend_iff, Branches.loose_prepend]
  · rw [if_neg caret, List.singleton_append]
    have parsedAll := parse_caret (pattern ++ if pattern.getLast? = some 0x24 then [] else [0x24])
    rw [parsedToo, Option.map_some] at parsedAll
    rw [searches_iff parsedAll, Branches.search_prepend_iff]

/-- The anchored pattern of a full-match trigger is found in exactly the texts the pattern
matches whole, if and only if the pattern matches every text whole of which its first
alternative matches a beginning, its last one an end, or one between them anything. This is
so for a pattern of one alternative that does not end in an escaped dollar. -/
theorem searches_anchored_iff_matchesWhole (parsed : parse pattern = some branches) :
    ((∀ text, Searches (anchored pattern) text ↔ MatchesWhole pattern text) ↔
      ∀ text, branches.Loose (endsInEscapedDollar pattern = false) text →
        MatchesWhole pattern text) ∧
    (branches.all.length = 1 → endsInEscapedDollar pattern = false →
      ∀ text, Searches (anchored pattern) text ↔ MatchesWhole pattern text) := by
  have finds (text : Bytes) : MatchesWhole pattern text → Searches (anchored pattern) text := by
    intro whole
    rw [searches_anchored_iff parsed]
    exact Branches.loose_of_fullMatch ((matchesWhole_iff parsed).mp whole)
  refine ⟨⟨fun same text loose => ?_, fun tight text => ⟨fun found => ?_, finds text⟩⟩,
    fun single unescaped text => ⟨fun found => ?_, finds text⟩⟩
  · exact (same text).mp ((searches_anchored_iff parsed).mpr loose)
  · exact tight text ((searches_anchored_iff parsed).mp found)
  · rw [searches_anchored_iff parsed, unescaped, eq_self] at found
    cases branches with
    | one items => exact (matchesWhole_iff parsed).mpr (Branches.fullMatch_of_loose found)
    | several first middle last => simp [Branches.all] at single

/-- The pattern `ab` has one alternative: stored as `^ab$`, it is found in `ab` and not in
`abx`. -/
theorem searches_anchored_iff_matchesWhole_ab :
    Searches (anchored (literal "ab")) (literal "ab") ∧
      ¬ Searches (anchored (literal "ab")) (literal "abx") := by
  have word : literal "ab" = [0x61, 0x62] := by decide +kernel
  have longer : literal "abx" = [0x61, 0x62, 0x78] := by decide +kernel
  have found : symbolsOf (literal "ab") =
      some ([0x61, 0x62].map fun byte => .set (.one byte)) := by decide +kernel
  have parsed : parse (literal "ab") = some (.one (wordItems [0x61, 0x62])) := parse_bytes found
  have same := (searches_anchored_iff_matchesWhole parsed).2 rfl (by decide +kernel)
  have whole (text : Bytes) : MatchesWhole (literal "ab") text ↔
      Spans text (wordItems [0x61, 0x62]) 0 text.length := by
    rw [matchesWhole_iff parsed, Branches.fullMatch_iff, Branches.exists_mem_all_one]
  refine ⟨?_, ?_⟩
  · rw [same, whole, word]
    exact spans_wordItems.mpr ⟨rfl, by decide⟩
  · rw [same, whole, longer]
    exact fun spans => absurd (spans_wordItems.mp spans).1 (by decide)

/-- The pattern `a|b` is stored as `^a|b$`, which is found in `ax`. -/
theorem searches_anchored_alternatives :
    (∃ branches, parse (literal "a|b") = some branches) ∧
      anchored (literal "a|b") = literal "^a|b$" ∧
      Searches (anchored (literal "a|b")) (literal "ax") ∧
      ¬ MatchesWhole (literal "a|b") (literal "ax") := by
  have text : literal "ax" = [0x61, 0x78] := by decide +kernel
  have found : symbolsOf (literal "a|b") =
      some [.set (.one 0x61), .bar, .set (.one 0x62)] := by decide +kernel
  have parsed : parse (literal "a|b") =
      some (.several (wordItems [0x61]) [] (wordItems [0x62])) := by
    rw [parse_eq, found, Option.bind_some, wordItems, wordItems, List.map_singleton,
      List.map_singleton, ← ByteSet.accepts_one, ← ByteSet.accepts_one]
    rfl
  refine ⟨⟨_, parsed⟩, by decide +kernel, ?_, ?_⟩
  · rw [searches_anchored_iff parsed, text]
    exact .inl ⟨1, spans_wordItems.mpr ⟨rfl, by decide⟩⟩
  · rw [matchesWhole_iff parsed, text, Branches.fullMatch_iff, Branches.exists_mem_all_several]
    simp only [spans_wordItems]
    rintro (⟨short, _⟩ | ⟨_, ⟨⟩, _⟩ | ⟨short, _⟩)
    · exact absurd short (by decide)
    · exact absurd short (by decide)

end Anchored

end Llamad
