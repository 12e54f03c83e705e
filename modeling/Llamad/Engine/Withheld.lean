import Llamad.Engine.ChunkBoundary

/-!
# What the stream filter withholds

The two hold-back lengths told exactly, and what they come to over a run: a filter that
goes on has withheld the longest undecided suffix of all the text so far, although it only
ever looks at its buffer.
-/

namespace Llamad

open Logical Logical.Utf8 Semantics Program

section Exact

/-- The last `len` bytes are all that a text needs to lose to be whole characters: they are
one unfinished character, or none. -/
structure Utf8Cut (s : Bytes) (len : Nat) : Prop where
  short : len ≤ 3
  inside : len ≤ s.length
  whole : Valid (s.take (s.length - len))
  unfinished : len = 0 ∨ CharPrefix (s.drop (s.length - len))

theorem Utf8Cut.of_append {front tail : Bytes} (whole : Valid front)
    (unfinished : tail = [] ∨ CharPrefix tail) : Utf8Cut (front ++ tail) tail.length := by
  have start : (front ++ tail).length - tail.length = front.length := by
    rw [List.length_append, Nat.add_sub_cancel]
  refine ⟨?_, ?_, ?_, ?_⟩
  · obtain rfl | charPrefix := unfinished
    · exact Nat.zero_le 3
    · exact Nat.le_of_lt_succ charPrefix.truncated.length_lt_four
  · rw [List.length_append]
    exact Nat.le_add_left _ _
  · rwa [start, List.take_left]
  · rw [start, List.drop_left]
    exact unfinished.imp (fun empty => by rw [empty, List.length_nil]) id

/-- A text is cut in one place only, the one `incomplete_utf8_tail` finds. -/
theorem Utf8Cut.eq_incompleteUtf8Tail {s : Bytes} {len : Nat} (cut : Utf8Cut s len) :
    len = incompleteUtf8Tail s := by
  have same := List.take_append_drop (s.length - len) s
  have length : (s.drop (s.length - len)).length = len := by
    have inside := cut.inside
    rw [List.length_drop]
    omega
  obtain rfl | charPrefix := cut.unfinished
  · have whole := cut.whole
    rw [Nat.sub_zero, List.take_length] at whole
    rw [incompleteUtf8Tail_of_not_endsTruncated whole.not_endsTruncated]
  · rw [← same, incompleteUtf8Tail_of_truncated charPrefix.truncated, length]

/-- On a text that can become valid `incomplete_utf8_tail` finds the one cut that leaves whole
characters in front of an unfinished one. On any other bytes it counts a lead byte with too
few continuation bytes behind it, or nothing. -/
theorem incompleteUtf8Tail_exact (s : Bytes) :
    (ValidPrefix s → ∀ len, Utf8Cut s len ↔ len = incompleteUtf8Tail s) ∧
      (Valid s → incompleteUtf8Tail s = 0) ∧
      incompleteUtf8Tail s ≤ 3 ∧ incompleteUtf8Tail s ≤ s.length ∧
      (0 < incompleteUtf8Tail s → Truncated (s.drop (s.length - incompleteUtf8Tail s))) := by
  refine ⟨fun prefixed len => ⟨Utf8Cut.eq_incompleteUtf8Tail, ?_⟩,
    fun valid => incompleteUtf8Tail_of_not_endsTruncated valid.not_endsTruncated, ?_⟩
  · rintro rfl
    obtain ⟨front, tail, rfl, whole, unfinished⟩ := prefixed.split
    have cut := Utf8Cut.of_append whole unfinished
    rwa [← cut.eq_incompleteUtf8Tail]
  · obtain ⟨front, tail, rfl, length, truncated | ⟨rfl, _⟩⟩ := incompleteUtf8Tail_spec s
    · rw [← length, List.length_append, Nat.add_sub_cancel, List.drop_left]
      exact ⟨Nat.le_of_lt_succ truncated.length_lt_four, Nat.le_add_left _ _, fun _ => truncated⟩
    · rw [← length]
      exact ⟨Nat.zero_le _, Nat.zero_le _, fun positive => absurd positive (Nat.lt_irrefl 0)⟩

/-- The first two bytes of a euro sign behind an `a` are cut off. -/
theorem incompleteUtf8Tail_exact_euro : Utf8Cut [0x61, 0xE2, 0x82] 2 := by
  have prefixed : ValidPrefix [0x61, 0xE2, 0x82] := ⟨[0xAC], ['a', '€'], rfl⟩
  exact ((incompleteUtf8Tail_exact _).1 prefixed 2).mpr rfl

theorem StopPrefix.of_subset {stops others : List Bytes} {buffer : Bytes} {len : Nat}
    (found : StopPrefix stops buffer len) (subset : stops ⊆ others) :
    StopPrefix others buffer len := by
  obtain ⟨stop, member, partialMatch⟩ := found
  exact ⟨stop, subset member, partialMatch⟩

/-- What is held back is the longest stop prefix, when there is one. -/
theorem isGreatest_stopPrefix {buffer : Bytes} {stops : List Bytes}
    (some : ∃ len, StopPrefix stops buffer len) :
    IsGreatest {len | StopPrefix stops buffer len} (stopPrefixHoldback buffer stops) := by
  refine ⟨?_, fun len found => found.le_holdback⟩
  by_cases positive : 0 < stopPrefixHoldback buffer stops
  · exact stopPrefix_holdback positive
  · obtain ⟨len, found⟩ := some
    have zero : len = stopPrefixHoldback buffer stops := by
      have bound := found.le_holdback
      omega
    exact zero ▸ found

theorem stopPrefixHoldback_eq_zero {buffer : Bytes} {stops : List Bytes}
    (none : ¬ ∃ len, StopPrefix stops buffer len) : stopPrefixHoldback buffer stops = 0 := by
  by_contra nonzero
  exact none ⟨_, stopPrefix_holdback (Nat.pos_of_ne_zero nonzero)⟩

/-- `stop_prefix_holdback` is the greatest length at which the end of the buffer is a proper
beginning of a stop, whatever the order of the stops. -/
theorem stopPrefixHoldback_exact (buffer : Bytes) (stops : List Bytes) :
    ((∃ len, StopPrefix stops buffer len) →
        IsGreatest {len | StopPrefix stops buffer len} (stopPrefixHoldback buffer stops)) ∧
      ((¬ ∃ len, StopPrefix stops buffer len) → stopPrefixHoldback buffer stops = 0) ∧
      ∀ reordered, reordered.Perm stops →
        stopPrefixHoldback buffer reordered = stopPrefixHoldback buffer stops := by
  refine ⟨isGreatest_stopPrefix, stopPrefixHoldback_eq_zero, fun reordered permuted => ?_⟩
  have same : {len | StopPrefix reordered buffer len} = {len | StopPrefix stops buffer len} := by
    ext len
    exact ⟨fun found => found.of_subset permuted.subset,
      fun found => found.of_subset permuted.symm.subset⟩
  by_cases some : ∃ len, StopPrefix stops buffer len
  · obtain ⟨len, found⟩ := id some
    have greatest := isGreatest_stopPrefix ⟨len, found.of_subset permuted.symm.subset⟩
    rw [same] at greatest
    exact greatest.unique (isGreatest_stopPrefix some)
  · rw [stopPrefixHoldback_eq_zero some]
    refine stopPrefixHoldback_eq_zero fun other => some ?_
    obtain ⟨len, found⟩ := other
    exact ⟨len, found.of_subset permuted.subset⟩

/-- Two stops that begin alike, in both orders. -/
theorem stopPrefixHoldback_exact_pair :
    stopPrefixHoldback [1, 2, 3] [[3, 4], [2, 3, 4]] =
      stopPrefixHoldback [1, 2, 3] [[2, 3, 4], [3, 4]] :=
  (stopPrefixHoldback_exact _ _).2.2 _ (List.Perm.swap _ _ _)

end Exact

namespace StreamFilter

variable {Client : Type} {callback : Bytes → Program Client Exception Bool}
  {stops chunks : List Bytes} {generated pending piece text front : Bytes} {len : Nat}

section Suffixes

theorem Undecided.le_length (undecided : Undecided stops text len) : len ≤ text.length := by
  obtain rfl | ⟨stop, _, found⟩ | ⟨front, tail, rfl, rfl, _⟩ := undecided
  · exact Nat.zero_le _
  · exact found.le_length
  · rw [List.length_append]
    exact Nat.le_add_left _ _

theorem undecided_iff_drop (short : len ≤ text.length) :
    Undecided stops text len ↔
      len = 0 ∨ StopPrefix stops text len ∨ Truncated (text.drop (text.length - len)) := by
  refine or_congr_right (or_congr_right ⟨?_, fun truncated => ?_⟩)
  · rintro ⟨front, tail, rfl, rfl, truncated⟩
    rwa [List.length_append, Nat.add_sub_cancel, List.drop_left]
  · refine ⟨_, _, (List.take_append_drop _ _).symm, ?_, truncated⟩
    rw [List.length_drop]
    omega

/-- Whether a suffix is undecided does not depend on what stands in front of it. -/
theorem undecided_append_left_iff (short : len ≤ text.length) :
    Undecided stops (front ++ text) len ↔ Undecided stops text len := by
  have total : len ≤ (front ++ text).length := by
    rw [List.length_append]
    omega
  have start : (front ++ text).length - len = front.length + (text.length - len) := by
    rw [List.length_append]
    omega
  have stopPrefix : StopPrefix stops (front ++ text) len ↔ StopPrefix stops text len :=
    exists_congr fun stop => and_congr_right fun _ => PartialMatch.append_left_iff short
  rw [undecided_iff_drop total, undecided_iff_drop short, start, List.drop_length_add_append,
    stopPrefix]

/-- An undecided suffix that reaches back past the newest piece was undecided before it. -/
theorem Undecided.of_append (undecided : Undecided stops (text ++ piece) len)
    (reaches : piece.length < len) : Undecided stops text (len - piece.length) := by
  have total := undecided.le_length
  rw [List.length_append] at total
  obtain rfl | ⟨stop, member, found⟩ | ⟨front, tail, same, rfl, truncated⟩ := undecided
  · exact .inl (Nat.zero_sub _)
  · exact .inr (.inl ⟨stop, member, found.of_append (Nat.le_of_lt reaches)⟩)
  · obtain ⟨middle, -, rfl⟩ | ⟨middle, rfl, rfl⟩ := List.append_eq_append_iff.mp same
    · rw [List.length_append] at reaches
      omega
    · rw [List.length_append] at reaches ⊢
      have nonempty : middle ≠ [] := by
        apply List.ne_nil_of_length_pos
        omega
      exact .inr (.inr ⟨front, middle, rfl, by omega, truncated.of_append nonempty⟩)

end Suffixes

/-- The invariant of a filter that goes on: everything is delivered or pending, and the longest
undecided suffix of all the text is pending. -/
structure HoldsUndecided (stops : List Bytes) (generated : Bytes) (chunks : List Bytes)
    (pending : Bytes) : Prop where
  joined : chunks.flatten ++ pending = generated
  longest : IsGreatest {len | Undecided stops generated len} pending.length

theorem HoldsUndecided.initial (stops : List Bytes) : HoldsUndecided stops [] [] [] where
  joined := rfl
  longest := ⟨.inl rfl, fun _ undecided => undecided.le_length⟩

/-- Of the grown text exactly the undecided suffixes of the buffer are undecided. -/
theorem HoldsUndecided.undecided_iff (withholds : HoldsUndecided stops generated chunks pending) :
    Undecided stops (generated ++ piece) len ↔ Undecided stops (pending ++ piece) len := by
  have regroup : generated ++ piece = chunks.flatten ++ (pending ++ piece) := by
    rw [← withholds.joined, List.append_assoc]
  constructor
  · intro undecided
    have short : len ≤ (pending ++ piece).length := by
      rw [List.length_append]
      by_cases reaches : piece.length < len
      · have bound := withholds.longest.2 (undecided.of_append reaches)
        omega
      · omega
    rw [regroup] at undecided
    exact (undecided_append_left_iff short).mp undecided
  · intro undecided
    rw [regroup]
    exact (undecided_append_left_iff undecided.le_length).mpr undecided

variable {filter after : StreamFilter} {receiver last : Receiver Client} {statuses : List Status}

/-- A push that goes on keeps the invariant for the grown text. -/
theorem HoldsUndecided.push
    (withholds : HoldsUndecided filter.stops generated receiver.chunks filter.pending)
    (pushed : push (some callback) filter piece receiver = (.ok (.continue, after), last)) :
    after.stops = filter.stops ∧
      HoldsUndecided after.stops (generated ++ piece) last.chunks after.pending := by
  rw [push_eq, bind_eq_ok_iff] at pushed
  obtain ⟨accepted, middle, delivered, returned⟩ := pushed
  cases found : earliestMatch filter.stops (filter.pending ++ piece) with
  | some start =>
      cases accepted <;> simp [found] at returned
  | none =>
      cases accepted with
      | false => simp at returned
      | true =>
          simp only [found, if_true, pure_apply] at returned
          cases returned
          have chunks := @deliver_chunks _ (some callback)
            (passed filter.stops (filter.pending ++ piece)) receiver
          simp only [delivered, Option.isNone_some, Bool.false_eq_true, or_false] at chunks
          have whole : passed filter.stops (filter.pending ++ piece) ++
              kept filter.stops (filter.pending ++ piece) = filter.pending ++ piece := by
            simp only [passed, kept, found, List.take_append_drop]
          refine ⟨rfl, ?_, ?_⟩
          · rw [chunks, flatten_append_chunk, List.append_assoc, whole, ← List.append_assoc,
              withholds.joined]
          · have greatest := isGreatest_undecided filter.stops (filter.pending ++ piece)
            simp only [withholds.undecided_iff, kept, found, List.length_drop]
            exact greatest

/-- Pushes that all go on keep the invariant for all their text. -/
theorem HoldsUndecided.feed
    (withholds : HoldsUndecided filter.stops generated receiver.chunks filter.pending)
    {pieces : List Bytes}
    (fed : feed (some callback) filter pieces receiver = (.ok (statuses, after), last))
    (went : ∀ status ∈ statuses, status = .continue) :
    HoldsUndecided filter.stops (generated ++ pieces.flatten) last.chunks after.pending := by
  induction pieces generalizing filter generated receiver statuses with
  | nil =>
      cases fed
      simpa using withholds
  | cons piece pieces inductionHypothesis =>
      rw [StreamFilter.feed, bind_eq_ok_iff] at fed
      obtain ⟨⟨status, next⟩, middle, pushed, fed⟩ := fed
      by_cases goesOn : status = .continue
      · simp only [if_pos goesOn, bind_eq_ok_iff] at fed
        obtain ⟨⟨others, ended⟩, final, rest, returned⟩ := fed
        cases returned
        subst goesOn
        obtain ⟨same, stillHolds⟩ := withholds.push pushed
        rw [List.flatten_cons, ← List.append_assoc, ← same]
        exact inductionHypothesis stillHolds rest (List.forall_mem_of_forall_mem_cons went)
      · simp only [if_neg goesOn] at fed
        cases fed
        exact absurd (went status (List.mem_singleton_self _)) goesOn

/-- Every push of these pieces returned `continue`; by then the text `delivered` was handed to
the callback, and `pending` is withheld. -/
def GoesOn (callback : Bytes → Program Client Exception Bool) (stops pieces : List Bytes)
    (client : Client) (delivered pending : Bytes) : Prop :=
  ∃ statuses after last,
    StreamFilter.feed (some callback) { stops := stops } pieces ⟨client, []⟩ =
        (.ok (statuses, after), last) ∧
      (∀ status ∈ statuses, status = .continue) ∧
        delivered = last.chunks.flatten ∧ pending = after.pending

/-- Length of the longest stop. -/
def longestStop (stops : List Bytes) : Nat := (stops.map List.length).foldr max 0

theorem length_le_longestStop {stop : Bytes} (member : stop ∈ stops) :
    stop.length ≤ longestStop stops := by
  induction stops with
  | nil => cases member
  | cons first stops inductionHypothesis =>
      obtain rfl | member := List.mem_cons.mp member
      · exact Nat.le_max_left _ _
      · exact Nat.le_trans (inductionHypothesis member) (Nat.le_max_right _ _)

/-- An undecided suffix is shorter than a character or than a stop. -/
theorem Undecided.le_longest (undecided : Undecided stops text len) :
    len ≤ max 3 (longestStop stops - 1) := by
  obtain rfl | ⟨stop, member, proper, _⟩ | ⟨front, tail, _, rfl, truncated⟩ := undecided
  · exact Nat.zero_le _
  · have bound := length_le_longestStop member
    omega
  · have bound := truncated.length_lt_four
    omega

theorem GoesOn.withholds {pieces : List Bytes} {client : Client} {delivered : Bytes}
    (ran : GoesOn callback stops pieces client delivered pending) :
    delivered ++ pending = pieces.flatten ∧
      IsGreatest {len | Undecided stops pieces.flatten len} pending.length := by
  obtain ⟨statuses, after, last, fed, went, rfl, rfl⟩ := ran
  have start : HoldsUndecided ({ stops := stops } : StreamFilter).stops []
      (⟨client, []⟩ : Receiver Client).chunks ({ stops := stops } : StreamFilter).pending :=
    HoldsUndecided.initial stops
  have holds := start.feed fed went
  exact ⟨holds.joined, holds.longest⟩

/-- After pushes that all went on, exactly the longest suffix of their text is withheld that is
a truncated character or a proper beginning of a stop, wherever the text was cut into pieces. -/
theorem goesOn_withholds {pieces : List Bytes} {client : Client} {delivered : Bytes}
    (ran : GoesOn callback stops pieces client delivered pending) :
    delivered ++ pending = pieces.flatten ∧
      IsGreatest {len | Undecided stops pieces.flatten len} pending.length ∧
      pending.length ≤ max 3 (longestStop stops - 1) ∧
      ∀ {Other : Type} {receives : Bytes → Program Other Exception Bool} {cut : List Bytes}
        {other : Other} {received withheld : Bytes},
        GoesOn receives stops cut other received withheld → cut.flatten = pieces.flatten →
          received = delivered ∧ withheld = pending := by
  obtain ⟨joined, longest⟩ := ran.withholds
  refine ⟨joined, longest, longest.1.le_longest, fun {_ _ _ _ _ _} second same => ?_⟩
  obtain ⟨joinedSecond, longestSecond⟩ := second.withholds
  rw [same] at joinedSecond longestSecond
  exact List.append_inj' (joinedSecond.trans joined.symm) (longestSecond.unique longest)

/-- "aé" and a line feed, cut inside the character and cut into single bytes: the line feed
is withheld while it may still become the stop of two. -/
theorem goesOn_withholds_pair :
    let receives := fun _ => (pure true : Program Unit Exception Bool)
    GoesOn receives [[0x0A, 0x0A]] [[0x61, 0xC3], [0xA9, 0x0A]] () [0x61, 0xC3, 0xA9] [0x0A] ∧
      [0x0A].length ≤ max 3 (longestStop [[0x0A, 0x0A]] - 1) ∧
      ∃ received withheld,
        GoesOn receives [[0x0A, 0x0A]] [[0x61], [0xC3], [], [0xA9], [0x0A]] () received withheld ∧
          received = [0x61, 0xC3, 0xA9] ∧ withheld = [0x0A] := by
  intro receives
  have ran : GoesOn receives [[0x0A, 0x0A]] [[0x61, 0xC3], [0xA9, 0x0A]] ()
      [0x61, 0xC3, 0xA9] [0x0A] :=
    ⟨_, _, _, rfl, by decide, rfl, rfl⟩
  have again : GoesOn receives [[0x0A, 0x0A]] [[0x61], [0xC3], [], [0xA9], [0x0A]] () _ _ :=
    ⟨_, _, _, rfl, by decide, rfl, rfl⟩
  obtain ⟨_, _, bounded, agrees⟩ := goesOn_withholds ran
  exact ⟨ran, bounded, _, _, again, agrees again rfl⟩

end StreamFilter

end Llamad
