import Llamad.Engine.Contract
import Llamad.Logical.Occurrence
import Mathlib.Order.Bounds.Basic

/-!
# The stream filter

`StreamFilter` stands between the model's pieces and the chunk callback. It holds
back what could still become a character or a stop string and delivers the rest.
The two hold-back lengths and the stop search are specified here once; what the
filter does over whole runs is proved from these specifications alone.
-/

namespace Llamad

open Logical Logical.Utf8 Semantics

/-- The backward scan of `incomplete_utf8_tail`, `k` counting the bytes seen. -/
def incompleteUtf8Tail.scan (k : Nat) : Bytes → Nat
  | [] => 0
  | c :: rest =>
      if isContinuation c then scan (k + 1) rest
      else
        -- An invalid lead byte announces nothing, so it is emitted as it is.
        let need := announced c
        if k < need then k else 0

/-- Number of trailing bytes that form an incomplete UTF-8 sequence. -/
def incompleteUtf8Tail (s : Bytes) : Nat :=
  incompleteUtf8Tail.scan 1 (s.reverse.take 4)

/-- The inner loop of `stop_prefix_holdback`: lengths from `len` down to `best`. -/
def stopPrefixHoldback.longest (pending stop : Bytes) (best : Nat) : (len : Nat) → Nat
  | 0 => best
  | len + 1 =>
      if best < len + 1 then
        if pending.drop (pending.length - (len + 1)) = stop.take (len + 1) then len + 1
        else longest pending stop best len
      else best

/-- Length of the longest suffix of `pending` that is a proper prefix of a stop. -/
def stopPrefixHoldback (pending : Bytes) (stops : List Bytes) : Nat :=
  stops.foldl (fun best stop =>
    if stop.isEmpty then best
    else stopPrefixHoldback.longest pending stop best (min pending.length (stop.length - 1))) 0

/-- Position of the earliest match of any nonempty stop, as `push` computes it. -/
def earliestMatch (stops : List Bytes) (pending : Bytes) : Option Nat :=
  stops.foldl (fun best stop =>
    if stop.isEmpty then best
    else
      match find? stop pending, best with
      | none, best => best
      | some p, none => some p
      | some p, some best => if p < best then some p else some best) none

/-- Buffers generated text on its way to the callback. -/
structure StreamFilter where
  stops : List Bytes
  pending : Bytes := []

namespace StreamFilter

/-- Outcome of delivering one token piece. -/
inductive Status where
  | continue | stopped | cancelled
deriving DecidableEq, Repr

variable {Client : Type}

/-- Deliver nonempty text, treating an empty callback as acceptance. -/
def deliver (onChunk : ChunkCallback Client) (chunk : Bytes) :
    Program (Receiver Client) Exception Bool := fun receiver =>
  if chunk = [] then (.ok true, receiver)
  else
    match onChunk with
    | none => (.ok true, receiver)
    | some callback =>
        match callback chunk receiver.client with
        | (.ok answer, client) =>
            (.ok answer, ⟨client, receiver.deliveries ++ [⟨chunk, some answer⟩]⟩)
        | (.error error, client) =>
            (.error error, ⟨client, receiver.deliveries ++ [⟨chunk, none⟩]⟩)

/-- Buffer a token piece and emit only the prefix safe from UTF-8 and stop splits. -/
def push (onChunk : ChunkCallback Client) (filter : StreamFilter) (piece : Bytes) :
    Program (Receiver Client) Exception (Status × StreamFilter) := do
  let pending := filter.pending ++ piece
  match earliestMatch filter.stops pending with
  | some found =>
      let head := pending.take found
      let out := head.take (head.length - incompleteUtf8Tail head)
      if ← deliver onChunk out then
        return (.stopped, { filter with pending := [] })
      else
        return (.cancelled, { filter with pending := [] })
  | none =>
      let hold := min pending.length
        (max (incompleteUtf8Tail pending) (stopPrefixHoldback pending filter.stops))
      let safe := pending.length - hold
      if 0 < safe then
        if ← deliver onChunk (pending.take safe) then
          return (.continue, { filter with pending := pending.drop safe })
        else
          return (.cancelled, { filter with pending := pending.drop safe })
      else
        return (.continue, { filter with pending := pending })

/-- Deliver a held-back stop prefix that never completed; an incomplete character is
dropped. -/
def flush (onChunk : ChunkCallback Client) (filter : StreamFilter) :
    Program (Receiver Client) Exception StreamFilter := do
  if filter.pending.isEmpty then
    return filter
  else
    let out := filter.pending.take
      (filter.pending.length - incompleteUtf8Tail filter.pending)
    let _ ← deliver onChunk out
    return { filter with pending := [] }

/-- Push pieces in order until one of them ends the generation. -/
def feed (onChunk : ChunkCallback Client) (filter : StreamFilter) :
    List Bytes → Program (Receiver Client) Exception (List Status × StreamFilter)
  | [] => return ([], filter)
  | piece :: rest => do
      let (status, filter) ← push onChunk filter piece
      if status = .continue then
        let (statuses, filter) ← feed onChunk filter rest
        return (status :: statuses, filter)
      else
        return ([status], filter)

/-- A whole generation as the filter sees it: its pieces, then `flush` unless a push
ended it. -/
def drain (onChunk : ChunkCallback Client) (stops : List Bytes) (pieces : List Bytes) :
    Program (Receiver Client) Exception (List Status) := do
  let (statuses, filter) ← feed onChunk { stops := stops } pieces
  if ∀ status ∈ statuses, status = .continue then
    let _ ← flush onChunk filter
    return statuses
  else
    return statuses

end StreamFilter

section Push

open Program

namespace StreamFilter

variable {Client : Type} {onChunk : ChunkCallback Client} {filter : StreamFilter}
  {piece : Bytes}

/-- How much of a buffer without a match `push` lets go. -/
def safe (stops : List Bytes) (buffer : Bytes) : Nat :=
  buffer.length -
    min buffer.length (max (incompleteUtf8Tail buffer) (stopPrefixHoldback buffer stops))

/-- What `push` delivers of the text in front of a match. -/
def beforeMatch (buffer : Bytes) (found : Nat) : Bytes :=
  (buffer.take found).take ((buffer.take found).length - incompleteUtf8Tail (buffer.take found))

/-- What `flush` delivers. -/
def withoutTail (pending : Bytes) : Bytes :=
  pending.take (pending.length - incompleteUtf8Tail pending)

@[simp] theorem deliver_nil (receiver : Receiver Client) :
    deliver onChunk [] receiver = (.ok true, receiver) := by
  simp [deliver]

/-- A chunk that is left out because it is empty is not missed. -/
theorem flatten_append_chunk (chunks : List Bytes) (chunk : Bytes) :
    (chunks ++ if chunk = [] then [] else [chunk]).flatten = chunks.flatten ++ chunk := by
  by_cases empty : chunk = [] <;> simp [empty]

/-- With a match, a push delivers what stands in front of it and ends. -/
theorem push_of_match {found : Nat}
    (here : earliestMatch filter.stops (filter.pending ++ piece) = some found) :
    push onChunk filter piece = (do
      let accepted ← deliver onChunk (beforeMatch (filter.pending ++ piece) found)
      return (if accepted then Status.stopped else Status.cancelled,
        { filter with pending := [] })) := by
  funext receiver
  simp only [push, here, bind_apply, beforeMatch]
  split
  · split <;> simp_all
  · rfl

/-- Without a match, a push delivers what is safe and goes on. -/
theorem push_of_noMatch
    (here : earliestMatch filter.stops (filter.pending ++ piece) = none) :
    push onChunk filter piece = (do
      let accepted ← deliver onChunk
        ((filter.pending ++ piece).take (safe filter.stops (filter.pending ++ piece)))
      return (if accepted then Status.continue else Status.cancelled,
        { filter with pending :=
            (filter.pending ++ piece).drop (safe filter.stops (filter.pending ++ piece)) })) := by
  funext receiver
  simp only [push, here, safe]
  generalize filter.pending ++ piece = buffer
  generalize buffer.length - min buffer.length
    (max (incompleteUtf8Tail buffer) (stopPrefixHoldback buffer filter.stops)) = cut
  by_cases positive : 0 < cut
  · simp only [positive, if_true, bind_apply]
    split
    · split <;> simp_all
    · rfl
  · have zero : cut = 0 := by omega
    simp [zero, bind_apply]

/-- A flush delivers the buffer without the character it stops in. -/
theorem flush_eq :
    flush onChunk filter = (do
      let _ ← deliver onChunk (withoutTail filter.pending)
      return { filter with pending := [] }) := by
  funext receiver
  by_cases empty : filter.pending = []
  · obtain ⟨stops, pending⟩ := filter
    simp only at empty
    subst empty
    simp [flush, withoutTail, bind_apply]
  · simp [flush, empty, withoutTail]

end StreamFilter

end Push

section IncompleteTail

private theorem scan_lead (k : Nat) (continuations rest : Bytes) (lead : UInt8)
    (follow : ∀ byte ∈ continuations, isContinuation byte)
    (leads : isContinuation lead = false) :
    incompleteUtf8Tail.scan k (continuations ++ lead :: rest) =
      if k + continuations.length < announced lead then k + continuations.length else 0 := by
  induction continuations generalizing k with
  | nil => simp [incompleteUtf8Tail.scan, leads]
  | cons byte continuations inductionHypothesis =>
      have continues : isContinuation byte := follow byte (by simp)
      have step := inductionHypothesis (k + 1) (fun other member => follow other (by simp [member]))
      have length : k + 1 + continuations.length = k + (byte :: continuations).length := by
        simp only [List.length_cons]
        omega
      rw [List.cons_append, incompleteUtf8Tail.scan, if_pos continues, step, length]

private theorem scan_continuations (k : Nat) (continuations : Bytes)
    (follow : ∀ byte ∈ continuations, isContinuation byte) :
    incompleteUtf8Tail.scan k continuations = 0 := by
  induction continuations generalizing k with
  | nil => rfl
  | cons byte continuations inductionHypothesis =>
      rw [incompleteUtf8Tail.scan, if_pos (follow byte (by simp))]
      exact inductionHypothesis (k + 1) (fun other member => follow other (by simp [member]))

/-- A byte string ends in continuation bytes after a last byte that is none, unless
it has no other bytes. -/
private theorem split_at_lead (reversed : Bytes) :
    (∀ byte ∈ reversed, isContinuation byte) ∨
      ∃ continuations lead rest, reversed = continuations ++ lead :: rest ∧
        (∀ byte ∈ continuations, isContinuation byte) ∧ isContinuation lead = false := by
  induction reversed with
  | nil => exact .inl (by simp)
  | cons byte reversed inductionHypothesis =>
      by_cases continues : isContinuation byte
      · obtain follow | ⟨continuations, lead, rest, rfl, follow, leads⟩ := inductionHypothesis
        · exact .inl (by simpa [continues] using follow)
        · exact .inr ⟨byte :: continuations, lead, rest, rfl, by simpa [continues] using follow,
            leads⟩
      · exact .inr ⟨[], byte, reversed, rfl, by simp, by simpa using continues⟩

/-- The scan measures a truncated character at the end of the text. -/
theorem incompleteUtf8Tail_of_truncated {front tail : Bytes} (truncated : Truncated tail) :
    incompleteUtf8Tail (front ++ tail) = tail.length := by
  have short := truncated.length_lt_four
  obtain ⟨lead, continuations, rfl, follow, announces⟩ := id truncated
  rw [List.length_cons] at short announces
  have seen : (front ++ lead :: continuations).reverse.take 4 =
      continuations.reverse ++ lead :: front.reverse.take (3 - continuations.length) := by
    have count : 4 - continuations.length = 3 - continuations.length + 1 := by omega
    simp [List.take_append, List.take_of_length_le (show continuations.reverse.length ≤ 4 by
      simp only [List.length_reverse]; omega), count]
  rw [incompleteUtf8Tail, seen, scan_lead 1 _ _ _ (by simpa using follow)
    truncated.head_not_continuation, List.length_reverse, if_pos (by omega), List.length_cons]
  omega

/-- Where the text stops inside no character nothing is held back. -/
theorem incompleteUtf8Tail_of_not_endsTruncated {s : Bytes} (whole : ¬ EndsTruncated s) :
    incompleteUtf8Tail s = 0 := by
  rw [incompleteUtf8Tail]
  obtain follow | ⟨continuations, lead, rest, seen, follow, leads⟩ :=
    split_at_lead (s.reverse.take 4)
  · exact scan_continuations 1 _ follow
  · rw [seen, scan_lead 1 _ _ _ follow leads]
    by_cases short : 1 + continuations.length < announced lead
    · exfalso
      apply whole
      refine ⟨(rest ++ s.reverse.drop 4).reverse, lead :: continuations.reverse, ?_,
        lead, continuations.reverse, rfl, by simpa using follow, ?_⟩
      · have joined := congrArg List.reverse (List.take_append_drop 4 s.reverse)
        rw [seen, List.reverse_reverse] at joined
        simpa using joined.symm
      · simp only [List.length_cons, List.length_reverse]
        omega
    · rw [if_neg short]

/-- The bytes `incomplete_utf8_tail` counts are the truncated character the text ends
in, and there are none where it ends in none. -/
theorem incompleteUtf8Tail_spec (s : Bytes) :
    ∃ front tail, s = front ++ tail ∧ tail.length = incompleteUtf8Tail s ∧
      (Truncated tail ∨ tail = [] ∧ ¬ EndsTruncated s) := by
  by_cases ends : EndsTruncated s
  · obtain ⟨front, tail, rfl, truncated⟩ := ends
    exact ⟨front, tail, rfl, (incompleteUtf8Tail_of_truncated truncated).symm, .inl truncated⟩
  · exact ⟨s, [], by simp, by simp [incompleteUtf8Tail_of_not_endsTruncated ends],
      .inr ⟨rfl, ends⟩⟩

theorem incompleteUtf8Tail_le_length (s : Bytes) : incompleteUtf8Tail s ≤ s.length := by
  obtain ⟨front, tail, same, length, _⟩ := incompleteUtf8Tail_spec s
  have total := congrArg List.length same
  simp only [List.length_append] at total
  omega

end IncompleteTail

section Holdback

/-- Some stop has a proper prefix of length `len` at the end of the text. -/
def StopPrefix (stops : List Bytes) (pending : Bytes) (len : Nat) : Prop :=
  ∃ stop ∈ stops, PartialMatch stop pending len

private theorem longest_spec (pending stop : Bytes) (best len : Nat)
    (fits : len ≤ pending.length) (proper : len < stop.length) :
    let found := stopPrefixHoldback.longest pending stop best len
    best ≤ found ∧ (found = best ∨ PartialMatch stop pending found) ∧
      ∀ other ≤ len, PartialMatch stop pending other → other ≤ found := by
  induction len with
  | zero => exact ⟨Nat.le_refl _, .inl rfl, fun other bound _ => by omega⟩
  | succ len inductionHypothesis =>
      rw [stopPrefixHoldback.longest]
      by_cases longer : best < len + 1
      · rw [if_pos longer]
        have readable : PartialMatch stop pending (len + 1) ↔ _ := PartialMatch.iff_drop fits
        by_cases same : pending.drop (pending.length - (len + 1)) = stop.take (len + 1)
        · rw [if_pos same]
          exact ⟨by omega, .inr (readable.mpr ⟨proper, same⟩), fun other bound _ => bound⟩
        · rw [if_neg same]
          obtain ⟨atLeast, achieved, greatest⟩ := inductionHypothesis (by omega) (by omega)
          refine ⟨atLeast, achieved, fun other bound partialMatch => ?_⟩
          by_cases last : other = len + 1
          · subst last
            exact absurd (readable.mp partialMatch).2 same
          · exact greatest other (by omega) partialMatch
      · rw [if_neg longer]
        exact ⟨Nat.le_refl _, .inl rfl, fun other bound _ => by omega⟩

private theorem holdback_foldl_spec (pending : Bytes) (stops : List Bytes) (start : Nat) :
    let best := stops.foldl (fun best stop =>
      if stop.isEmpty then best
      else stopPrefixHoldback.longest pending stop best (min pending.length (stop.length - 1)))
      start
    start ≤ best ∧ (best = start ∨ StopPrefix stops pending best) ∧
      ∀ len, StopPrefix stops pending len → len ≤ best := by
  induction stops generalizing start with
  | nil => exact ⟨Nat.le_refl _, .inl rfl, fun len found => by simp [StopPrefix] at found⟩
  | cons stop stops inductionHypothesis =>
      rw [List.foldl_cons]
      obtain ⟨atLeast, achieved, greatest⟩ := inductionHypothesis
        (if stop.isEmpty then start
          else stopPrefixHoldback.longest pending stop start
            (min pending.length (stop.length - 1)))
      by_cases empty : stop = []
      · subst empty
        refine ⟨atLeast, achieved.imp id fun ⟨other, member, found⟩ =>
          ⟨other, by simp [member], found⟩, ?_⟩
        rintro len ⟨other, member, found⟩
        obtain rfl | member := List.mem_cons.mp member
        · exact absurd found.1 (by simp)
        · exact greatest len ⟨other, member, found⟩
      · have positive := List.length_pos_iff.mpr empty
        simp only [List.isEmpty_iff, empty, if_false] at atLeast achieved greatest ⊢
        obtain ⟨atLeast', achieved', greatest'⟩ := longest_spec pending stop start
          (min pending.length (stop.length - 1)) (by omega) (by omega)
        refine ⟨Nat.le_trans atLeast' atLeast, ?_, ?_⟩
        · obtain best | ⟨other, member, found⟩ := achieved
          · rw [best]
            exact achieved'.imp id fun found => ⟨stop, by simp, found⟩
          · exact .inr ⟨other, by simp [member], found⟩
        · rintro len ⟨other, member, found⟩
          obtain rfl | member := List.mem_cons.mp member
          · have bound := found.le_length
            have proper := found.1
            exact Nat.le_trans (greatest' len (by omega) found) atLeast
          · exact greatest len ⟨other, member, found⟩

/-- No stop prefix at the end of the buffer is longer than what is held back. -/
theorem StopPrefix.le_holdback {stops : List Bytes} {pending : Bytes} {len : Nat}
    (found : StopPrefix stops pending len) : len ≤ stopPrefixHoldback pending stops :=
  (holdback_foldl_spec pending stops 0).2.2 len found

/-- What is held back is a stop prefix. -/
theorem stopPrefix_holdback {pending : Bytes} {stops : List Bytes}
    (positive : 0 < stopPrefixHoldback pending stops) :
    StopPrefix stops pending (stopPrefixHoldback pending stops) := by
  obtain zero | found := (holdback_foldl_spec pending stops 0).2.1
  · rw [stopPrefixHoldback, zero] at positive
    exact absurd positive (Nat.lt_irrefl 0)
  · exact found

theorem stopPrefixHoldback_le_length (pending : Bytes) (stops : List Bytes) :
    stopPrefixHoldback pending stops ≤ pending.length := by
  by_cases positive : 0 < stopPrefixHoldback pending stops
  · obtain ⟨stop, _, found⟩ := stopPrefix_holdback positive
    exact found.le_length
  · omega

end Holdback

section Match

/-- A nonempty stop stands at this position of the text. -/
def StopAt (stops : List Bytes) (pending : Bytes) (start : Nat) : Prop :=
  ∃ stop ∈ stops, stop ≠ [] ∧ OccursAt stop pending start

theorem StopAt.append {stops : List Bytes} {pending : Bytes} {start : Nat}
    (stopAt : StopAt stops pending start) (more : Bytes) :
    StopAt stops (pending ++ more) start := by
  obtain ⟨stop, member, nonempty, occurs⟩ := stopAt
  exact ⟨stop, member, nonempty, occurs.append more⟩

/-- The option holds the least position with a property, or there is none. -/
private def Least (found : Option Nat) (position : Nat → Prop) : Prop :=
  match found with
  | some start => position start ∧ ∀ other, position other → start ≤ other
  | none => ∀ other, ¬ position other

private theorem least_find? (stop pending : Bytes) :
    Least (find? stop pending) (OccursAt stop pending) := by
  cases found : find? stop pending with
  | none => exact find?_eq_none_iff.mp found
  | some start => exact find?_eq_some_iff.mp found

private theorem earliest_foldl_spec (pending : Bytes) (stops : List Bytes)
    (start : Option Nat) (before : Nat → Prop) (least : Least start before) :
    Least (stops.foldl (fun best stop =>
      if stop.isEmpty then best
      else
        match find? stop pending, best with
        | none, best => best
        | some p, none => some p
        | some p, some best => if p < best then some p else some best) start)
      (fun position => before position ∨ StopAt stops pending position) := by
  induction stops generalizing start before with
  | nil => simpa [StopAt] using least
  | cons stop stops inductionHypothesis =>
      rw [List.foldl_cons]
      have regroup : (fun position => before position ∨ StopAt (stop :: stops) pending position) =
          fun position => (before position ∨ stop ≠ [] ∧ OccursAt stop pending position) ∨
            StopAt stops pending position := by
        funext position
        simp only [StopAt, List.mem_cons, exists_eq_or_imp, or_assoc]
      rw [regroup]
      apply inductionHypothesis
      by_cases empty : stop = []
      · simpa [empty] using least
      · simp only [List.isEmpty_iff, empty, if_false, ne_eq, not_false_eq_true, true_and]
        have found := least_find? stop pending
        cases here : find? stop pending with
        | none =>
            rw [here] at found
            cases start with
            | none =>
                rintro other (holds | holds)
                · exact least other holds
                · exact found other holds
            | some best =>
                refine ⟨.inl least.1, ?_⟩
                rintro other (holds | holds)
                · exact least.2 other holds
                · exact absurd holds (found other)
        | some p =>
            rw [here] at found
            cases start with
            | none =>
                refine ⟨.inr found.1, ?_⟩
                rintro other (holds | holds)
                · exact absurd holds (least other)
                · exact found.2 other holds
            | some best =>
                by_cases earlier : p < best
                · simp only [earlier, if_true]
                  refine ⟨.inr found.1, ?_⟩
                  rintro other (holds | holds)
                  · exact Nat.le_trans (Nat.le_of_lt earlier) (least.2 other holds)
                  · exact found.2 other holds
                · simp only [earlier, if_false]
                  refine ⟨.inl least.1, ?_⟩
                  rintro other (holds | holds)
                  · exact least.2 other holds
                  · exact Nat.le_trans (Nat.le_of_not_lt earlier) (found.2 other holds)

/-- The match `push` acts on is the earliest start of any stop in the buffer. -/
theorem earliestMatch_eq_some_iff {stops : List Bytes} {pending : Bytes} {start : Nat} :
    earliestMatch stops pending = some start ↔
      StopAt stops pending start ∧ ∀ other, StopAt stops pending other → start ≤ other := by
  have spec := earliest_foldl_spec pending stops none (fun _ => False) (fun _ => id)
  simp only [false_or] at spec
  change Least (earliestMatch stops pending) _ at spec
  constructor
  · intro found
    rw [found] at spec
    exact spec
  · rintro ⟨stopAt, least⟩
    cases found : earliestMatch stops pending with
    | none =>
        rw [found] at spec
        exact absurd stopAt (spec start)
    | some other =>
        rw [found] at spec
        exact congrArg some (Nat.le_antisymm (spec.2 start stopAt) (least other spec.1))

theorem earliestMatch_eq_none_iff {stops : List Bytes} {pending : Bytes} :
    earliestMatch stops pending = none ↔ ∀ start, ¬ StopAt stops pending start := by
  have spec := earliest_foldl_spec pending stops none (fun _ => False) (fun _ => id)
  simp only [false_or] at spec
  change Least (earliestMatch stops pending) _ at spec
  constructor
  · intro missing
    rw [missing] at spec
    exact spec
  · intro absent
    cases found : earliestMatch stops pending with
    | none => rfl
    | some start =>
        rw [found] at spec
        exact absurd spec.1 (absent start)

/-- A text with a stop in it has an earliest start of one. -/
theorem exists_isLeast_stopAt {stops : List Bytes} {text : Bytes}
    (present : ∃ start, StopAt stops text start) :
    ∃ start, IsLeast {start | StopAt stops text start} start := by
  cases found : earliestMatch stops text with
  | none =>
      obtain ⟨start, stopAt⟩ := present
      exact absurd stopAt (earliestMatch_eq_none_iff.mp found start)
  | some start =>
      obtain ⟨stopAt, least⟩ := earliestMatch_eq_some_iff.mp found
      exact ⟨start, stopAt, fun other => least other⟩

end Match

end Llamad
