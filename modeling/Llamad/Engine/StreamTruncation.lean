import Llamad.Engine.StreamFilter

/-!
# The stream filter truncates at the first stop

What the filter delivers piece by piece is compared with cutting the whole text at
once. `Held` is the invariant of a run that goes on: everything is delivered or
pending, and whatever could start a stop is pending. `push_continue` and
`push_stopped` are the two things a push can do, and `feed_continue` and
`feed_stopped` carry them over any pieces.
-/

namespace Llamad.StreamFilter

open Logical Logical.Utf8 Semantics Program

variable {Client : Type}

/-- A callback that never declines and never throws. -/
def Accepts (callback : Bytes → Program Client Exception Bool) : Prop :=
  ∀ chunk client, (callback chunk client).1 = .ok true

/-- No stop begins in the middle of a character. Every valid UTF-8 string qualifies. -/
def StopsLead (stops : List Bytes) : Prop :=
  ∀ stop ∈ stops, ∀ byte rest, stop = byte :: rest → isContinuation byte = false

theorem stopsLead_of_valid {stops : List Bytes} (valid : ∀ stop ∈ stops, Valid stop) :
    StopsLead stops := by
  rintro _ member byte rest rfl
  obtain ⟨chars, encoded⟩ := valid _ member
  cases chars with
  | nil => cases encoded
  | cons char chars =>
      obtain ⟨lead, continuations, shape, length, _⟩ := encodeChar_shape char
      rw [List.flatMap_cons, shape] at encoded
      obtain ⟨rfl, -⟩ := List.cons.inj encoded
      by_contra continues
      rw [announced_eq_zero_of_isContinuation byte (by simpa using continues)] at length
      omega

/-- The invariant of a generation that has read `generated` and goes on. -/
structure Held (stops : List Bytes) (generated : Bytes) (chunks : List Bytes)
    (pending : Bytes) : Prop where
  joined : chunks.flatten ++ pending = generated
  noStop : ∀ start, ¬ StopAt stops generated start
  withheld : ∀ len, StopPrefix stops generated len → len ≤ pending.length
  whole : ∀ chunk ∈ chunks, chunk ≠ [] ∧ Valid chunk

theorem Held.initial (stops : List Bytes) : Held stops [] [] [] where
  joined := rfl
  noStop := by
    rintro start ⟨stop, _, nonempty, occurs⟩
    have bound := occurs.end_le
    have positive := List.length_pos_iff.mpr nonempty
    simp only [List.length_nil] at bound
    omega
  withheld := by
    rintro len ⟨stop, _, found⟩
    exact found.le_length
  whole := by simp

theorem valid_flatten {chunks : List Bytes} (whole : ∀ chunk ∈ chunks, chunk ≠ [] ∧ Valid chunk) :
    Valid chunks.flatten := by
  induction chunks with
  | nil => exact Valid.nil
  | cons chunk chunks inductionHypothesis =>
      rw [List.flatten_cons]
      exact (whole chunk (by simp)).2.append
        (inductionHypothesis fun other member => whole other (by simp [member]))

namespace Held

variable {stops chunks : List Bytes} {generated pending piece : Bytes}

/-- The buffer a push searches can still become whole characters. -/
theorem validPrefix_buffer (held : Held stops generated chunks pending)
    (prefixed : ValidPrefix (generated ++ piece)) : ValidPrefix (pending ++ piece) := by
  obtain ⟨rest, valid⟩ := prefixed
  refine ⟨rest, (valid_flatten held.whole).cancel_left ?_⟩
  rw [← held.joined] at valid
  simpa using valid

/-- No stop of the grown text starts in what was delivered, so searching the buffer
misses none. -/
theorem stopAt_iff (held : Held stops generated chunks pending) {start : Nat} :
    StopAt stops (generated ++ piece) start ↔
      chunks.flatten.length ≤ start ∧
        StopAt stops (pending ++ piece) (start - chunks.flatten.length) := by
  have regroup : generated ++ piece = chunks.flatten ++ (pending ++ piece) := by
    rw [← held.joined, List.append_assoc]
  have total := congrArg List.length held.joined
  rw [List.length_append] at total
  constructor
  · rintro ⟨stop, member, nonempty, occurs⟩
    have later : chunks.flatten.length ≤ start := by
      obtain old | ⟨beyond, partialMatch⟩ := occurs.of_append
      · exact absurd ⟨stop, member, nonempty, old⟩ (held.noStop start)
      · by_cases inside : start ≤ generated.length
        · have bound := held.withheld _ ⟨stop, member, partialMatch inside⟩
          omega
        · omega
    refine ⟨later, stop, member, nonempty, ?_⟩
    rw [regroup] at occurs
    exact occurs.of_prepend later
  · rintro ⟨later, stop, member, nonempty, occurs⟩
    refine ⟨stop, member, nonempty, ?_⟩
    rw [regroup, ← Nat.add_sub_of_le later]
    exact occurs.prepend chunks.flatten

/-- A stop prefix at the end of the grown text lies in the buffer. -/
theorem stopPrefix_buffer (held : Held stops generated chunks pending) {len : Nat}
    (found : StopPrefix stops (generated ++ piece) len) :
    StopPrefix stops (pending ++ piece) len := by
  obtain ⟨stop, member, partialMatch⟩ := found
  have short : len ≤ (pending ++ piece).length := by
    rw [List.length_append]
    by_cases reaches : piece.length ≤ len
    · have bound := held.withheld _ ⟨stop, member, partialMatch.of_append reaches⟩
      omega
    · omega
  refine ⟨stop, member, ?_⟩
  rw [← held.joined, List.append_assoc] at partialMatch
  exact (PartialMatch.append_left_iff short).mp partialMatch

end Held

/-- Where a stop starts in a text that can become whole characters, whole characters
end. -/
theorem valid_before_stop {stops : List Bytes} {buffer : Bytes} {start : Nat}
    (leads : StopsLead stops) (prefixed : ValidPrefix buffer)
    (stopAt : StopAt stops buffer start) : Valid (buffer.take start) := by
  obtain ⟨stop, member, nonempty, before, after, rfl, rfl⟩ := stopAt
  obtain ⟨byte, rest, rfl⟩ := List.exists_cons_of_ne_nil nonempty
  have split : before ++ byte :: rest ++ after = before ++ byte :: (rest ++ after) := by simp
  rw [split] at prefixed ⊢
  rw [List.take_left]
  exact prefixed.valid_front (leads _ member byte rest rfl)

/-- What a push without a match lets go ends with a whole character. -/
theorem valid_safe {stops : List Bytes} {buffer : Bytes} (leads : StopsLead stops)
    (prefixed : ValidPrefix buffer) :
    Valid (buffer.take (safe stops buffer)) := by
  have tailShort := incompleteUtf8Tail_le_length buffer
  have stopShort := stopPrefixHoldback_le_length buffer stops
  rw [safe, Nat.min_eq_right (Nat.max_le.mpr ⟨tailShort, stopShort⟩)]
  by_cases longer : incompleteUtf8Tail buffer < stopPrefixHoldback buffer stops
  · rw [Nat.max_eq_right (Nat.le_of_lt longer)]
    have positive : 0 < stopPrefixHoldback buffer stops := by omega
    obtain ⟨stop, member, proper, before, same⟩ := stopPrefix_holdback positive
    have total := congrArg List.length same
    rw [List.length_append, List.length_take, Nat.min_eq_left (Nat.le_of_lt proper)] at total
    obtain ⟨byte, rest, rfl⟩ := List.exists_cons_of_ne_nil
      (List.length_pos_iff.mp (by omega) : stop ≠ [])
    have cut : buffer.take (buffer.length - stopPrefixHoldback buffer stops) = before := by
      have position : buffer.length - stopPrefixHoldback buffer stops = before.length := by omega
      rw [position]
      have taken := congrArg (List.take before.length) same
      rwa [List.take_left] at taken
    rw [cut]
    obtain ⟨len, length⟩ := Nat.exists_eq_add_of_lt positive
    rw [length, Nat.zero_add, List.take_succ_cons] at same
    rw [same] at prefixed
    exact prefixed.valid_front (leads _ member byte rest rfl)
  · rw [Nat.max_eq_left (Nat.le_of_not_lt longer)]
    obtain ⟨front, tail, same, length, shape⟩ := incompleteUtf8Tail_spec buffer
    have cut : buffer.take (buffer.length - incompleteUtf8Tail buffer) = front := by
      have total := congrArg List.length same
      rw [List.length_append] at total
      have position : buffer.length - incompleteUtf8Tail buffer = front.length := by omega
      rw [position]
      have taken := congrArg (List.take front.length) same
      rwa [List.take_left] at taken
    rw [cut]
    obtain truncated | ⟨empty, whole⟩ := shape
    · obtain ⟨lead, continuations, rfl, _, _⟩ := id truncated
      rw [same] at prefixed
      exact prefixed.valid_front truncated.head_not_continuation
    · obtain ⟨complete, unfinished, parts, valid, shape⟩ := prefixed.split
      obtain rfl | charPrefix := shape
      · rw [empty, List.append_nil] at same
        rw [List.append_nil] at parts
        rwa [← same, parts]
      · exact absurd ⟨complete, unfinished, parts, charPrefix.truncated⟩ whole

private theorem take_append_outer {front back : Bytes} {count : Nat}
    (beyond : front.length ≤ count) :
    (front ++ back).take count = front ++ back.take (count - front.length) := by
  rw [List.take_append, List.take_of_length_le beyond]

section Accepting

variable {callback : Bytes → Program Client Exception Bool} {stops : List Bytes}
  {generated piece : Bytes} {filter : StreamFilter} {receiver : Receiver Client}

/-- Accepted chunks are appended to what was received; an empty one is not passed on. -/
theorem deliver_accepting (accepts : Accepts callback) (chunk : Bytes)
    (receiver : Receiver Client) :
    ∃ after : Receiver Client, deliver (some callback) chunk receiver = (.ok true, after) ∧
      after.chunks = receiver.chunks ++ if chunk = [] then [] else [chunk] := by
  by_cases empty : chunk = []
  · exact ⟨receiver, by simp [deliver, empty], by simp [empty]⟩
  · have answer := accepts chunk receiver.client
    rcases called : callback chunk receiver.client with ⟨error | (_ | _), client⟩
    · simp [called] at answer
    · simp [called] at answer
    · exact ⟨⟨client, receiver.deliveries ++ [⟨chunk, some true⟩]⟩,
        by simp [deliver, empty, called], by simp [Receiver.chunks, empty]⟩

private theorem whole_append_chunk {chunks : List Bytes} {chunk : Bytes}
    (whole : ∀ chunk ∈ chunks, chunk ≠ [] ∧ Valid chunk) (valid : Valid chunk) :
    ∀ other ∈ chunks ++ (if chunk = [] then [] else [chunk]), other ≠ [] ∧ Valid other := by
  intro other member
  by_cases empty : chunk = []
  · exact whole other (by simpa [empty] using member)
  · simp only [empty, if_false, List.mem_append, List.mem_singleton] at member
    obtain member | rfl := member
    · exact whole other member
    · exact ⟨empty, valid⟩

/-- A push that completes no stop keeps the invariant for the grown text. -/
theorem push_continue (accepts : Accepts callback) (leads : StopsLead filter.stops)
    (held : Held filter.stops generated receiver.chunks filter.pending)
    (prefixed : ValidPrefix (generated ++ piece))
    (noStop : ∀ start, ¬ StopAt filter.stops (generated ++ piece) start) :
    ∃ (pending : Bytes) (after : Receiver Client),
      push (some callback) filter piece receiver =
        (.ok (.continue, { filter with pending := pending }), after) ∧
      Held filter.stops (generated ++ piece) after.chunks pending := by
  have none : earliestMatch filter.stops (filter.pending ++ piece) = none := by
    rw [earliestMatch_eq_none_iff]
    intro start stopAt
    apply noStop (receiver.chunks.flatten.length + start)
    exact held.stopAt_iff.mpr ⟨by omega, by simpa using stopAt⟩
  have valid := valid_safe leads (held.validPrefix_buffer prefixed)
  obtain ⟨after, delivered, chunks⟩ := deliver_accepting accepts
    ((filter.pending ++ piece).take (safe filter.stops (filter.pending ++ piece))) receiver
  refine ⟨_, after, by simp only [push_of_noMatch none, bind_of_ok delivered]; rfl,
    ⟨?_, noStop, fun len found => ?_, ?_⟩⟩
  · rw [chunks, flatten_append_chunk, List.append_assoc, List.take_append_drop,
      ← List.append_assoc, held.joined]
  · have bound := (held.stopPrefix_buffer found).le_holdback
    have short := stopPrefixHoldback_le_length (filter.pending ++ piece) filter.stops
    rw [List.length_drop, safe]
    omega
  · rw [chunks]
    exact whole_append_chunk held.whole valid

/-- A push that completes a stop delivers the text up to the earliest start of one. -/
theorem push_stopped (accepts : Accepts callback) (leads : StopsLead filter.stops)
    (held : Held filter.stops generated receiver.chunks filter.pending)
    (prefixed : ValidPrefix (generated ++ piece)) {start : Nat}
    (least : IsLeast {start | StopAt filter.stops (generated ++ piece) start} start) :
    ∃ after : Receiver Client,
      push (some callback) filter piece receiver =
        (.ok (.stopped, { filter with pending := [] }), after) ∧
      after.chunks.flatten = (generated ++ piece).take start ∧
      ∀ chunk ∈ after.chunks, chunk ≠ [] ∧ Valid chunk := by
  obtain ⟨later, inBuffer⟩ := held.stopAt_iff.mp least.1
  have found : earliestMatch filter.stops (filter.pending ++ piece) =
      some (start - receiver.chunks.flatten.length) := by
    rw [earliestMatch_eq_some_iff]
    refine ⟨inBuffer, fun other stopAt => ?_⟩
    have bound := least.2 (held.stopAt_iff.mpr
      ⟨Nat.le_add_right receiver.chunks.flatten.length other, by simpa using stopAt⟩)
    omega
  have valid := valid_before_stop leads (held.validPrefix_buffer prefixed) inBuffer
  have noTail := incompleteUtf8Tail_of_not_endsTruncated valid.not_endsTruncated
  obtain ⟨after, delivered, chunks⟩ := deliver_accepting accepts
    ((filter.pending ++ piece).take (start - receiver.chunks.flatten.length)) receiver
  refine ⟨after, ?_, ?_, ?_⟩
  · have out : beforeMatch (filter.pending ++ piece) (start - receiver.chunks.flatten.length) =
        (filter.pending ++ piece).take (start - receiver.chunks.flatten.length) := by
      rw [beforeMatch, noTail, Nat.sub_zero, List.take_length]
    simp only [push_of_match found, out, bind_of_ok delivered]
    rfl
  · have regroup : generated ++ piece = receiver.chunks.flatten ++ (filter.pending ++ piece) := by
      rw [← held.joined, List.append_assoc]
    rw [chunks, flatten_append_chunk, regroup, take_append_outer later]
  · rw [chunks]
    exact whole_append_chunk held.whole valid

/-- Pieces that complete no stop are all pushed, and the invariant holds after them. -/
theorem feed_continue (accepts : Accepts callback) (leads : StopsLead filter.stops)
    (pieces : List Bytes) (held : Held filter.stops generated receiver.chunks filter.pending)
    (prefixed : ValidPrefix (generated ++ pieces.flatten))
    (noStop : ∀ start, ¬ StopAt filter.stops (generated ++ pieces.flatten) start) :
    ∃ (pending : Bytes) (after : Receiver Client),
      feed (some callback) filter pieces receiver =
        (.ok (pieces.map fun _ => .continue, { filter with pending := pending }), after) ∧
      Held filter.stops (generated ++ pieces.flatten) after.chunks pending := by
  induction pieces generalizing filter generated receiver with
  | nil => exact ⟨filter.pending, receiver, rfl, by simpa using held⟩
  | cons piece pieces inductionHypothesis =>
      rw [List.flatten_cons, ← List.append_assoc] at prefixed noStop
      obtain ⟨pending, middle, pushed, heldMiddle⟩ := push_continue accepts leads held
        prefixed.of_append fun start stopAt => noStop start (stopAt.append pieces.flatten)
      let middleFilter : StreamFilter := { filter with pending := pending }
      have leadsFilter : StopsLead middleFilter.stops := leads
      have heldFilter : Held middleFilter.stops (generated ++ piece) middle.chunks
          middleFilter.pending := heldMiddle
      obtain ⟨pending', after, fed, heldAfter⟩ :=
        inductionHypothesis leadsFilter heldFilter prefixed noStop
      refine ⟨pending', after, ?_, by simpa using heldAfter⟩
      rw [feed, bind_of_ok pushed]
      simp only [if_true]
      exact bind_of_ok fed

/-- The pieces up to the first that completes a stop are pushed, and what was received
is the text up to the earliest start of one. -/
theorem feed_stopped (accepts : Accepts callback) (leads : StopsLead filter.stops)
    (before after : List Bytes)
    (held : Held filter.stops generated receiver.chunks filter.pending)
    (prefixed : ValidPrefix (generated ++ before.flatten ++ piece))
    (noStop : ∀ start, ¬ StopAt filter.stops (generated ++ before.flatten) start) {start : Nat}
    (least : IsLeast {start | StopAt filter.stops (generated ++ before.flatten ++ piece) start}
      start) :
    ∃ last : Receiver Client,
      feed (some callback) filter (before ++ piece :: after) receiver =
        (.ok (before.map (fun _ => .continue) ++ [.stopped], { filter with pending := [] }),
          last) ∧
      last.chunks.flatten = (generated ++ before.flatten ++ piece).take start ∧
      ∀ chunk ∈ last.chunks, chunk ≠ [] ∧ Valid chunk := by
  induction before generalizing filter generated receiver with
  | nil =>
      simp only [List.flatten_nil, List.append_nil] at prefixed least
      obtain ⟨last, pushed, received, whole⟩ := push_stopped accepts leads held prefixed least
      refine ⟨last, ?_, by simpa using received, whole⟩
      rw [List.nil_append, feed, bind_of_ok pushed]
      rfl
  | cons first before inductionHypothesis =>
      rw [List.flatten_cons, ← List.append_assoc] at prefixed noStop least
      obtain ⟨pending, middle, pushed, heldMiddle⟩ := push_continue accepts leads held
        prefixed.of_append.of_append fun start stopAt => noStop start (stopAt.append before.flatten)
      let middleFilter : StreamFilter := { filter with pending := pending }
      have leadsFilter : StopsLead middleFilter.stops := leads
      have heldFilter : Held middleFilter.stops (generated ++ first) middle.chunks
          middleFilter.pending := heldMiddle
      obtain ⟨last, fed, received, whole⟩ :=
        inductionHypothesis leadsFilter heldFilter prefixed noStop least
      refine ⟨last, ?_, by simpa using received, whole⟩
      rw [List.cons_append, feed, bind_of_ok pushed]
      simp only [if_true]
      exact bind_of_ok fed

/-- Flushing a run without a stop delivers everything but an unfinished character. -/
theorem flush_held (accepts : Accepts callback)
    (held : Held filter.stops generated receiver.chunks filter.pending)
    (prefixed : ValidPrefix generated) :
    ∃ after : Receiver Client,
      flush (some callback) filter receiver = (.ok { filter with pending := [] }, after) ∧
      (∃ tail, generated = after.chunks.flatten ++ tail ∧ (tail = [] ∨ CharPrefix tail)) ∧
      ∀ chunk ∈ after.chunks, chunk ≠ [] ∧ Valid chunk := by
  have buffer : ValidPrefix (filter.pending ++ []) :=
    held.validPrefix_buffer (by simpa using prefixed)
  rw [List.append_nil] at buffer
  obtain ⟨complete, tail, same, valid, shape⟩ := buffer.split
  have measured : incompleteUtf8Tail filter.pending = tail.length := by
    rw [same]
    obtain rfl | charPrefix := shape
    · rw [List.append_nil, List.length_nil]
      exact incompleteUtf8Tail_of_not_endsTruncated valid.not_endsTruncated
    · exact incompleteUtf8Tail_of_truncated charPrefix.truncated
  have out : withoutTail filter.pending = complete := by
    rw [withoutTail, measured, same, List.length_append, Nat.add_sub_cancel, List.take_left]
  obtain ⟨after, delivered, chunks⟩ := deliver_accepting accepts complete receiver
  refine ⟨after, ?_, ⟨tail, ?_, shape⟩, ?_⟩
  · rw [flush_eq, out, bind_of_ok delivered]
    rfl
  · rw [chunks, flatten_append_chunk, List.append_assoc, ← same, held.joined]
  · rw [chunks]
    exact whole_append_chunk held.whole valid

end Accepting

section Drain

variable {callback : Bytes → Program Client Exception Bool} {stops : List Bytes}

/-- A run whose text holds no stop pushes every piece and delivers all but an unfinished
character. -/
theorem drain_continue (accepts : Accepts callback) (leads : StopsLead stops)
    (pieces : List Bytes) (client : Client) (prefixed : ValidPrefix pieces.flatten)
    (noStop : ∀ start, ¬ StopAt stops pieces.flatten start) :
    ∃ last : Receiver Client,
      drain (some callback) stops pieces ⟨client, []⟩ =
        (.ok (pieces.map fun _ => .continue), last) ∧
      (∃ tail, pieces.flatten = last.chunks.flatten ++ tail ∧ (tail = [] ∨ CharPrefix tail)) ∧
      ∀ chunk ∈ last.chunks, chunk ≠ [] ∧ Valid chunk := by
  let fresh : StreamFilter := { stops := stops }
  let started : Receiver Client := ⟨client, []⟩
  have held : Held fresh.stops [] started.chunks fresh.pending := Held.initial stops
  obtain ⟨pending, middle, fed, heldMiddle⟩ :=
    feed_continue accepts (show StopsLead fresh.stops from leads) pieces held prefixed noStop
  let ended : StreamFilter := { stops := stops, pending := pending }
  have heldEnd : Held ended.stops pieces.flatten middle.chunks ended.pending := heldMiddle
  obtain ⟨last, flushed, delivered, whole⟩ := flush_held accepts heldEnd prefixed
  refine ⟨last, ?_, delivered, whole⟩
  have went : ∀ status ∈ pieces.map (fun _ => Status.continue), status = .continue := by simp
  rw [drain, bind_of_ok fed]
  simp only [if_pos went]
  exact bind_of_ok flushed

/-- A run whose text holds a stop ends at the first piece that completes one and delivers
the text up to the earliest start of one. -/
theorem drain_stopped (accepts : Accepts callback) (leads : StopsLead stops)
    (before after : List Bytes) {piece : Bytes} (client : Client)
    (prefixed : ValidPrefix (before.flatten ++ piece))
    (noStop : ∀ start, ¬ StopAt stops before.flatten start) {start : Nat}
    (least : IsLeast {start | StopAt stops (before.flatten ++ piece) start} start) :
    ∃ last : Receiver Client,
      drain (some callback) stops (before ++ piece :: after) ⟨client, []⟩ =
        (.ok (before.map (fun _ => .continue) ++ [.stopped]), last) ∧
      last.chunks.flatten = (before.flatten ++ piece).take start ∧
      ∀ chunk ∈ last.chunks, chunk ≠ [] ∧ Valid chunk := by
  let fresh : StreamFilter := { stops := stops }
  let started : Receiver Client := ⟨client, []⟩
  have held : Held fresh.stops [] started.chunks fresh.pending := Held.initial stops
  obtain ⟨last, fed, delivered, whole⟩ :=
    feed_stopped accepts (show StopsLead fresh.stops from leads) before after held prefixed
      noStop least
  refine ⟨last, ?_, delivered, whole⟩
  have ended : ¬ ∀ status ∈ before.map (fun _ => Status.continue) ++ [.stopped],
      status = .continue := by
    intro all
    cases all .stopped (by simp)
  rw [drain, bind_of_ok fed]
  simp only [ended, if_false]
  rfl

/-- A text cut into pieces that holds a stop has a first piece that completes one. -/
theorem exists_first_completed (pieces : List Bytes) (front : Bytes)
    (noStop : ∀ start, ¬ StopAt stops front start)
    (present : ∃ start, StopAt stops (front ++ pieces.flatten) start) :
    ∃ before piece after, pieces = before ++ piece :: after ∧
      (∀ start, ¬ StopAt stops (front ++ before.flatten) start) ∧
      ∃ start, IsLeast {start | StopAt stops (front ++ before.flatten ++ piece) start} start := by
  induction pieces generalizing front with
  | nil =>
      obtain ⟨start, stopAt⟩ := present
      rw [List.flatten_nil, List.append_nil] at stopAt
      exact absurd stopAt (noStop start)
  | cons piece pieces inductionHypothesis =>
      by_cases here : ∃ start, StopAt stops (front ++ piece) start
      · refine ⟨[], piece, pieces, rfl, by simpa using noStop, ?_⟩
        simpa using exists_isLeast_stopAt here
      · push Not at here
        obtain ⟨before, completed, after, rfl, none, least⟩ :=
          inductionHypothesis (front ++ piece) here (by simpa using present)
        exact ⟨piece :: before, completed, after, rfl, by simpa using none, by simpa using least⟩

private theorem validPrefix_completed {before after : List Bytes} {piece : Bytes}
    (prefixed : ValidPrefix (before ++ piece :: after).flatten) :
    ValidPrefix (before.flatten ++ piece) := by
  have regroup : (before ++ piece :: after).flatten =
      before.flatten ++ piece ++ after.flatten := by simp
  rw [regroup] at prefixed
  exact prefixed.of_append

/-- The filter agrees with offline truncation, whatever the pieces: it goes on until the
first piece that completes a stop, delivers the text up to the earliest start of one,
and without a stop delivers all but an unfinished last character. -/
theorem drain_truncates (accepts : Accepts callback) (stops pieces : List Bytes) (client : Client)
    (validStops : ∀ stop ∈ stops, Valid stop) (prefixed : ValidPrefix pieces.flatten) :
    ∃ (statuses : List Status) (last : Receiver Client),
      drain (some callback) stops pieces ⟨client, []⟩ = (.ok statuses, last) ∧
      (∀ chunk ∈ last.chunks, chunk ≠ [] ∧ Valid chunk) ∧
      (∀ before piece after, pieces = before ++ piece :: after →
        (∀ start, ¬ StopAt stops before.flatten start) →
        ∀ start, IsLeast {start | StopAt stops (before.flatten ++ piece) start} start →
          statuses = before.map (fun _ => .continue) ++ [.stopped] ∧
          last.chunks.flatten = (before.flatten ++ piece).take start ∧
          ∀ other, StopAt stops (before.flatten ++ piece) other →
            last.chunks.flatten.length ≤ other) ∧
      ((∀ start, ¬ StopAt stops pieces.flatten start) →
        statuses = pieces.map (fun _ => .continue) ∧
        ∃ tail, pieces.flatten = last.chunks.flatten ++ tail ∧
          (tail = [] ∨ CharPrefix tail)) := by
  have leads := stopsLead_of_valid validStops
  obtain ⟨statuses, last, ran, whole⟩ : ∃ (statuses : List Status) (last : Receiver Client),
      drain (some callback) stops pieces ⟨client, []⟩ = (.ok statuses, last) ∧
      ∀ chunk ∈ last.chunks, chunk ≠ [] ∧ Valid chunk := by
    by_cases present : ∃ start, StopAt stops pieces.flatten start
    · obtain ⟨before, piece, after, rfl, noStop, start, least⟩ :=
        exists_first_completed pieces [] (Held.initial stops).noStop present
      obtain ⟨last, ran, _, whole⟩ := drain_stopped accepts leads before after client
        (validPrefix_completed prefixed) noStop least
      exact ⟨_, last, ran, whole⟩
    · push Not at present
      obtain ⟨last, ran, _, whole⟩ := drain_continue accepts leads pieces client prefixed present
      exact ⟨_, last, ran, whole⟩
  refine ⟨statuses, last, ran, whole, ?_, fun noStop => ?_⟩
  · rintro before piece after rfl noStop start least
    obtain ⟨last', ran', delivered, _⟩ := drain_stopped accepts leads before after client
      (validPrefix_completed prefixed) noStop least
    rw [ran] at ran'
    cases ran'
    refine ⟨rfl, delivered, fun other stopAt => ?_⟩
    have bound := least.2 stopAt
    rw [delivered, List.length_take]
    omega
  · obtain ⟨last', ran', delivered, _⟩ := drain_continue accepts leads pieces client prefixed noStop
    rw [ran] at ran'
    cases ran'
    exact ⟨rfl, delivered⟩

/-- A stop that ends two pieces after it began, behind a character cut in two. -/
theorem drain_truncates_accented :
    (drain (some fun _ => pure true) [[], literal "</s>"]
      [[0xC3], [0xA9, 0x3C], literal "/s", literal ">x", literal "y"] ⟨(), []⟩).2.chunks.flatten =
        literal "é" := by
  have accepts : Accepts fun _ => (pure true : Program Unit Exception Bool) := fun _ _ => rfl
  obtain ⟨statuses, last, ran, _, stopped, _⟩ := drain_truncates accepts [[], literal "</s>"]
    [[0xC3], [0xA9, 0x3C], literal "/s", literal ">x", literal "y"] ()
    (by
      intro stop member
      simp only [List.mem_cons, List.not_mem_nil, or_false] at member
      obtain rfl | rfl := member
      · exact Valid.nil
      · exact ⟨"</s>".toList, rfl⟩)
    ⟨[], "é</s>xy".toList, rfl⟩
  obtain ⟨_, delivered, _⟩ := stopped [[0xC3], [0xA9, 0x3C], literal "/s"] (literal ">x")
    [literal "y"] rfl (earliestMatch_eq_none_iff.mp rfl) 2
    ⟨(earliestMatch_eq_some_iff.mp rfl).1, (earliestMatch_eq_some_iff.mp rfl).2⟩
  rw [ran, delivered]
  rfl

end Drain

end Llamad.StreamFilter
