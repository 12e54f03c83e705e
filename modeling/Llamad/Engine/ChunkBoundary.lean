import Llamad.Engine.StreamFilter

/-!
# Where chunks end

For arbitrary bytes and arbitrary stops: which chunks end in the middle of a
character. `emissions` lists what the pushes and the flush of a run hand over;
a callback sees a front part of it, and one that always accepts sees all of it.
`chunks_whole_iff` finds every chunk whole exactly when no step of the run leaves a
truncated character directly in front of what it withholds or cuts off.
-/

namespace Llamad.StreamFilter

open Logical Logical.Utf8 Semantics Program

variable {Client : Type} {onChunk : ChunkCallback Client} {filter : StreamFilter}

/-- What a push hands over of the buffer it searches. -/
def passed (stops : List Bytes) (buffer : Bytes) : Bytes :=
  match earliestMatch stops buffer with
  | some found => beforeMatch buffer found
  | none => buffer.take (safe stops buffer)

/-- What a push keeps of the buffer it searches. -/
def kept (stops : List Bytes) (buffer : Bytes) : Bytes :=
  match earliestMatch stops buffer with
  | some _ => []
  | none => buffer.drop (safe stops buffer)

/-- What the pushes and the flush of a run hand over, as long as the receiver accepts. -/
def emissions (stops : List Bytes) : Bytes → List Bytes → List Bytes
  | pending, [] => [withoutTail pending]
  | pending, piece :: rest =>
      passed stops (pending ++ piece) ::
        if earliestMatch stops (pending ++ piece) = none then
          emissions stops (kept stops (pending ++ piece)) rest
        else []

/-- The text ends in two truncated characters. -/
def DoublyTruncated (text : Bytes) : Prop :=
  ∃ front first second, text = front ++ first ++ second ∧ Truncated first ∧ Truncated second

/-- A suffix of this length is not decided yet: it is a truncated character, a proper
prefix of a stop, or empty. -/
def Undecided (stops : List Bytes) (text : Bytes) (len : Nat) : Prop :=
  len = 0 ∨ StopPrefix stops text len ∨
    ∃ front tail, text = front ++ tail ∧ tail.length = len ∧ Truncated tail

/-- No step of a run leaves a truncated character directly in front of its longest
undecided suffix, or two in a row in front of a stop or of the end. -/
def CleanRun (stops : List Bytes) : Bytes → List Bytes → Prop
  | pending, [] => ¬ DoublyTruncated pending
  | pending, piece :: rest =>
      (∀ start, IsLeast {start | StopAt stops (pending ++ piece) start} start →
        ¬ DoublyTruncated ((pending ++ piece).take start)) ∧
      ((∀ start, ¬ StopAt stops (pending ++ piece) start) →
        ∀ front held, pending ++ piece = front ++ held →
          IsGreatest {len | Undecided stops (pending ++ piece) len} held.length →
          ¬ EndsTruncated front ∧ CleanRun stops held rest)

section Steps

/-- The receiver is handed the chunk unless it is empty or nobody listens. -/
theorem deliver_chunks (chunk : Bytes) (receiver : Receiver Client) :
    (deliver onChunk chunk receiver).2.chunks =
      receiver.chunks ++ if chunk = [] ∨ onChunk.isNone then [] else [chunk] := by
  by_cases empty : chunk = []
  · simp [empty]
  · cases onChunk with
    | none => simp [deliver, empty]
    | some callback =>
        rcases called : callback chunk receiver.client with ⟨error | answer, client⟩
        · simp [deliver, empty, called, Receiver.chunks]
        · simp [deliver, empty, called, Receiver.chunks]

/-- A push hands over `passed`, keeps `kept`, and goes on when it finds no stop and is
accepted. -/
theorem push_eq (piece : Bytes) :
    push onChunk filter piece = (do
      let accepted ← deliver onChunk (passed filter.stops (filter.pending ++ piece))
      return (
        if accepted then
          if earliestMatch filter.stops (filter.pending ++ piece) = none then Status.continue
          else .stopped
        else .cancelled,
        { filter with pending := kept filter.stops (filter.pending ++ piece) })) := by
  cases found : earliestMatch filter.stops (filter.pending ++ piece) with
  | none => simp [push_of_noMatch found, passed, kept, found]
  | some start => simp [push_of_match found, passed, kept, found]

/-- The rest of a run, from the filter between two pushes. -/
def proceed (onChunk : ChunkCallback Client) (filter : StreamFilter) (pieces : List Bytes) :
    Program (Receiver Client) Exception (List Status) := do
  let (statuses, filter) ← feed onChunk filter pieces
  if ∀ status ∈ statuses, status = .continue then
    let _ ← flush onChunk filter
    return statuses
  else
    return statuses

theorem proceed_nil_chunks (receiver : Receiver Client) :
    (proceed onChunk filter [] receiver).2.chunks =
      (deliver onChunk (withoutTail filter.pending) receiver).2.chunks := by
  have unfolded : proceed onChunk filter [] = (do
      let _ ← flush onChunk filter
      return []) := by
    funext receiver
    simp [proceed, feed, bind_apply]
  rw [unfolded, flush_eq]
  match delivered : deliver onChunk (withoutTail filter.pending) receiver with
  | (.ok accepted, after) => simp [bind_apply, delivered]
  | (.error error, after) => simp [bind_apply, delivered]

theorem proceed_cons_chunks (piece : Bytes) (rest : List Bytes) (receiver : Receiver Client) :
    (proceed onChunk filter (piece :: rest) receiver).2.chunks =
      match deliver onChunk (passed filter.stops (filter.pending ++ piece)) receiver with
      | (.ok true, after) =>
          if earliestMatch filter.stops (filter.pending ++ piece) = none then
            (proceed onChunk
              { filter with pending := kept filter.stops (filter.pending ++ piece) } rest
              after).2.chunks
          else after.chunks
      | (_, after) => after.chunks := by
  match delivered : deliver onChunk (passed filter.stops (filter.pending ++ piece)) receiver with
  | (.ok false, after) => simp [proceed, feed, push_eq, bind_apply, delivered]
  | (.error error, after) => simp [proceed, feed, push_eq, bind_apply, delivered]
  | (.ok true, after) =>
      by_cases found : earliestMatch filter.stops (filter.pending ++ piece) = none
      · simp only [proceed, feed, push_eq, bind_apply, delivered, found, if_true, pure_apply]
        match fed : feed onChunk
            { filter with pending := kept filter.stops (filter.pending ++ piece) } rest after with
        | (.error error, last) => rfl
        | (.ok (statuses, ended), last) =>
            by_cases went : ∀ status ∈ statuses, status = .continue
            · have wentOn : ∀ status ∈ Status.continue :: statuses, status = .continue := by
                simpa using went
              simp only [if_pos wentOn, if_pos went, bind_apply]
              split <;> rfl
            · simp [went]
      · simp [proceed, feed, push_eq, bind_apply, delivered, found]

end Steps

section Emissions

private theorem deliver_subset {chunk : Bytes} {receiver : Receiver Client} :
    ∀ other ∈ (deliver onChunk chunk receiver).2.chunks,
      other ∈ receiver.chunks ∨ other = chunk := by
  intro other member
  rw [deliver_chunks] at member
  split at member <;> simp_all

/-- Whatever the receiver answers, it is handed nothing but emissions. -/
theorem chunks_subset_emissions (pieces : List Bytes) (receiver : Receiver Client) :
    ∀ chunk ∈ (proceed onChunk filter pieces receiver).2.chunks,
      chunk ∈ receiver.chunks ∨ chunk ∈ emissions filter.stops filter.pending pieces := by
  induction pieces generalizing filter receiver with
  | nil =>
      intro chunk member
      rw [proceed_nil_chunks] at member
      exact (deliver_subset chunk member).imp id fun same => by simp [emissions, same]
  | cons piece rest inductionHypothesis =>
      intro chunk member
      rw [proceed_cons_chunks] at member
      have handed : ∀ other ∈ (deliver onChunk
          (passed filter.stops (filter.pending ++ piece)) receiver).2.chunks,
          other ∈ receiver.chunks ∨
            other ∈ emissions filter.stops filter.pending (piece :: rest) :=
        fun other member => (deliver_subset other member).imp id fun same => by
          simp [emissions, same]
      match delivered :
          deliver onChunk (passed filter.stops (filter.pending ++ piece)) receiver with
      | (.ok false, after) =>
          rw [delivered] at member handed
          exact handed chunk member
      | (.error error, after) =>
          rw [delivered] at member handed
          exact handed chunk member
      | (.ok true, after) =>
          rw [delivered] at member handed
          by_cases found : earliestMatch filter.stops (filter.pending ++ piece) = none
          · simp only [found, if_true] at member
            obtain earlier | later := inductionHypothesis after chunk member
            · exact handed chunk earlier
            · exact .inr (by simp [emissions, found, later])
          · simp only [found, if_false] at member
            exact handed chunk member

/-- A receiver that always accepts is handed every emission that is not empty. -/
theorem emissions_subset_chunks (pieces : List Bytes) (receiver : Receiver Unit) :
    (∀ chunk ∈ receiver.chunks,
      chunk ∈ (proceed (some fun _ => pure true) filter pieces receiver).2.chunks) ∧
    ∀ chunk ∈ emissions filter.stops filter.pending pieces, chunk ≠ [] →
      chunk ∈ (proceed (some fun _ => pure true) filter pieces receiver).2.chunks := by
  induction pieces generalizing filter receiver with
  | nil =>
      rw [proceed_nil_chunks, deliver_chunks]
      refine ⟨fun chunk member => by simp [member], fun chunk member nonempty => ?_⟩
      obtain rfl := List.mem_singleton.mp member
      simp [nonempty]
  | cons piece rest inductionHypothesis =>
      have accepted : ∃ after : Receiver Unit,
          deliver (some fun _ => pure true) (passed filter.stops (filter.pending ++ piece))
            receiver = (.ok true, after) ∧
          after.chunks = receiver.chunks ++
            if passed filter.stops (filter.pending ++ piece) = [] then []
            else [passed filter.stops (filter.pending ++ piece)] := by
        by_cases empty : passed filter.stops (filter.pending ++ piece) = []
        · exact ⟨receiver, by simp [empty], by simp [empty]⟩
        · exact ⟨_, by simp only [deliver, empty, if_false]; rfl, by simp [Receiver.chunks, empty]⟩
      obtain ⟨after, delivered, chunks⟩ := accepted
      rw [proceed_cons_chunks, delivered]
      have first : ∀ chunk, chunk ∈ receiver.chunks ∨
          chunk = passed filter.stops (filter.pending ++ piece) ∧ chunk ≠ [] →
          chunk ∈ after.chunks := by
        rintro chunk (earlier | ⟨rfl, nonempty⟩)
        · simp [chunks, earlier]
        · simp [chunks, nonempty]
      by_cases found : earliestMatch filter.stops (filter.pending ++ piece) = none
      · obtain ⟨earlier, later⟩ := @inductionHypothesis
          { filter with pending := kept filter.stops (filter.pending ++ piece) } after
        simp only [found, if_true, emissions, List.mem_cons]
        refine ⟨fun chunk member => earlier chunk (first chunk (.inl member)), ?_⟩
        rintro chunk (here | member) nonempty
        · exact earlier chunk (first chunk (.inr ⟨here, nonempty⟩))
        · exact later chunk member nonempty
      · simp only [found, if_false, emissions, List.mem_singleton]
        exact ⟨fun chunk member => first chunk (.inl member),
          fun chunk here nonempty => first chunk (.inr ⟨here, nonempty⟩)⟩

end Emissions

section Whole

theorem not_endsTruncated_nil : ¬ EndsTruncated [] := by
  rintro ⟨front, tail, same, truncated⟩
  have positive := truncated.length_pos
  obtain ⟨-, rfl⟩ := List.append_eq_nil_iff.mp same.symm
  exact absurd positive (Nat.lt_irrefl 0)

/-- Taking off one truncated character leaves a truncated end where there were two. -/
theorem endsTruncated_withoutTail_iff {text : Bytes} :
    EndsTruncated (withoutTail text) ↔ DoublyTruncated text := by
  constructor
  · intro ends
    obtain ⟨front, tail, same, length, shape⟩ := incompleteUtf8Tail_spec text
    have out : withoutTail text = front := by
      rw [withoutTail, ← length, same, List.length_append, Nat.add_sub_cancel, List.take_left]
    rw [out] at ends
    obtain truncated | ⟨rfl, whole⟩ := shape
    · obtain ⟨before, first, rfl, truncatedFirst⟩ := ends
      exact ⟨before, first, tail, same, truncatedFirst, truncated⟩
    · rw [List.append_nil] at same
      rw [same] at whole
      exact absurd ends whole
  · rintro ⟨front, first, second, rfl, truncatedFirst, truncatedSecond⟩
    refine ⟨front, first, ?_, truncatedFirst⟩
    rw [withoutTail, incompleteUtf8Tail_of_truncated truncatedSecond, List.length_append,
      Nat.add_sub_cancel, List.take_left]

/-- A push without a match withholds the longest undecided suffix. -/
theorem isGreatest_undecided (stops : List Bytes) (text : Bytes) :
    IsGreatest {len | Undecided stops text len} (text.length - safe stops text) := by
  have tailShort := incompleteUtf8Tail_le_length text
  have stopShort := stopPrefixHoldback_le_length text stops
  have held : text.length - safe stops text =
      max (incompleteUtf8Tail text) (stopPrefixHoldback text stops) := by
    rw [safe]
    omega
  rw [held]
  constructor
  · by_cases longer : incompleteUtf8Tail text < stopPrefixHoldback text stops
    · rw [Nat.max_eq_right (Nat.le_of_lt longer)]
      exact .inr (.inl (stopPrefix_holdback (by omega)))
    · rw [Nat.max_eq_left (Nat.le_of_not_lt longer)]
      obtain ⟨front, tail, same, length, truncated | ⟨empty, _⟩⟩ := incompleteUtf8Tail_spec text
      · exact .inr (.inr ⟨front, tail, same, length, truncated⟩)
      · exact .inl (by simpa [empty] using length.symm)
  · rintro len (rfl | found | ⟨front, tail, rfl, rfl, truncated⟩)
    · exact Nat.zero_le _
    · exact Nat.le_trans found.le_holdback (Nat.le_max_right _ _)
    · rw [incompleteUtf8Tail_of_truncated truncated]
      exact Nat.le_max_left _ _

/-- The cut of a push without a match, told from the text alone. -/
theorem cut_iff_isGreatest {stops : List Bytes} {text front held : Bytes}
    (same : text = front ++ held) :
    IsGreatest {len | Undecided stops text len} held.length ↔
      front = text.take (safe stops text) ∧ held = text.drop (safe stops text) := by
  have greatest := isGreatest_undecided stops text
  have short : safe stops text ≤ text.length := by
    rw [safe]
    omega
  constructor
  · intro here
    have length := here.unique greatest
    have total := congrArg List.length same
    rw [List.length_append] at total
    have position : safe stops text = front.length := by omega
    rw [position, same]
    exact ⟨List.take_left.symm, List.drop_left.symm⟩
  · rintro ⟨-, rfl⟩
    rwa [List.length_drop]

/-- A run is clean exactly when all its emissions end with whole characters. -/
theorem cleanRun_iff (stops : List Bytes) (pending : Bytes) (pieces : List Bytes) :
    CleanRun stops pending pieces ↔
      ∀ chunk ∈ emissions stops pending pieces, ¬ EndsTruncated chunk := by
  induction pieces generalizing pending with
  | nil => simp [CleanRun, emissions, endsTruncated_withoutTail_iff]
  | cons piece rest inductionHypothesis =>
      rw [CleanRun, emissions]
      generalize pending ++ piece = buffer
      cases found : earliestMatch stops buffer with
      | some start =>
          obtain ⟨stopAt, least⟩ := earliestMatch_eq_some_iff.mp found
          have isLeast : IsLeast {start | StopAt stops buffer start} start :=
            ⟨stopAt, fun other => least other⟩
          have out : passed stops buffer = withoutTail (buffer.take start) := by
            rw [passed, found]
            rfl
          simp only [reduceCtorEq, if_false, List.mem_singleton, forall_eq, out,
            endsTruncated_withoutTail_iff]
          constructor
          · exact fun clean => clean.1 start isLeast
          · refine fun clean =>
              ⟨fun other otherLeast => ?_, fun noStop => absurd stopAt (noStop start)⟩
            rwa [otherLeast.unique isLeast]
      | none =>
          have noStop := earliestMatch_eq_none_iff.mp found
          have out : passed stops buffer = buffer.take (safe stops buffer) := by
            rw [passed, found]
          have left : kept stops buffer = buffer.drop (safe stops buffer) := by
            rw [kept, found]
          rw [if_pos rfl, List.forall_mem_cons, ← inductionHypothesis, out, left]
          constructor
          · intro clean
            exact clean.2 noStop _ _ (List.take_append_drop _ _).symm
              ((cut_iff_isGreatest (List.take_append_drop _ _).symm).mpr ⟨rfl, rfl⟩)
          · intro clean
            refine ⟨fun start least => absurd least.1 (noStop start), ?_⟩
            intro _ front held same greatest
            obtain ⟨rfl, rfl⟩ := (cut_iff_isGreatest same).mp greatest
            exact clean

/-- For any pieces and stops: no chunk ends inside a character, whoever receives them,
exactly when the run is clean. -/
theorem chunks_whole_iff (stops pieces : List Bytes) :
    (∀ (Client : Type) (onChunk : ChunkCallback Client) (client : Client),
      ∀ chunk ∈ (drain onChunk stops pieces ⟨client, []⟩).2.chunks, ¬ EndsTruncated chunk) ↔
      CleanRun stops [] pieces := by
  rw [cleanRun_iff]
  constructor
  · intro whole chunk member
    by_cases empty : chunk = []
    · rw [empty]
      exact not_endsTruncated_nil
    · exact whole Unit (some fun _ => pure true) () chunk
        ((@emissions_subset_chunks { stops := stops } pieces ⟨(), []⟩).2 chunk member empty)
  · intro whole Client onChunk client chunk member
    obtain impossible | emitted :=
      @chunks_subset_emissions Client onChunk { stops := stops } pieces ⟨client, []⟩ chunk member
    · simp [Receiver.chunks] at impossible
    · exact whole chunk emitted

/-- A lead byte in front of what may become a stop is a chunk of its own. -/
theorem chunk_ends_truncated :
    ¬ ∀ (stops pieces : List Bytes),
      ∀ chunk ∈ (drain (some fun _ => (pure true : Program Unit Exception Bool)) stops pieces
        ⟨(), []⟩).2.chunks, ¬ EndsTruncated chunk := by
  intro whole
  have chunks : (drain (some fun _ => (pure true : Program Unit Exception Bool)) [literal "AB"]
      [[0xC3], literal "A"] ⟨(), []⟩).2.chunks = [[0xC3], literal "A"] := by decide
  refine whole [literal "AB"] [[0xC3], literal "A"] [0xC3] (by simp [chunks]) ?_
  exact ⟨[], [0xC3], rfl, 0xC3, [], rfl, by simp, by decide⟩

end Whole

end Llamad.StreamFilter
