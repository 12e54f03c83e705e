import Llamad.Engine.StreamTruncation

/-!
# Stop strings and token boundaries

The filter ends at the first piece that completes a stop and cuts at the earliest
start of one. Cutting the same text into other pieces can complete another stop
first. `deliveredText_eq_iff` says when it cannot: when the stop that starts first
also ends first.
-/

namespace Llamad.StreamFilter

open Logical Logical.Utf8 Semantics Program

variable {Client : Type}

/-- All text a callback was handed by the time a run over these pieces is over. -/
def deliveredText (callback : Bytes → Program Client Exception Bool) (stops pieces : List Bytes)
    (client : Client) : Bytes :=
  (drain (some callback) stops pieces ⟨client, []⟩).2.chunks.flatten

/-- A run over these pieces ends at the first that completes a stop, and delivers what is in
front of the earliest start of one by then. -/
def EndsAtFirstStop (callback : Bytes → Program Client Exception Bool) (stops pieces : List Bytes)
    (client : Client) : Prop :=
  ∀ before piece after start, pieces = before ++ piece :: after →
    (∀ other, ¬ StopAt stops before.flatten other) →
    IsLeast {start | StopAt stops (before.flatten ++ piece) start} start →
      (drain (some callback) stops pieces ⟨client, []⟩).1 =
          .ok (before.map (fun _ => .continue) ++ [.stopped]) ∧
        deliveredText callback stops pieces client = (before.flatten ++ piece).take start

/-- Everything in front of the first stop string of a text. -/
def beforeFirstStop (stops : List Bytes) (text : Bytes) : Bytes :=
  match earliestMatch stops text with
  | some start => text.take start
  | none => text

/-- Among the stops of a text none ends before every one that starts first. -/
def FirstStopEndsFirst (stops : List Bytes) (text : Bytes) : Prop :=
  ∀ start, IsLeast {start | StopAt stops text start} start →
    ∀ other stop, stop ∈ stops → stop ≠ [] → OccursAt stop text other →
      ∃ first ∈ stops, first ≠ [] ∧ OccursAt first text start ∧
        start + first.length ≤ other + stop.length

variable {callback : Bytes → Program Client Exception Bool} {stops : List Bytes}

/-- Without a stop in it, a valid text is delivered whole. -/
theorem deliveredText_of_noStop (accepts : Accepts callback) (leads : StopsLead stops)
    (pieces : List Bytes) (client : Client) (valid : Valid pieces.flatten)
    (noStop : ∀ start, ¬ StopAt stops pieces.flatten start) :
    deliveredText callback stops pieces client = pieces.flatten := by
  obtain ⟨last, ran, ⟨tail, same, shape⟩, _⟩ := drain_continue accepts leads pieces client
    ⟨[], by simpa using valid⟩ noStop
  rw [deliveredText, ran]
  obtain rfl | charPrefix := shape
  · rw [same, List.append_nil]
  · exact absurd ⟨_, tail, same, charPrefix.truncated⟩ valid.not_endsTruncated

/-- With a stop in it, a valid text is delivered up to the earliest start of a stop in
the pieces that first complete one. -/
theorem endsAtFirstStop (accepts : Accepts callback) (leads : StopsLead stops)
    (pieces : List Bytes) (client : Client) (valid : Valid pieces.flatten) :
    EndsAtFirstStop callback stops pieces client := by
  rintro before piece after start rfl noStop least
  have prefixed : ValidPrefix (before.flatten ++ piece) := ⟨after.flatten, by simpa using valid⟩
  obtain ⟨last, ran, delivered, _⟩ :=
    drain_stopped accepts leads before after client prefixed noStop least
  rw [deliveredText, ran]
  exact ⟨rfl, delivered⟩

/-- In one piece, a text is cut at its first stop. -/
theorem deliveredText_singleton (accepts : Accepts callback) (leads : StopsLead stops)
    {text : Bytes} (client : Client) (valid : Valid text) :
    deliveredText callback stops [text] client = beforeFirstStop stops text := by
  cases found : earliestMatch stops text with
  | none =>
      have noStop := earliestMatch_eq_none_iff.mp found
      rw [deliveredText_of_noStop accepts leads [text] client (by simpa using valid)
        (by simpa using noStop), beforeFirstStop, found]
      simp
  | some start =>
      obtain ⟨stopAt, least⟩ := earliestMatch_eq_some_iff.mp found
      have delivered := (endsAtFirstStop accepts leads [text] client (by simpa using valid)
        [] text [] start rfl (Held.initial stops).noStop
        (by simpa using ⟨stopAt, fun other => least other⟩)).2
      rw [beforeFirstStop, found]
      simpa using delivered

/-- When the stop that starts first ends first, no cutting moves the cut. -/
theorem deliveredText_eq_beforeFirstStop (accepts : Accepts callback) (leads : StopsLead stops)
    (pieces : List Bytes) (client : Client) (valid : Valid pieces.flatten)
    (ordered : FirstStopEndsFirst stops pieces.flatten) :
    deliveredText callback stops pieces client = beforeFirstStop stops pieces.flatten := by
  cases found : earliestMatch stops pieces.flatten with
  | none =>
      rw [beforeFirstStop, found]
      exact deliveredText_of_noStop accepts leads pieces client valid
        (earliestMatch_eq_none_iff.mp found)
  | some first =>
      obtain ⟨stopAt, least⟩ := earliestMatch_eq_some_iff.mp found
      obtain ⟨before, piece, after, rfl, noStop, start, leastHere⟩ :=
        exists_first_completed pieces [] (Held.initial stops).noStop ⟨first, stopAt⟩
      have regroup : (before ++ piece :: after).flatten =
          before.flatten ++ piece ++ after.flatten := by simp
      simp only [List.nil_append] at noStop leastHere
      have delivered := (endsAtFirstStop accepts leads _ client valid _ _ _ _ rfl noStop
        leastHere).2
      rw [regroup] at ordered found stopAt least
      obtain ⟨stop, member, nonempty, occurs⟩ := id leastHere.1
      -- The stop that the pieces complete ends inside them, so the first one does too.
      obtain ⟨firstStop, firstMember, firstNonempty, firstOccurs, early⟩ :=
        ordered first ⟨stopAt, fun other => least other⟩ start stop member nonempty
          (occurs.append after.flatten)
      have inside := occurs.end_le
      have firstHere := firstOccurs.of_append_of_le (Nat.le_trans early inside)
      have same : start = first := Nat.le_antisymm
        (leastHere.2 ⟨firstStop, firstMember, firstNonempty, firstHere⟩)
        (least start (leastHere.1.append after.flatten))
      subst same
      rw [delivered, beforeFirstStop, regroup, found]
      have bound := firstHere.end_le
      have cut : start ≤ (before.flatten ++ piece).length := by omega
      exact (List.take_append_of_le_length cut).symm

/-- Where some stop ends before every one that starts first, the text cut behind it has its
first stop later than the whole. -/
theorem exists_cut_of_not_firstStopEndsFirst {text : Bytes}
    (unordered : ¬ FirstStopEndsFirst stops text) :
    ∃ start cut begins, IsLeast {start | StopAt stops text start} start ∧
      IsLeast {start | StopAt stops (text.take cut) start} begins ∧ start < begins := by
  unfold FirstStopEndsFirst at unordered
  push Not at unordered
  obtain ⟨start, least, other, stop, member, nonempty, occurs, later⟩ := unordered
  let cut := other + stop.length
  have bound : cut ≤ text.length := occurs.end_le
  have early : StopAt stops (text.take cut) other := by
    refine ⟨stop, member, nonempty, ?_⟩
    rw [← List.take_append_drop cut text] at occurs
    exact occurs.of_append_of_le (by simp only [List.length_take]; omega)
  obtain ⟨begins, leastHere⟩ := exists_isLeast_stopAt ⟨other, early⟩
  have inText : StopAt stops text begins := by
    have grown := leastHere.1.append (text.drop cut)
    rwa [List.take_append_drop] at grown
  refine ⟨start, cut, begins, least, leastHere, Nat.lt_of_le_of_ne (least.2 inText) ?_⟩
  rintro rfl
  -- A stop that starts first and fits in front of the cut would end before `stop` does.
  obtain ⟨first, firstMember, firstNonempty, firstOccurs⟩ := leastHere.1
  have ends := firstOccurs.end_le
  have firstInText := firstOccurs.append (text.drop cut)
  rw [List.take_append_drop] at firstInText
  have late := later first firstMember firstNonempty firstInText
  rw [List.length_take] at ends
  omega

/-- However a text is cut, the first piece that completes a stop ends the run; what is
delivered is independent of the cutting exactly on the texts whose first-starting stop is
also the first to end. -/
theorem deliveredText_eq_iff (accepts : Accepts callback) (leads : StopsLead stops)
    {text : Bytes} (client : Client) (valid : Valid text) :
    (∀ pieces : List Bytes, pieces.flatten = text →
      EndsAtFirstStop callback stops pieces client) ∧
    ((∀ pieces pieces' : List Bytes, pieces.flatten = text → pieces'.flatten = text →
      deliveredText callback stops pieces client = deliveredText callback stops pieces' client ∧
      deliveredText callback stops pieces client = beforeFirstStop stops text) ↔
      FirstStopEndsFirst stops text) := by
  refine ⟨fun pieces same => endsAtFirstStop accepts leads pieces client (same ▸ valid), ?_⟩
  constructor
  · intro independent
    by_contra unordered
    obtain ⟨start, cut, begins, least, leastHere, after⟩ :=
      exists_cut_of_not_firstStopEndsFirst unordered
    have joined : [text.take cut, text.drop cut].flatten = text := by simp
    have delivered := (endsAtFirstStop accepts leads [text.take cut, text.drop cut] client
      (joined.symm ▸ valid) [] (text.take cut) [text.drop cut] begins rfl
      (Held.initial stops).noStop (by simpa using leastHere)).2
    have expected := (independent _ _ joined joined).2
    have found : earliestMatch stops text = some start :=
      earliestMatch_eq_some_iff.mpr ⟨least.1, fun other stopAt => least.2 stopAt⟩
    rw [delivered, beforeFirstStop, found] at expected
    obtain ⟨first, _, _, firstOccurs⟩ := leastHere.1
    have ends := firstOccurs.end_le
    have lengths := congrArg List.length expected
    simp only [List.flatten_nil, List.nil_append, List.length_take] at lengths ends
    omega
  · rintro ordered pieces pieces' rfl same
    have delivered := deliveredText_eq_beforeFirstStop accepts leads pieces client valid ordered
    rw [← same] at valid ordered
    have delivered' := deliveredText_eq_beforeFirstStop accepts leads pieces' client valid ordered
    exact ⟨by rw [delivered, delivered', same], delivered⟩

/-- One stop inside another, cut so that the inner one is complete first; and a stop that
begins inside a character, cut in front of its second byte. -/
theorem deliveredText_depends_on_pieces :
    ¬ (∀ stops pieces pieces', Valid pieces.flatten → pieces.flatten = pieces'.flatten →
        (∀ stop ∈ stops, Valid stop) →
        deliveredText (fun _ => (pure true : Program Unit Exception Bool)) stops pieces () =
          deliveredText (fun _ => (pure true : Program Unit Exception Bool)) stops pieces' ()) ∧
    ¬ (∀ stops pieces pieces', Valid pieces.flatten → pieces.flatten = pieces'.flatten →
        FirstStopEndsFirst stops pieces.flatten →
        deliveredText (fun _ => (pure true : Program Unit Exception Bool)) stops pieces () =
          deliveredText (fun _ => (pure true : Program Unit Exception Bool)) stops pieces' ()) := by
  constructor
  · intro independent
    have same := independent [literal "abc", literal "b"] [literal "abc"]
      [literal "ab", literal "c"] ⟨"abc".toList, rfl⟩ rfl (by
        intro stop member
        simp only [List.mem_cons, List.not_mem_nil, or_false] at member
        obtain rfl | rfl := member
        · exact ⟨"abc".toList, rfl⟩
        · exact ⟨"b".toList, rfl⟩)
    exact absurd same (by decide)
  · intro independent
    have same := independent [[0xA9, 0x62]] [literal "éb"] [literal "é", literal "b"]
      ⟨"éb".toList, rfl⟩ rfl (by
        intro start least other stop member nonempty occurs
        obtain rfl := List.mem_singleton.mp member
        refine ⟨_, List.mem_singleton_self _, nonempty, ?_, ?_⟩
        · obtain ⟨stop, member, _, occurs⟩ := least.1
          rwa [List.mem_singleton.mp member] at occurs
        · have bound := least.2 ⟨_, List.mem_singleton_self _, nonempty, occurs⟩
          omega)
    exact absurd same (by decide)

/-- Of two overlapping stops the text has only the inner one. -/
theorem deliveredText_overlapping :
    deliveredText (fun _ => (pure true : Program Unit Exception Bool))
        [literal "abc", literal "b"] [literal "xa", literal "b", literal "d"] () =
      literal "xa" := by
  have accepts : Accepts fun _ => (pure true : Program Unit Exception Bool) := fun _ _ => rfl
  have noOuter : ∀ start, ¬ OccursAt (literal "abc") (literal "xabd") start :=
    find?_eq_none_iff.mp rfl
  have leads : StopsLead [literal "abc", literal "b"] := by
    apply stopsLead_of_valid
    intro stop member
    simp only [List.mem_cons, List.not_mem_nil, or_false] at member
    obtain rfl | rfl := member
    · exact ⟨"abc".toList, rfl⟩
    · exact ⟨"b".toList, rfl⟩
  have ordered : FirstStopEndsFirst [literal "abc", literal "b"] (literal "xabd") := by
    intro start least other stop member nonempty occurs
    obtain ⟨first, firstMember, firstNonempty, firstOccurs⟩ := id least.1
    have bound := least.2 ⟨stop, member, nonempty, occurs⟩
    refine ⟨first, firstMember, firstNonempty, firstOccurs, ?_⟩
    simp only [List.mem_cons, List.not_mem_nil, or_false] at member firstMember
    obtain rfl | rfl := member
    · exact absurd occurs (noOuter other)
    · obtain rfl | rfl := firstMember
      · exact absurd firstOccurs (noOuter start)
      · omega
  have independent := (deliveredText_eq_iff accepts leads () ⟨"xabd".toList, rfl⟩).2.mpr ordered
  rw [(independent [literal "xa", literal "b", literal "d"] [literal "xabd"] rfl rfl).2]
  rfl

end Llamad.StreamFilter
