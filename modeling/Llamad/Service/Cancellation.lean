import Llamad.Engine.SampleFreshness
import Llamad.Service.Rpc
import Mathlib.Logic.Relation

/-!
# Cancelling a generation

A cancellation is noticed in the chunk callback, which runs only when the stream filter
lets text go. From any point of a generation loop at which the call is cancelled, at most
one more token is sampled exactly if the next token does not slip through the filter
unseen (`Slips`).
-/

namespace Llamad

open Logical Semantics Program Session

variable {llama : Llama} {common : Common}

namespace StreamFilter

variable {Client : Type} {filter : StreamFilter} {piece : Bytes}

/-- The filter lets nothing go for a piece, and waits for the next one. -/
def Withholds (filter : StreamFilter) (piece : Bytes) : Prop :=
  earliestMatch filter.stops (filter.pending ++ piece) = none ∧
    safe filter.stops (filter.pending ++ piece) = 0

instance : Decidable (filter.Withholds piece) := inferInstanceAs (Decidable (_ ∧ _))

/-- A withheld piece is not delivered to anyone. -/
theorem push_of_withholds (withholds : filter.Withholds piece) (onChunk : ChunkCallback Client)
    (receiver : Receiver Client) :
    push onChunk filter piece receiver =
      (.ok (.continue, { filter with pending := filter.pending ++ piece }), receiver) := by
  rw [push_of_noMatch withholds.1, withholds.2]
  simp [bind_apply]

/-- A callback that declines everything ends the generation unless the piece is withheld. -/
theorem withholds_of_declined {callback : Bytes → Program Client Exception Bool}
    {receiver after : Receiver Client} {next : StreamFilter}
    (declines : ∀ text, ∃ client, callback text receiver.client = (.ok false, client))
    (goesOn : push (some callback) filter piece receiver = (.ok (.continue, next), after)) :
    filter.Withholds piece := by
  cases found : earliestMatch filter.stops (filter.pending ++ piece) with
  | some start =>
      rw [push_of_match found, bind_eq_ok_iff] at goesOn
      obtain ⟨accepted, _, _, returned⟩ := goesOn
      cases accepted <;> cases returned
  | none =>
      refine ⟨found, Nat.eq_zero_of_not_pos fun lets => ?_⟩
      rw [push_of_noMatch found, bind_eq_ok_iff] at goesOn
      obtain ⟨accepted, _, delivered, returned⟩ := goesOn
      have nonempty : (filter.pending ++ piece).take
          (safe filter.stops (filter.pending ++ piece)) ≠ [] := by
        rw [← List.length_pos_iff, List.length_take]
        have within : safe filter.stops (filter.pending ++ piece) ≤
            (filter.pending ++ piece).length := Nat.sub_le _ _
        omega
      obtain ⟨client, declined⟩ := declines
        ((filter.pending ++ piece).take (safe filter.stops (filter.pending ++ piece)))
      simp only [deliver, if_neg nonempty, declined] at delivered
      cases delivered
      cases returned

end StreamFilter

section Samples

variable (config : EngineConfig) (params : SamplingParams) (resolved : ResolvedTokens)

/-- The next token slips through: it ends nothing, its text is withheld, it is decoded, and
the sampler finds another one. -/
inductive Slips {Client : Type} (locals : Locals llama) (session : Session llama Client) : Prop
  | mk {token second : Token} {sampler other : SamplerChain llama} {piece : Bytes}
      {host : llama.Host} {evicted : Nat} {logits : Token → llama.Logit}
      (samples : Samples params locals session token sampler)
      (unfinished : llama.isEog token = false)
      (rendered : tokenToPiece llama token (token ∈ resolved.preserved) = .ok piece)
      (withheld : locals.filter.Withholds piece)
      (unspent : budgetSpent params (locals.completionTokens + 1) = false)
      (room : session.impl.cached.length + 1 ≤ config.nCtxSeq)
      (answer : llama.decode session.impl.context.host session.impl.context.memory [token] =
        (.done evicted logits, host))
      (again : sampler.sample logits = .ok (second, other))

variable {config params resolved} {Client : Type} {onChunk : ChunkCallback Client}
  {locals : Locals llama} {session : Session llama Client} {token : Token}
  {sampler : SamplerChain llama}

theorem ended_eq_none_iff {status : StreamFilter.Status} :
    ended params locals status = none ↔
      status = .continue ∧ budgetSpent params locals.completionTokens = false := by
  cases status with
  | stopped => simp [ended]
  | cancelled => simp [ended]
  | «continue» => simp [ended]

/-- The rest of a generation only adds to the log. -/
theorem generation_log (locals : Locals llama) (session : Session llama Client) :
    session.impl.log <+: (generation config params resolved onChunk locals session).2.impl.log :=
  ((Impl.Invariant.of_snoc fun log _ before => before.trans (List.prefix_append log _)).generation
    params resolved onChunk locals).final List.prefix_rfl

theorem drawn_length_le {front log : List (Entry llama)} (part : front <+: log) :
    (drawn front).length ≤ (drawn log).length :=
  (part.filterMap _).length_le

variable (config params resolved onChunk) in
/-- A generation has done what its first round did. -/
theorem generationRound_log (locals : Locals llama) (session : Session llama Client) :
    (generationRound config params resolved onChunk locals session).2.impl.log <+:
      (generation config params resolved onChunk locals session).2.impl.log := by
  match ran : generationRound config params resolved onChunk locals session with
  | (.error error, after) => rw [generation, loop_of_error ran]
  | (.ok (.inr ending), after) => rw [generation, loop_of_inr ran]
  | (.ok (.inl next), after) =>
      rw [generation, loop_of_inl ran]
      exact generation_log next after

/-- A round logs the token it samples, if it samples one. -/
theorem RoundOutcome.drawn_eq
    {result : Except Exception (Locals llama ⊕ Ending llama) × Session llama Client}
    (outcome : RoundOutcome config params resolved onChunk locals session result) :
    (drawn result.2.impl.log = drawn session.impl.log ∧
        ∀ token sampler, ¬ Samples params locals session token sampler) ∨
      ∃ token sampler, Samples params locals session token sampler ∧
        drawn result.2.impl.log = drawn session.impl.log ++ [token] := by
  cases outcome with
  | spent exhausted =>
      refine .inl ⟨rfl, fun token sampler samples => ?_⟩
      rw [samples.spare] at exhausted
      cases exhausted
  | unsampled _ failed =>
      refine .inl ⟨rfl, fun token sampler samples => ?_⟩
      rw [samples.drew] at failed
      cases failed
  | eog samples _ => exact .inr ⟨_, _, samples, drawn_sampled _ _⟩
  | unrendered samples _ _ => exact .inr ⟨_, _, samples, drawn_sampled _ _⟩
  | undelivered samples _ _ _ => exact .inr ⟨_, _, samples, drawn_sampled _ _⟩
  | ends pushes _ => exact .inr ⟨_, _, pushes.toSamples, drawn_sampled _ _⟩
  | full goesOn _ => exact .inr ⟨_, _, goesOn.toSamples, drawn_sampled _ _⟩
  | decoded goesOn _ _ =>
      exact .inr ⟨_, _, goesOn.toSamples, by rw [drawn_extended, drawn_sampled]⟩
  | noSlot goesOn _ _ _ =>
      exact .inr ⟨_, _, goesOn.toSamples, by rw [drawn_decoded, drawn_emptied, drawn_sampled]⟩
  | failed goesOn _ _ _ =>
      exact .inr ⟨_, _, goesOn.toSamples, by rw [drawn_decoded, drawn_emptied, drawn_sampled]⟩
  | threw goesOn _ _ =>
      exact .inr ⟨_, _, goesOn.toSamples, by rw [drawn_decoded, drawn_emptied, drawn_sampled]⟩

/-- A token that slips through takes the loop round, with another one to come. -/
theorem Slips.goesRound (slips : Slips config params resolved locals session) :
    ∃ next after token second other,
      generationRound config params resolved onChunk locals session = (.ok (.inl next), after) ∧
      drawn after.impl.log = drawn session.impl.log ++ [token] ∧
      Samples params next after second other := by
  obtain @⟨token, second, sampler, other, piece, host, evicted, logits, samples, unfinished,
    rendered, withheld, unspent, room, answer, again⟩ := slips
  have pushed := StreamFilter.push_of_withholds withheld onChunk session.receiver
  have drew : draw locals.sampler session.impl =
      (.ok (token, sampler), session.impl.sampled token) := by
    obtain ⟨_, _, found, ran⟩ | ⟨_, failed, _⟩ := draw_cases locals.sampler session.impl
    · rw [samples.drew] at found
      cases found
      exact ran
    · rw [samples.drew] at failed
      cases failed
  have decoded : decodeNext config token (session.impl.sampled token) =
      (.ok true, Impl.extended host [token] evicted logits (session.impl.sampled token)) := by
    have found : llama.decode (session.impl.sampled token).context.host
        (session.impl.sampled token).context.memory [token] = (.done evicted logits, host) := answer
    obtain ⟨noRoom, _⟩ | ⟨_, ⟨_, _, _, here, ran⟩ | ⟨_, _, _, _, here, _⟩ | ⟨_, _, _, here, _⟩⟩ :=
      decodeNext_cases config token (session.impl.sampled token)
    · exact absurd room (Nat.not_le_of_lt noRoom)
    · rw [found] at here
      cases here
      exact ran
    · rw [found] at here
      cases here
    · rw [found] at here
      cases here
  let next : Locals llama :=
    locals.next sampler { locals.filter with pending := locals.filter.pending ++ piece }
  have unended : ended params next .continue = none := ended_eq_none_iff.mpr ⟨rfl, unspent⟩
  refine ⟨next, ⟨Impl.extended host [token] evicted logits (session.impl.sampled token),
    session.receiver⟩, token, second, other, ?_, ?_, unspent, again⟩
  · simp only [next, Locals.next] at unended ⊢
    simp only [generationRound, samples.spare, Bool.false_eq_true, if_false, bind_apply,
      onImpl_apply, drew, unfinished, attempt_apply, rendered, onReceiver_apply, pushed, unended,
      decoded, if_true, pure_apply]
  · rw [drawn_extended, drawn_sampled]

/-- Where a token slips through, another one is sampled. -/
theorem Slips.samples (slips : Slips config params resolved locals session) :
    (drawn session.impl.log).length + 2 ≤
      (drawn (generation config params resolved onChunk locals session).2.impl.log).length := by
  obtain ⟨next, after, token, second, other, round, first, samples⟩ :=
    @Slips.goesRound _ _ _ _ _ onChunk _ _ slips
  have again : generation config params resolved onChunk locals session =
      generation config params resolved onChunk next after := loop_of_inl round
  have logged := drawn_length_le (generationRound_log config params resolved onChunk next after)
  obtain ⟨_, none⟩ | ⟨_, _, _, drew⟩ :=
    (generationRound_outcome config params resolved onChunk next after).drawn_eq
  · exact absurd samples (none _ _)
  · rw [drew, first] at logged
    rw [again]
    simpa using logged

/-- A loop that samples no token at its head samples none. -/
theorem drawn_of_unsampled (none : ∀ token sampler, ¬ Samples params locals session token sampler) :
    drawn (generation config params resolved onChunk locals session).2.impl.log =
      drawn session.impl.log := by
  have outcome := generationRound_outcome config params resolved onChunk locals session
  have same : drawn (generationRound config params resolved onChunk locals session).2.impl.log =
      drawn session.impl.log := by
    obtain ⟨same, _⟩ | ⟨token, sampler, samples, _⟩ := outcome.drawn_eq
    · exact same
    · exact absurd samples (none token sampler)
  match ran : generationRound config params resolved onChunk locals session with
  | (.error error, after) =>
      rw [ran] at same
      rwa [generation, loop_of_error ran]
  | (.ok (.inr ending), after) =>
      rw [ran] at same
      rwa [generation, loop_of_inr ran]
  | (.ok (.inl next), after) =>
      rw [ran] at outcome
      cases outcome with
      | decoded goesOn _ _ => exact absurd goesOn.toSamples (none _ _)

/-- At most one more token is sampled unless one slips through, as long as what takes the
loop round is withheld. -/
theorem samples_le_of_not_slips (slipless : ¬ Slips config params resolved locals session)
    (unheard : ∀ {token sampler piece status filter receiver},
      GoesOn params resolved onChunk locals session token sampler piece status filter receiver →
        locals.filter.Withholds piece) :
    (drawn (generation config params resolved onChunk locals session).2.impl.log).length ≤
      (drawn session.impl.log).length + 1 := by
  have outcome := generationRound_outcome config params resolved onChunk locals session
  have once : (drawn (generationRound config params resolved onChunk locals
      session).2.impl.log).length ≤ (drawn session.impl.log).length + 1 := by
    obtain ⟨same, _⟩ | ⟨token, _, _, drew⟩ := outcome.drawn_eq
    · rw [same]
      exact Nat.le_succ _
    · rw [drew, List.length_append, List.length_singleton]
  match ran : generationRound config params resolved onChunk locals session with
  | (.error error, after) =>
      rw [ran] at once
      rwa [generation, loop_of_error ran]
  | (.ok (.inr ending), after) =>
      rw [ran] at once
      rwa [generation, loop_of_inr ran]
  | (.ok (.inl next), after) =>
      rw [ran] at once outcome
      have unsampled : ∀ second other, ¬ Samples params next after second other := by
        intro second other samples
        cases outcome with
        | decoded goesOn room answer =>
            exact slipless (.mk goesOn.toSamples goesOn.unfinished goesOn.rendered
              (unheard goesOn) samples.spare room answer samples.drew)
      have again : generation config params resolved onChunk locals session =
          generation config params resolved onChunk next after := loop_of_inl ran
      rwa [again, drawn_of_unsampled unsampled]

end Samples

section Stream

variable {peer : Peer} {config : EngineConfig} {entropy : llama.Entropy} {prompt : Bytes}
  {params : SamplingParams} {resolved : ResolvedTokens} {locals : Locals llama}
  {session here : Session llama (Call llama common)}

/-- While the call is cancelled the handler declines every piece. -/
theorem Call.hear_declines {call : Call llama common}
    (cancelled : peer.isCancelled call.log = true) (text : Bytes) :
    ∃ after, Call.hear peer text call = (.ok false, after) := by
  refine ⟨{ call with log := call.log ++ [.asked true], clientGone := true }, ?_⟩
  simp only [Call.hear, Call.isCancelled, Call.setClientGone, bind_apply, get_apply, modify_apply,
    pure_apply, cancelled, if_true]

/-- A round goes round to the next head of the loop. -/
def GoesRound (config : EngineConfig) (params : SamplingParams) (resolved : ResolvedTokens)
    (onChunk : ChunkCallback (Call llama common))
    (head next : Locals llama × Session llama (Call llama common)) : Prop :=
  generationRound config params resolved onChunk head.1 head.2 = (.ok (.inl next.1), next.2)

variable (peer config entropy prompt params) in
/-- The run of `streamGeneration` from `session` comes to the head of its generation loop in
`here`, carrying `locals`. -/
inductive StandsAt (session : Session llama (Call llama common)) :
    ResolvedTokens → Locals llama → Session llama (Call llama common) → Prop
  | mk {admitted : Admitted llama} {kept : Nat}
      {trimmed started here : Session llama (Call llama common)} {locals : Locals llama}
      (passed : admission config entropy prompt params = .ok admitted)
      (keeps : onImpl (Impl.keepPrefix admitted.tokens) session = (.ok kept, trimmed))
      (prompts : onImpl (decodePrompt config admitted.tokens kept) trimmed = (.ok (), started))
      (rounds : Relation.ReflTransGen
        (GoesRound config params admitted.resolved (Call.onChunk peer))
        (⟨admitted.sampler, { stops := params.stop }, 0⟩, started) (locals, here)) :
      StandsAt session admitted.resolved locals here

/-- From every head a run comes to, it goes on like a loop begun there. -/
theorem generation_of_rounds {head next : Locals llama × Session llama (Call llama common)}
    {onChunk : ChunkCallback (Call llama common)}
    (rounds : Relation.ReflTransGen (GoesRound config params resolved onChunk) head next) :
    generation config params resolved onChunk head.1 head.2 =
      generation config params resolved onChunk next.1 next.2 := by
  induction rounds with
  | refl => rfl
  | tail _ round inductionHypothesis => exact inductionHypothesis.trans (loop_of_inl round)

/-- What follows the generation loop leaves the engine alone. -/
theorem streamGeneration_impl_of_prompted {admitted : Admitted llama} {kept : Nat}
    {trimmed started : Session llama (Call llama common)}
    (passed : admission config entropy prompt params = .ok admitted)
    (keeps : onImpl (Impl.keepPrefix admitted.tokens) session = (.ok kept, trimmed))
    (prompts : onImpl (decodePrompt config admitted.tokens kept) trimmed = (.ok (), started)) :
    (streamGeneration peer config entropy prompt params session).2.impl =
      (generation config params admitted.resolved (Call.onChunk peer)
        ⟨admitted.sampler, { stops := params.stop }, 0⟩ started).2.impl := by
  have responds : generate config entropy prompt params (Call.onChunk peer) session =
      respond config params (Call.onChunk peer) admitted kept started := by
    rw [generate, bind_apply, attempt_apply, passed]
    exact (bind_of_ok keeps).trans (bind_of_ok prompts)
  let looped := generation config params admitted.resolved (Call.onChunk peer)
    ⟨admitted.sampler, { stops := params.stop }, 0⟩ started
  let stays (after : Session llama (Call llama common)) : Prop := after.impl = looped.2.impl
  have generating : Triple (fun state => state = started)
      (generation config params admitted.resolved (Call.onChunk peer)
        ⟨admitted.sampler, { stops := params.stop }, 0⟩) (fun _ => stays) (fun _ => stays) := by
    rintro _ rfl
    exact (meets_final looped).imp (fun _ _ _ same => congrArg Session.impl same)
      fun _ _ _ same => congrArg Session.impl same
  have responding : Triple (fun state => state = started)
      (respond config params (Call.onChunk peer) admitted kept) (fun _ => stays)
      (fun _ => stays) :=
    .bind generating fun ending => .bind
      (flushEnding_preserves (fun impl => impl = looped.2.impl) (Call.onChunk peer) ending)
      fun _ => .pure fun _ same => same
  have streams : streamGeneration peer config entropy prompt params session =
      (respond config params (Call.onChunk peer) admitted kept >>= fun result =>
        onClient (Call.conclude peer result) >>= fun _ => pure Status.ok :
        Program (Session llama (Call llama common)) Exception Status) started := by
    rw [streamGeneration, bind_apply, bind_apply, responds]
  rw [streams]
  have concluding : Triple (fun state => state = started)
      (respond config params (Call.onChunk peer) admitted kept >>= fun result =>
        onClient (Call.conclude peer result) >>= fun _ => pure Status.ok :
        Program (Session llama (Call llama common)) Exception Status) (fun _ => stays)
      (fun _ => stays) :=
    .bind responding fun result => .bind
      (onClient_preserves (fun impl => impl = looped.2.impl) (Call.conclude peer result))
      fun _ => .pure fun _ same => same
  exact (concluding started rfl).final

/-- From the head it stands at, a call does what a generation loop begun there does. -/
theorem StandsAt.streamGeneration_impl
    (head : StandsAt peer config entropy prompt params session resolved locals here) :
    (streamGeneration peer config entropy prompt params session).2.impl =
      (generation config params resolved (Call.onChunk peer) locals here).2.impl := by
  obtain ⟨passed, keeps, prompts, rounds⟩ := head
  rw [streamGeneration_impl_of_prompted passed keeps prompts]
  exact congrArg (fun run => run.2.impl) (generation_of_rounds rounds)

/-- Wherever the generation loop of a Generate or a Chat stands when the call is cancelled:
at most one more token is sampled, exactly if none slips through there. A cancellation
inside a round is noticed in that round, or the loop stands at its next head with it. -/
theorem streamGeneration_cancelled_iff
    (head : StandsAt peer config entropy prompt params session resolved locals here)
    (cancelled : peer.isCancelled here.receiver.client.log = true) :
    (drawn (streamGeneration peer config entropy prompt params session).2.impl.log).length ≤
        (drawn here.impl.log).length + 1 ↔
      ¬ Slips config params resolved locals here := by
  rw [head.streamGeneration_impl]
  constructor
  · intro few slips
    have many := @Slips.samples _ _ _ _ _ (Call.onChunk peer) _ _ slips
    omega
  · intro slipless
    refine samples_le_of_not_slips slipless fun goesOn => ?_
    obtain ⟨rfl, _⟩ := ended_eq_none_iff.mp goesOn.unended
    exact StreamFilter.withholds_of_declined (Call.hear_declines cancelled) goesOn.pushed

/-- A backend with one token, which never ends a generation. -/
def Llama.repeating (piece : Bytes) : Llama :=
  { Llama.bytes fun _ => 0 with
    nVocab := 1
    tokenToPiece := fun _ _ _ => (piece.length, piece) }

/-- A chat layer that is not asked anything. -/
def Common.unasked : Common := Common.parsing (fun _ => true) fun _ _ => .ok {}

/-- A client that has cancelled. -/
def Peer.cancelled : Peer := ⟨fun _ => true, fun _ _ => true⟩

/-- An engine over that backend. -/
def repeatingConfig : EngineConfig := ⟨4, 2, false, 0, by decide, by decide⟩

section Repeating

variable (piece : Bytes)

/-- A call of that backend. -/
def repeatingSession :
    Session (Llama.repeating piece) (Call (Llama.repeating piece) Common.unasked) :=
  ⟨Impl.fresh () fun _ => (Llama.repeating piece).zero, ⟨{}, []⟩⟩

/-- The session with the prompt decoded. -/
def repeatingStart :
    Session (Llama.repeating piece) (Call (Llama.repeating piece) Common.unasked) :=
  { repeatingSession piece with
    impl := Impl.extended () [97] 0
      (fun token => if token = 0 then (Llama.repeating piece).one else (Llama.repeating piece).zero)
      (Impl.record (.keptPrefix [97] 0) (Impl.emptied () (repeatingSession piece).impl)) }

/-- The generation loop stands at its first head when the prompt is decoded. -/
theorem repeating_standsAt :
    StandsAt Peer.cancelled repeatingConfig () (literal "a") { temperature := 0 }
      (repeatingSession piece) {} ⟨⟨1, (), none⟩, { stops := [] }, 0⟩ (repeatingStart piece) := by
  let trimmed : Impl (Llama.repeating piece) :=
    Impl.record (.keptPrefix [97] 0) (Impl.emptied () (repeatingSession piece).impl)
  have passed : admission repeatingConfig () (literal "a") { temperature := 0 } =
      .ok (⟨[97], {}, ⟨1, (), none⟩⟩ : Admitted (Llama.repeating piece)) := rfl
  have keeps : onImpl (Impl.keepPrefix [97]) (repeatingSession piece) =
      (.ok 0, { repeatingSession piece with impl := trimmed }) := rfl
  have first : promptRound repeatingConfig [97] 0 trimmed =
      (.ok (.inl 1), (repeatingStart piece).impl) := rfl
  have last : promptRound repeatingConfig [97] 1 (repeatingStart piece).impl =
      (.ok (.inr ()), (repeatingStart piece).impl) := rfl
  have decoded : decodePrompt repeatingConfig [97] 0 trimmed =
      (.ok (), (repeatingStart piece).impl) :=
    (loop_of_inl first).trans (loop_of_inr last)
  refine .mk passed keeps ?_ .refl
  rw [onImpl_apply, decoded]
  rfl

end Repeating

/-- A token that renders as nothing slips through. -/
theorem repeating_slips : Slips repeatingConfig { temperature := 0 } {}
    (⟨⟨1, (), none⟩, { stops := [] }, 0⟩ : Locals (Llama.repeating [])) (repeatingStart []) := by
  have samples : Samples { temperature := 0 }
      (⟨⟨1, (), none⟩, { stops := [] }, 0⟩ : Locals (Llama.repeating [])) (repeatingStart []) 0
      ⟨1, (), none⟩ :=
    ⟨rfl, rfl⟩
  have withheld : StreamFilter.Withholds { stops := [] } [] := ⟨rfl, rfl⟩
  have room : (repeatingStart []).impl.cached.length + 1 ≤ repeatingConfig.nCtxSeq := by decide
  exact @Slips.mk _ _ _ _ _ _ _ 0 0 _ ⟨1, (), none⟩ [] _ _ _ samples rfl rfl withheld rfl room
    rfl rfl

/-- A call that was cancelled before its first token samples two that render as nothing. -/
theorem streamGeneration_ignores_cancel :
    ∃ resolved locals here,
      StandsAt Peer.cancelled repeatingConfig () (literal "a") { temperature := 0 }
        (repeatingSession []) resolved locals here ∧
      Peer.cancelled.isCancelled here.receiver.client.log = true ∧
      ¬ (drawn (streamGeneration Peer.cancelled repeatingConfig () (literal "a")
          { temperature := 0 } (repeatingSession [])).2.impl.log).length ≤
        (drawn here.impl.log).length + 1 := by
  refine ⟨_, _, _, repeating_standsAt [], rfl, ?_⟩
  rw [(repeating_standsAt []).streamGeneration_impl]
  have many := @Slips.samples _ _ _ _ _ (Call.onChunk Peer.cancelled) _ _ repeating_slips
  omega

/-- Where the token renders as text the callback declines it, and the call ends in time. -/
theorem streamGeneration_cancelled_once :
    let after := (streamGeneration Peer.cancelled repeatingConfig () (literal "a")
      { temperature := 0 } (repeatingSession [0x78])).2
    (drawn after.impl.log).length ≤ (drawn (repeatingStart [0x78]).impl.log).length + 1 ∧
      after.receiver.deliveries = [⟨[0x78], some false⟩] := by
  refine ⟨(streamGeneration_cancelled_iff (repeating_standsAt [0x78]) rfl).mpr
    fun slips => ?_, by decide +kernel⟩
  obtain ⟨_, _, rendered, withheld, _, _, _, _⟩ := slips
  cases rendered
  have passes : ¬ StreamFilter.Withholds { stops := [] } [0x78] := by decide
  exact passes withheld

end Stream

end Llamad
