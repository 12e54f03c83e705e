import Llamad.Engine.ChunkBoundary
import Llamad.Engine.StreamTruncation
import Llamad.Service.Blame
import Llamad.Service.Cancellation
import Llamad.Service.StreamShape

/-!
# What a generation delivers

A generation hands its client what the stream filter lets through of the texts of the tokens it
sampled: the loop is a run of the filter over these texts, whatever the callback does. For a
client of Generate that stays, the chunks of the stream are therefore the sampled text up to its
first stop string.
-/

namespace Llamad

open Logical Logical.Utf8 Semantics Program Session

section Loop

variable {llama : Llama} {Client : Type} {config : EngineConfig} {params : SamplingParams}
  {resolved : ResolvedTokens} {onChunk : ChunkCallback Client}

/-- A token that does not end a generation, and its text. -/
def Renders (resolved : ResolvedTokens) (token : Token) (piece : Bytes) : Prop :=
  llama.isEog token = false ∧ tokenToPiece llama token (token ∈ resolved.preserved) = .ok piece

/-- A generation that went from one state to another sampled these tokens, with these texts, and
the filter answered with these statuses. -/
structure Emits (resolved : ResolvedTokens) (onChunk : ChunkCallback Client)
    (locals : Locals llama) (session : Session llama Client) (ending : Ending llama)
    (after : Session llama Client) (tokens : List Token) (pieces : List Bytes)
    (statuses : List StreamFilter.Status) : Prop where
  rendered : List.Forall₂ (@Renders llama resolved) tokens pieces
  taken : statuses.length = pieces.length
  fed : StreamFilter.feed onChunk locals.filter pieces session.receiver =
    (.ok (statuses, ending.locals.filter), after.receiver)
  counted : ending.locals.completionTokens = locals.completionTokens + tokens.length
  /-- An end-of-generation token is sampled too, and rendered as nothing. -/
  sampled : ∃ last : Option Token,
    drawn after.impl.log = drawn session.impl.log ++ tokens ++ last.toList ∧
      (∀ token ∈ last, llama.isEog token = true) ∧ (ending.reason = .eog ↔ last.isSome)
  stopped : ending.reason = .stop ↔ .stopped ∈ statuses
  cancelled : ending.reason = .cancelled ↔ .cancelled ∈ statuses
  flushed : ending.flushTail = true ↔ ∀ status ∈ statuses, status = .continue

variable {locals : Locals llama} {session after : Session llama Client} {ending : Ending llama}

/-- A generation that ends with the token the filter was just given. -/
theorem Emits.last {token : Token} {sampler : SamplerChain llama} {piece : Bytes}
    {status : StreamFilter.Status} {filter : StreamFilter} {receiver : Receiver Client}
    (pushes : Pushes params resolved onChunk locals session token sampler piece status filter
      receiver)
    {impl : Impl llama} (sampled : drawn impl.log = drawn session.impl.log ++ [token])
    (locals_eq : ending.locals = locals.next sampler filter) (notEog : ending.reason ≠ .eog)
    (stopped : ending.reason = .stop ↔ status = .stopped)
    (cancelled : ending.reason = .cancelled ↔ status = .cancelled)
    (flushed : ending.flushTail = true ↔ status = .continue) :
    Emits resolved onChunk locals session ending ⟨impl, receiver⟩ [token] [piece] [status] where
  rendered := .cons ⟨pushes.unfinished, pushes.rendered⟩ .nil
  taken := rfl
  fed := by
    rw [StreamFilter.feed, bind_of_ok pushes.pushed, locals_eq]
    cases status <;> rfl
  counted := by rw [locals_eq]; rfl
  sampled := ⟨none, by simpa using sampled, by simp, by simp [notEog]⟩
  stopped := by simp [stopped, eq_comm]
  cancelled := by simp [cancelled, eq_comm]
  flushed := by simp [flushed]

/-- A generation that goes on behind a token. -/
theorem Emits.cons {token : Token} {sampler : SamplerChain llama} {piece : Bytes}
    {filter : StreamFilter} {receiver : Receiver Client}
    (pushes : Pushes params resolved onChunk locals session token sampler piece .continue filter
      receiver)
    {impl : Impl llama} (drew : drawn impl.log = drawn session.impl.log ++ [token])
    {tokens : List Token} {pieces : List Bytes} {statuses : List StreamFilter.Status}
    (emits : Emits resolved onChunk (locals.next sampler filter) ⟨impl, receiver⟩ ending after
      tokens pieces statuses) :
    Emits resolved onChunk locals session ending after (token :: tokens) (piece :: pieces)
      (.continue :: statuses) where
  rendered := .cons ⟨pushes.unfinished, pushes.rendered⟩ emits.rendered
  taken := congrArg (· + 1) emits.taken
  fed := by
    rw [StreamFilter.feed, bind_of_ok pushes.pushed]
    exact bind_of_ok emits.fed
  counted := by
    rw [emits.counted, List.length_cons, Locals.next]
    simp only [Nat.add_assoc, Nat.add_comm 1]
  sampled := by
    obtain ⟨last, same, ends, eog⟩ := emits.sampled
    exact ⟨last, by simpa [drew] using same, ends, eog⟩
  stopped := by simp [emits.stopped]
  cancelled := by simp [emits.cancelled]
  flushed := by simp [emits.flushed]

/-- The loop of a generation is a run of the filter over the texts of the tokens it samples. -/
theorem generation_emits
    (ran : generation config params resolved onChunk locals session = (.ok ending, after)) :
    ∃ tokens pieces statuses,
      Emits resolved onChunk locals session ending after tokens pieces statuses := by
  induction size : config.nCtxSeq - session.impl.cached.length using Nat.strongRecOn
    generalizing locals session with
  | ind bound inductionHypothesis =>
      have outcome := generationRound_outcome config params resolved onChunk locals session
      rcases round : generationRound config params resolved onChunk locals session with
        ⟨error | (next | final), middle⟩
      · rw [generation, loop_of_error round] at ran
        cases ran
      · have decreases := generationRound_decreases round
        rw [generation, loop_of_inl round] at ran
        obtain ⟨tokens, pieces, statuses, emits⟩ :=
          inductionHypothesis _ (size ▸ decreases) ran rfl
        rw [round] at outcome
        cases outcome with
        | decoded goesOn room answer =>
            obtain ⟨rfl, _⟩ := ended_eq_none_iff.mp goesOn.unended
            exact ⟨_, _, _, emits.cons goesOn.toPushes (by simp)⟩
      · rw [generation, loop_of_inr round] at ran
        cases ran
        rw [round] at outcome
        cases outcome with
        | spent exhausted =>
            exact ⟨[], [], [], .nil, rfl, rfl, rfl, ⟨none, by simp⟩, by simp, by simp, by simp⟩
        | @eog token sampler samples finished =>
            exact ⟨[], [], [], .nil, rfl, rfl, rfl, ⟨some token, by simp [finished]⟩, by simp,
              by simp, by simp⟩
        | @ends token sampler piece status filter receiver _ pushes finishes =>
            refine ⟨_, _, _, .last pushes (drawn_sampled _ _) ?_ ?_ ?_ ?_ ?_⟩ <;>
              cases status <;> simp [ended] at finishes <;> simp [← finishes]
        | full goesOn noRoom =>
            obtain ⟨rfl, _⟩ := ended_eq_none_iff.mp goesOn.unended
            exact ⟨_, _, _, .last goesOn.toPushes (drawn_sampled _ _) rfl (by simp) (by simp)
              (by simp) (by simp)⟩
        | noSlot goesOn room answer positive =>
            obtain ⟨rfl, _⟩ := ended_eq_none_iff.mp goesOn.unended
            exact ⟨_, _, _, .last goesOn.toPushes (by simp) rfl (by simp) (by simp)
              (by simp) (by simp)⟩

/-- A generation that returned handed its client what the filter makes of the texts of the
tokens it sampled. -/
structure Drains (params : SamplingParams) (onChunk : ChunkCallback Client)
    (session : Session llama Client) (result : GenerateResult) (after : Session llama Client)
    (resolved : ResolvedTokens) (tokens : List Token) (pieces : List Bytes)
    (statuses : List StreamFilter.Status) : Prop where
  resolves : resolve llama params = .ok resolved
  rendered : List.Forall₂ (@Renders llama resolved) tokens pieces
  taken : statuses.length = pieces.length
  drained : StreamFilter.drain onChunk params.stop pieces session.receiver =
    (.ok statuses, after.receiver)
  counted : result.stats.completionTokens = tokens.length
  sampled : ∃ last : Option Token,
    drawn after.impl.log = drawn session.impl.log ++ tokens ++ last.toList ∧
      (∀ token ∈ last, llama.isEog token = true) ∧ (result.reason = .eog ↔ last.isSome)
  stopped : result.reason = .stop ↔ .stopped ∈ statuses
  cancelled : result.reason = .cancelled ↔ .cancelled ∈ statuses

/-- What a generation that returned sampled, as its log shows it: `tokens`, with the texts
`pieces`, and behind them the token that ended it, if one did. -/
structure Sampled (params : SamplingParams) (log : List (Entry llama)) (result : GenerateResult)
    (resolved : ResolvedTokens) (tokens : List Token) (pieces : List Bytes) : Prop where
  resolves : resolve llama params = .ok resolved
  rendered : List.Forall₂ (@Renders llama resolved) tokens pieces
  counted : result.stats.completionTokens = tokens.length
  drew : ∃ last : Option Token, drawn log = tokens ++ last.toList ∧
    (∀ token ∈ last, llama.isEog token = true) ∧ (result.reason = .eog ↔ last.isSome)

variable {admitted : Admitted llama} {kept : Nat} {result : GenerateResult}

theorem Drains.sampled_only {tokens : List Token} {pieces : List Bytes}
    {statuses : List StreamFilter.Status} (unlogged : session.impl.log = [])
    (drains : Drains params onChunk session result after resolved tokens pieces statuses) :
    Sampled params after.impl.log result resolved tokens pieces := by
  have drew := drains.sampled
  rw [unlogged] at drew
  exact ⟨drains.resolves, drains.rendered, drains.counted, drew⟩

theorem respond_drains (resolves : resolve llama params = .ok admitted.resolved)
    (ran : respond config params onChunk admitted kept session = (.ok result, after)) :
    ∃ tokens pieces statuses,
      Drains params onChunk session result after admitted.resolved tokens pieces statuses := by
  obtain ⟨ending, middle, generated, ran⟩ := bind_eq_ok_iff.mp ran
  obtain ⟨_, last, flushed, returned⟩ := bind_eq_ok_iff.mp ran
  cases returned
  obtain ⟨tokens, pieces, statuses, emits⟩ := generation_emits generated
  have flush : after.impl = middle.impl ∧
      StreamFilter.drain onChunk params.stop pieces session.receiver =
        (.ok statuses, after.receiver) := by
    rw [StreamFilter.drain, bind_of_ok emits.fed]
    rw [flushEnding] at flushed
    split at flushed
    · rename_i tail
      obtain ⟨_, _, passed, done⟩ := bind_eq_ok_iff.mp flushed
      cases done
      rw [onReceiver_apply] at passed
      rcases held : ending.locals.filter.flush onChunk middle.receiver with ⟨error | rest, receiver⟩
      · rw [held] at passed
        cases passed
      · rw [held] at passed
        cases passed
        refine ⟨rfl, ?_⟩
        simp only [if_pos (emits.flushed.mp tail)]
        exact bind_of_ok held
    · rename_i tail
      cases flushed
      refine ⟨rfl, ?_⟩
      simp only [if_neg (fun all => tail (emits.flushed.mpr all))]
      rfl
  refine ⟨tokens, pieces, statuses, resolves, emits.rendered, emits.taken, flush.2, ?_, ?_,
    emits.stopped, emits.cancelled⟩
  · simpa using emits.counted
  · rw [flush.1]
    exact emits.sampled

/-- A part of the engine that samples nothing leaves the receiver and what was sampled alone. -/
theorem onImpl_undrawn {Value : Type} {program : Program (Impl llama) Exception Value}
    (unsampled : ∀ tokens, Preserves (fun impl : Impl llama => drawn impl.log = tokens) program)
    {value : Value} (ran : onImpl program session = (.ok value, after)) :
    drawn after.impl.log = drawn session.impl.log ∧ after.receiver = session.receiver := by
  obtain ⟨_, rfl⟩ := Prod.mk.inj ran
  exact ⟨(unsampled _).final rfl, rfl⟩

/-- Every generation that returns is a run of the stream filter over the texts of the tokens it
sampled, which are the tokens its log shows behind those of the prompt; it stopped or was
cancelled exactly when the filter says so, and counts these tokens. -/
theorem generate_drains (config : EngineConfig) (entropy : llama.Entropy) (prompt : Bytes)
    (params : SamplingParams) (onChunk : ChunkCallback Client) (session : Session llama Client) :
    Meets (fun result after => ∃ resolved tokens pieces statuses,
        Drains params onChunk session result after resolved tokens pieces statuses)
      (fun _ _ => True) (generate config entropy prompt params onChunk session) := by
  rcases ran : generate config entropy prompt params onChunk session with ⟨error | result, after⟩
  · exact trivial
  obtain ⟨admitted, start, passed, ran⟩ := bind_eq_ok_iff.mp ran
  have admits : admission config entropy prompt params = .ok admitted := congrArg Prod.fst passed
  obtain rfl : session = start := congrArg Prod.snd passed
  obtain ⟨kept, trimmed, keeps, ran⟩ := bind_eq_ok_iff.mp ran
  obtain ⟨_, started, prompts, ran⟩ := bind_eq_ok_iff.mp ran
  obtain ⟨undrawn, received⟩ := onImpl_undrawn (keepPrefix_drawn _) keeps
  obtain ⟨undrawnToo, receivedToo⟩ :=
    onImpl_undrawn (fun tokens => decodePrompt_drawn config _ tokens _) prompts
  obtain ⟨tokens, pieces, statuses, drains⟩ := respond_drains (admission_built admits).1 ran
  have sameReceiver := receivedToo.trans received
  have sameDrawn := undrawnToo.trans undrawn
  refine ⟨admitted.resolved, tokens, pieces, statuses, drains.resolves, drains.rendered,
    drains.taken, ?_, drains.counted, ?_, drains.stopped, drains.cancelled⟩
  · rw [← sameReceiver]
    exact drains.drained
  · rw [← sameDrawn]
    exact drains.sampled

end Loop

namespace StreamFilter

variable {Client : Type} {callback other : Bytes → Program Client Exception Bool}
  {holds : Client → Prop}

/-- Two callbacks do the same to every client of a kind, and keep its kind. -/
structure Agree (holds : Client → Prop) (callback other : Bytes → Program Client Exception Bool) :
    Prop where
  same : ∀ chunk client, holds client → callback chunk client = other chunk client
  keeps : ∀ chunk client, holds client → holds (callback chunk client).2

theorem deliver_agree (agree : Agree holds callback other) (chunk : Bytes)
    {receiver : Receiver Client} (kind : holds receiver.client) :
    deliver (some callback) chunk receiver = deliver (some other) chunk receiver ∧
      holds (deliver (some callback) chunk receiver).2.client := by
  have kept := agree.keeps chunk receiver.client kind
  refine ⟨by simp only [deliver, agree.same chunk receiver.client kind], ?_⟩
  rw [deliver]
  split
  · exact kind
  · rcases called : callback chunk receiver.client with ⟨error | answer, client⟩ <;>
      rw [called] at kept <;> exact kept

theorem push_agree (agree : Agree holds callback other) (filter : StreamFilter) (piece : Bytes)
    {receiver : Receiver Client} (kind : holds receiver.client) :
    push (some callback) filter piece receiver = push (some other) filter piece receiver ∧
      holds (push (some callback) filter piece receiver).2.client := by
  obtain ⟨same, kept⟩ := deliver_agree agree (passed filter.stops (filter.pending ++ piece)) kind
  rw [push_eq, push_eq, bind_apply, bind_apply, ← same]
  rcases delivered : deliver (some callback) (passed filter.stops (filter.pending ++ piece))
    receiver with ⟨error | answer, after⟩ <;> rw [delivered] at kept <;> exact ⟨rfl, kept⟩

theorem feed_agree (agree : Agree holds callback other) (filter : StreamFilter)
    (pieces : List Bytes) {receiver : Receiver Client} (kind : holds receiver.client) :
    feed (some callback) filter pieces receiver = feed (some other) filter pieces receiver ∧
      holds (feed (some callback) filter pieces receiver).2.client := by
  induction pieces generalizing filter receiver with
  | nil => exact ⟨rfl, kind⟩
  | cons piece pieces inductionHypothesis =>
      obtain ⟨same, kept⟩ := push_agree agree filter piece kind
      rw [feed, feed, bind_apply, bind_apply, ← same]
      rcases pushed : push (some callback) filter piece receiver with
        ⟨error | ⟨status, next⟩, after⟩ <;> rw [pushed] at kept
      · exact ⟨rfl, kept⟩
      · obtain ⟨sameRest, keptRest⟩ := inductionHypothesis next kept
        dsimp only
        split
        · rw [bind_apply, bind_apply, ← sameRest]
          rcases fed : feed (some callback) next pieces after with ⟨error | statuses, last⟩ <;>
            rw [fed] at keptRest <;> exact ⟨rfl, keptRest⟩
        · exact ⟨rfl, kept⟩

/-- Callbacks that agree on a kind of clients are told the same. -/
theorem drain_agree (agree : Agree holds callback other) (stops pieces : List Bytes)
    {receiver : Receiver Client} (kind : holds receiver.client) :
    drain (some callback) stops pieces receiver = drain (some other) stops pieces receiver := by
  obtain ⟨same, kept⟩ := feed_agree agree { stops := stops } pieces kind
  rw [drain, drain, bind_apply, bind_apply, ← same]
  rcases fed : feed (some callback) { stops := stops } pieces receiver with
    ⟨error | ⟨statuses, filter⟩, after⟩
  · rfl
  · rw [fed] at kept
    dsimp only
    split
    · obtain ⟨sameFlush, _⟩ := deliver_agree agree (withoutTail filter.pending) kept
      simp only [flush_eq, bind_apply, sameFlush]
    · rfl

/-- What is shown of a text: all of it in front of the first stop string, if that is what ended
it, and else all but an unfinished last character. -/
structure Shows (stops : List Bytes) (text shown : Bytes) (stopped : Prop) : Prop where
  stop : ∀ start, IsLeast {start | StopAt stops text start} start →
    stopped ∧ shown = text.take start
  noStop : (∀ start, ¬ StopAt stops text start) →
    ¬ stopped ∧ ∃ tail, text = shown ++ tail ∧ (tail = [] ∨ CharPrefix tail)

/-- A run that took all of its pieces shows what offline truncation does of them. -/
theorem drain_shows (accepts : Accepts callback) {stops pieces : List Bytes}
    (valid : ∀ stop ∈ stops, Valid stop) (prefixed : ValidPrefix pieces.flatten) {client : Client}
    {statuses : List Status} {last : Receiver Client}
    (ran : drain (some callback) stops pieces ⟨client, []⟩ = (.ok statuses, last))
    (taken : statuses.length = pieces.length) :
    Shows stops pieces.flatten last.chunks.flatten (.stopped ∈ statuses) := by
  have leads := stopsLead_of_valid valid
  refine ⟨fun start least => ?_, fun noStop => ?_⟩
  · obtain ⟨before, piece, after, rfl, noStop, first, leastToo⟩ :=
      exists_first_completed pieces [] (Held.initial stops).noStop ⟨start, least.1⟩
    rw [List.nil_append] at leastToo noStop
    have regroup : (before ++ piece :: after).flatten =
        before.flatten ++ piece ++ after.flatten := by simp
    rw [regroup] at prefixed
    obtain ⟨final, drained, shown, _⟩ :=
      drain_stopped accepts leads before after client prefixed.of_append noStop leastToo
    rw [ran] at drained
    cases drained
    obtain rfl : after = [] := by simpa using taken
    have whole : (before ++ [piece]).flatten = before.flatten ++ piece := by simp
    rw [whole] at least ⊢
    rw [least.unique leastToo]
    exact ⟨by simp, shown⟩
  · obtain ⟨final, drained, shown, _⟩ := drain_continue accepts leads pieces client prefixed noStop
    rw [ran] at drained
    cases drained
    exact ⟨by simp, shown⟩

/-- What the filter makes of some pieces as long as nobody declines a chunk: how it answers to
them, and the chunks it lets through. -/
def Passes (stops pieces : List Bytes) (statuses : List Status) (chunks : List Bytes) : Prop :=
  ∃ last : Receiver Unit,
    drain (some fun _ => pure true) stops pieces ⟨(), []⟩ = (.ok statuses, last) ∧
      last.chunks = chunks

section Passes

variable {Other : Type} {listener : Bytes → Program Other Exception Bool}
  {receiver : Receiver Client} {twin : Receiver Other}

theorem deliver_accepted (accepts : Accepts callback) (hears : Accepts listener)
    (same : twin.chunks = receiver.chunks) (chunk : Bytes) :
    ∃ after next, deliver (some callback) chunk receiver = (.ok true, after) ∧
      deliver (some listener) chunk twin = (.ok true, next) ∧ next.chunks = after.chunks := by
  obtain ⟨after, delivered, chunks⟩ := deliver_accepting accepts chunk receiver
  obtain ⟨next, heard, others⟩ := deliver_accepting hears chunk twin
  exact ⟨after, next, delivered, heard, by rw [others, chunks, same]⟩

/-- Callbacks that accept everything are handed the same chunks, whatever they do with them. -/
theorem feed_accepted (accepts : Accepts callback) (hears : Accepts listener)
    (filter : StreamFilter) (pieces : List Bytes) (same : twin.chunks = receiver.chunks) :
    ∃ statuses last after next,
      feed (some callback) filter pieces receiver = (.ok (statuses, last), after) ∧
      feed (some listener) filter pieces twin = (.ok (statuses, last), next) ∧
      next.chunks = after.chunks := by
  induction pieces generalizing filter receiver twin with
  | nil => exact ⟨[], filter, receiver, twin, rfl, rfl, same⟩
  | cons piece pieces inductionHypothesis =>
      obtain ⟨middle, between, delivered, heard, together⟩ :=
        deliver_accepted accepts hears same (passed filter.stops (filter.pending ++ piece))
      rw [feed, feed, push_eq, push_eq, bind_apply, bind_of_ok delivered, bind_apply,
        bind_of_ok heard]
      by_cases found : earliestMatch filter.stops (filter.pending ++ piece) = none
      · obtain ⟨statuses, last, after, next, fed, fedToo, chunks⟩ :=
          inductionHypothesis { filter with
            pending := kept filter.stops (filter.pending ++ piece) } together
        simp only [found, if_true, pure_apply]
        exact ⟨_, last, after, next, bind_of_ok fed, bind_of_ok fedToo, chunks⟩
      · simp only [found, if_true, if_false, pure_apply]
        exact ⟨_, _, middle, between, rfl, rfl, together⟩

/-- A callback that accepts everything is handed what the filter lets through. -/
theorem passes_of_drain (accepts : Accepts callback) {stops pieces : List Bytes} {client : Client}
    {statuses : List Status} {last : Receiver Client}
    (ran : drain (some callback) stops pieces ⟨client, []⟩ = (.ok statuses, last)) :
    Passes stops pieces statuses last.chunks := by
  have hears : Accepts (fun _ => pure true : Bytes → Program Unit Exception Bool) :=
    fun _ _ => rfl
  obtain ⟨others, filter, after, next, fed, fedToo, together⟩ :=
    @feed_accepted _ _ _ _ ⟨client, []⟩ ⟨(), []⟩ accepts hears { stops := stops } pieces rfl
  rw [drain, bind_of_ok fed] at ran
  rw [Passes, drain, bind_of_ok fedToo]
  dsimp only at ran ⊢
  split at ran
  · rename_i calm
    obtain ⟨final, ending, flushed, heard, chunks⟩ :=
      deliver_accepted accepts hears together (withoutTail filter.pending)
    simp only [flush_eq, bind_apply, flushed, heard, pure_apply, if_pos calm] at ran ⊢
    cases ran
    exact ⟨_, rfl, chunks⟩
  · rename_i ended
    cases ran
    rw [if_neg ended]
    exact ⟨_, rfl, together⟩

end Passes

/-- No push is declined by a callback that accepts everything. -/
theorem feed_uncancelled (accepts : Accepts callback) (filter : StreamFilter) (pieces : List Bytes)
    {receiver after : Receiver Client} {statuses : List Status} {last : StreamFilter}
    (ran : feed (some callback) filter pieces receiver = (.ok (statuses, last), after)) :
    .cancelled ∉ statuses := by
  induction pieces generalizing filter receiver statuses with
  | nil =>
      cases ran
      simp
  | cons piece pieces inductionHypothesis =>
      obtain ⟨middle, delivered, _⟩ :=
        deliver_accepting accepts (passed filter.stops (filter.pending ++ piece)) receiver
      rw [feed, push_eq, bind_apply, bind_of_ok delivered] at ran
      by_cases found : earliestMatch filter.stops (filter.pending ++ piece) = none
      · simp only [found, if_true, pure_apply] at ran
        obtain ⟨⟨rest, final⟩, ending, fed, returned⟩ := bind_eq_ok_iff.mp ran
        cases returned
        simpa using inductionHypothesis _ fed
      · simp only [found, if_true, if_false, pure_apply] at ran
        cases ran
        simp

end StreamFilter

section Listened

variable {llama : Llama} {Client : Type} {params : SamplingParams}
  {callback other : Bytes → Program Client Exception Bool} {client : Client} {impl : Impl llama}
  {result : GenerateResult} {after : Session llama Client} {resolved : ResolvedTokens}
  {tokens : List Token} {pieces : List Bytes} {statuses : List StreamFilter.Status}

/-- Callbacks that agree are handed the same generation. -/
theorem Drains.of_agree {holds : Client → Prop} (agree : StreamFilter.Agree holds callback other)
    (kind : holds client)
    (drains : Drains params (some callback) ⟨impl, ⟨client, []⟩⟩ result after resolved tokens pieces
      statuses) :
    Drains params (some other) ⟨impl, ⟨client, []⟩⟩ result after resolved tokens pieces
      statuses := by
  have drained := drains.drained
  rw [StreamFilter.drain_agree agree _ _ kind] at drained
  exact { drains with drained := drained }

/-- A generation is not cancelled by a callback that accepts everything. -/
theorem Drains.uncancelled (accepts : StreamFilter.Accepts callback)
    (drains : Drains params (some callback) ⟨impl, ⟨client, []⟩⟩ result after resolved tokens pieces
      statuses) : result.reason ≠ .cancelled := by
  rw [Ne, drains.cancelled]
  obtain ⟨⟨fed, filter⟩, middle, ran, flushed⟩ := bind_eq_ok_iff.mp drains.drained
  have unbroken := StreamFilter.feed_uncancelled accepts _ _ ran
  dsimp only at flushed
  split at flushed
  · obtain ⟨_, _, _, returned⟩ := bind_eq_ok_iff.mp flushed
    cases returned
    exact unbroken
  · cases flushed
    exact unbroken

/-- A callback that accepts everything is handed what the filter lets through of the sampled
texts. -/
theorem Drains.passes (accepts : StreamFilter.Accepts callback)
    (drains : Drains params (some callback) ⟨impl, ⟨client, []⟩⟩ result after resolved tokens pieces
      statuses) :
    StreamFilter.Passes params.stop pieces statuses after.receiver.chunks :=
  StreamFilter.passes_of_drain accepts drains.drained

/-- A callback that accepts everything is handed what is shown of the sampled text. -/
theorem Drains.shows (accepts : StreamFilter.Accepts callback)
    (drains : Drains params (some callback) ⟨impl, ⟨client, []⟩⟩ result after resolved tokens pieces
      statuses) (valid : ∀ stop ∈ params.stop, Valid stop) (prefixed : ValidPrefix pieces.flatten) :
    StreamFilter.Shows params.stop pieces.flatten after.receiver.chunks.flatten
      (result.reason = .stop) := by
  rw [drains.stopped]
  exact StreamFilter.drain_shows accepts valid prefixed drains.drained drains.taken

end Listened

section Generate

variable {llama : Llama} {common : Common} {peer : Peer}

/-- A client that never cancels and is always there to be written to. -/
structure Peer.Stays (peer : Peer) : Prop where
  isCancelled : ∀ log, peer.isCancelled log = false
  write : ∀ log chunk, peer.write log chunk = true

/-- A call of Generate whose texts have all been accepted. -/
structure Call.Listening (call : Call llama common) (chunks : List Bytes) : Prop where
  parserless : call.stream = none
  there : call.clientGone = false
  texts : attempted call.log = chunks.map .text

/-- What a client that stays hears is written to it. -/
theorem Call.hear_of_stays (stays : peer.Stays) (text : Bytes) {call : Call llama common}
    (parserless : call.stream = none) :
    Call.hear peer text call =
      (.ok true, { call with log := call.log ++ [.asked false, .wrote (.text text) true] }) := by
  obtain ⟨stream, clientGone, response, log⟩ := call
  cases parserless
  simp [Call.hear, Call.isCancelled, Call.writeText, Call.write, bind_apply, stays.isCancelled,
    stays.write]

theorem Call.listening_rule (stays : peer.Stays) :
    CallbackRule (Call.onChunk peer)
      (fun receiver : Receiver (Call llama common) => receiver.client.Listening receiver.chunks)
      (fun _ => False) (fun receiver => receiver.client.Listening receiver.chunks) := by
  refine ⟨fun chunk receiver listening => ?_, fun _ listening => listening⟩
  by_cases blank : chunk = []
  · simpa [StreamFilter.deliver, blank] using listening
  · simp only [StreamFilter.deliver, blank, if_false, Call.onChunk,
      Call.hear_of_stays stays chunk listening.parserless]
    refine ⟨listening.parserless, listening.there, ?_⟩
    have grown : attempted [Event.asked false, .wrote (.text chunk) true] = [.text chunk] := rfl
    rw [attempted_append, listening.texts, grown]
    simp [Receiver.chunks]

/-- A callback that hears what it is told and accepts it. -/
def Call.note (peer : Peer) (text : Bytes) : Program (Call llama common) Exception Bool :=
  fun call => (.ok true, (Call.hear peer text call).2)

theorem Call.note_accepts :
    StreamFilter.Accepts (Call.note peer : Bytes → Program (Call llama common) Exception Bool) :=
  fun _ _ => rfl

theorem Call.note_agrees (stays : peer.Stays) :
    StreamFilter.Agree (fun call : Call llama common => call.stream = none) (Call.hear peer)
      (Call.note peer) := by
  refine ⟨fun text call parserless => ?_, fun text call parserless => ?_⟩
  · rw [Call.note, Call.hear_of_stays stays text parserless]
  · rw [Call.hear_of_stays stays text parserless]
    exact parserless

/-- A client that stays is written the finish. -/
theorem Call.conclude_of_stays (stays : peer.Stays) (result : GenerateResult)
    {call : Call llama common} {chunks : List Bytes} (listening : call.Listening chunks) :
    Call.conclude peer result call = (.ok (), { call with
      log := call.log ++ [.asked false,
        .wrote (Wire.finishChunk result.reason result.stats []) true] }) := by
  obtain ⟨stream, clientGone, response, log⟩ := call
  obtain ⟨rfl, rfl, _⟩ := listening
  simp [Call.conclude, Call.noteCancelled, Call.finishStream, Call.writeFinish, Call.isCancelled,
    Call.write, bind_apply, stays.isCancelled, stays.write]

variable (service : LlamaService common)

/-- A Generate call that succeeds has generated something, and ends as its conclusion does. -/
theorem handle_generate_of_ok {entropy : llama.Entropy} {request : V1.GenerateRequest}
    {impl : Impl llama}
    (ok : (service.handle peer (.generate entropy request) impl).1.code = .ok) :
    ∃ result after, generate service.config entropy request.prompt
        (Wire.samplingFromProto request.sampling) (Call.onChunk peer)
        (LlamaService.opened impl : Session llama (Call llama common)) = (.ok result, after) ∧
      (service.handle peer (.generate entropy request) impl).2 =
        ⟨after.impl, { after.receiver with
          client := (Call.conclude peer result after.receiver.client).2 }⟩ := by
  have body : service.body peer (.generate entropy request) =
      if service.config.embeddings then
        (pure ⟨.failedPrecondition, kEmbeddingModel⟩ :
          Program (Session llama (Call llama common)) Exception Status)
      else streamGeneration peer service.config entropy request.prompt
        (Wire.samplingFromProto request.sampling) := rfl
  rw [LlamaService.handle, body] at ok ⊢
  split at ok
  · cases ok
  rename_i generates
  rw [if_neg generates]
  rcases ran : generate service.config entropy request.prompt
      (Wire.samplingFromProto request.sampling) (Call.onChunk peer)
      (LlamaService.opened impl : Session llama (Call llama common)) with ⟨error | result, after⟩
  · have threw : streamGeneration peer service.config entropy request.prompt
        (Wire.samplingFromProto request.sampling) (LlamaService.opened impl) =
          (.error error, after) := bind_of_error ran
    rw [guarded, threw] at ok
    exact absurd ok error.status_ne_ok
  · rw [guarded, streamGeneration_of_ok ran]
    refine ⟨result, after, rfl, ?_⟩
    rcases (Call.conclude peer result after.receiver.client).1 with error | done <;> rfl

/-- What a Generate call delivered: the sampled text as far as it is shown, and a finish with the
reason and the counts of the generation. -/
structure GenerateDelivers (params : SamplingParams) (after : Session llama (Call llama common))
    (result : GenerateResult) (resolved : ResolvedTokens) (tokens : List Token)
    (pieces texts : List Bytes) (finish : V1.Finish) : Prop where
  generated : Sampled params after.impl.log result resolved tokens pieces
  uncancelled : result.reason ≠ .cancelled
  shown : (∀ stop ∈ params.stop, Valid stop) → ValidPrefix pieces.flatten →
    StreamFilter.Shows params.stop pieces.flatten texts.flatten (result.reason = .stop)
  stream : attempted after.receiver.client.log = texts.map .text ++ [.finish finish]
  finished : finish = ⟨Wire.finishReason result.reason, Wire.stats result.stats, []⟩

/-- What a Generate call that succeeds writes to a client that stays. -/
theorem generate_text (stays : peer.Stays) (entropy : llama.Entropy) (request : V1.GenerateRequest)
    (impl : Impl llama)
    (ok : (service.handle peer (.generate entropy request) impl).1.code = .ok) :
    ∃ result resolved tokens pieces texts finish,
      GenerateDelivers (Wire.samplingFromProto request.sampling)
        (service.handle peer (.generate entropy request) impl).2 result resolved tokens pieces
        texts finish := by
  obtain ⟨result, after, ran, handled⟩ := handle_generate_of_ok service ok
  have drains := generate_drains service.config entropy request.prompt
    (Wire.samplingFromProto request.sampling) (Call.onChunk peer)
    (LlamaService.opened impl : Session llama (Call llama common))
  have listens := @CallbackRule.generate llama _ service.config _ _ _ _
    (Call.listening_rule stays) entropy request.prompt (Wire.samplingFromProto request.sampling)
    (LlamaService.opened impl : Session llama (Call llama common)) ⟨rfl, rfl, rfl⟩
  rw [ran] at drains listens
  obtain ⟨resolved, tokens, pieces, statuses, drains⟩ := drains
  have listening : after.receiver.client.Listening after.receiver.chunks :=
    listens.resolve_right id
  have generated := drains.sampled_only rfl
  have noted := drains.of_agree (Call.note_agrees stays) rfl
  have finished : Wire.finishChunk result.reason result.stats [] =
      .finish ⟨Wire.finishReason result.reason, Wire.stats result.stats, []⟩ := by
    simp [Wire.finishChunk]
  rw [handled, Call.conclude_of_stays stays result listening, finished]
  refine ⟨result, resolved, tokens, pieces, after.receiver.chunks, _,
    generated, noted.uncancelled Call.note_accepts,
    noted.shows Call.note_accepts, ?_, rfl⟩
  rw [attempted_append, listening.texts]
  rfl

end Generate

/-- A backend of four tokens that samples until three are in its memory. -/
def Llama.brief : Llama :=
  { Llama.bytes fun tokens => if tokens.length < 3 then 1 else 3 with
    nVocab := 4
    isEog := fun token => token = 3 }

/-- An engine on that backend. -/
def Impl.brief : Impl Llama.brief := Impl.fresh () fun _ => (0 : Int)

/-- A client that stays. -/
theorem Peer.patient_stays : Peer.patient.Stays := ⟨fun _ => rfl, fun _ _ => rfl⟩

/-- Two tokens, and the one that ends the text. -/
theorem generate_text_brief :
    ∃ result resolved tokens pieces texts finish,
      GenerateDelivers (Wire.samplingFromProto { temperature := some 0 })
        ((LlamaService.small false).handle Peer.patient
          (.generate () { prompt := [0x02], sampling := { temperature := some 0 } })
          Impl.brief).2 result resolved tokens pieces texts finish :=
  generate_text (LlamaService.small false) Peer.patient_stays ()
    { prompt := [0x02], sampling := { temperature := some 0 } } Impl.brief (by decide +kernel)

end Llamad
