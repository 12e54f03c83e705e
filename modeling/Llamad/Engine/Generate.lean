import Llamad.Engine.Cache
import Llamad.Engine.StreamFilter

/-!
# Generation

`Engine::generate` in three parts: everything that is decided before the cache is
touched (`admission`), the prompt loop and the generation loop. Both loops end: the
first moves through the prompt, the second goes round only after it has decoded a
token into a context that had room for it.
-/

namespace Llamad

open Logical Semantics Program

/-- What a generation changes: the engine and its receiver. -/
structure Session (llama : Llama) (Client : Type) where
  impl : Impl llama
  receiver : Receiver Client

variable {llama : Llama} {Client Value : Type}

namespace Session

/-- Run a program of the engine. -/
def onImpl (program : Program (Impl llama) Exception Value) :
    Program (Session llama Client) Exception Value :=
  zoom Session.impl (fun impl session => { session with impl := impl }) program

/-- Run a program of the receiver. -/
def onReceiver (program : Program (Receiver Client) Exception Value) :
    Program (Session llama Client) Exception Value :=
  zoom Session.receiver (fun receiver session => { session with receiver := receiver }) program

@[simp] theorem onImpl_apply (program : Program (Impl llama) Exception Value)
    (session : Session llama Client) :
    onImpl program session =
      ((program session.impl).1, { session with impl := (program session.impl).2 }) := rfl

@[simp] theorem onReceiver_apply (program : Program (Receiver Client) Exception Value)
    (session : Session llama Client) :
    onReceiver program session =
      ((program session.receiver).1,
        { session with receiver := (program session.receiver).2 }) := rfl

end Session

open Session Impl

variable (config : EngineConfig)

section Admission

variable (llama) in
/-- What a request has when nothing was decoded for it yet. -/
structure Admitted where
  tokens : List Token
  resolved : ResolvedTokens
  sampler : SamplerChain llama

/-- Everything that can refuse a generation before the cache is touched. -/
def admission (entropy : llama.Entropy) (prompt : Bytes) (params : SamplingParams) :
    Except Exception (Admitted llama) :=
  if config.embeddings then .error (.engine .embeddingModel)
  else do
    let tokens ← tokenize llama prompt true true
    if tokens.isEmpty then .error (.engine .emptyPrompt)
    else if config.nCtxSeq ≤ tokens.length then
      .error (.engine (.promptTooLong tokens.length config.nCtxSeq))
    else do
      let resolved ← resolve llama params
      let sampler ← SamplerChain.build llama entropy params resolved
      return { tokens := tokens, resolved := resolved, sampler := sampler }

variable {config} in
/-- A request that is admitted has a prompt, and the context has room for it. -/
theorem admission_ok {entropy : llama.Entropy} {prompt : Bytes} {params : SamplingParams}
    {admitted : Admitted llama} (passed : admission config entropy prompt params = .ok admitted) :
    tokenize llama prompt true true = .ok admitted.tokens ∧ admitted.tokens ≠ [] ∧
      admitted.tokens.length < config.nCtxSeq := by
  by_cases embeddings : config.embeddings
  · rw [admission, if_pos embeddings] at passed
    cases passed
  rw [admission, if_neg embeddings] at passed
  obtain ⟨tokens, found, passed⟩ := except_bind_eq_ok_iff.mp passed
  by_cases empty : tokens.isEmpty
  · rw [if_pos empty] at passed
    cases passed
  by_cases long : config.nCtxSeq ≤ tokens.length
  · rw [if_neg empty, if_pos long] at passed
    cases passed
  rw [if_neg empty, if_neg long] at passed
  obtain ⟨resolved, _, passed⟩ := except_bind_eq_ok_iff.mp passed
  obtain ⟨sampler, _, passed⟩ := except_bind_eq_ok_iff.mp passed
  cases passed
  exact ⟨found, by simpa using empty, Nat.lt_of_not_le long⟩

variable {config} in
/-- A request that nothing refuses is admitted. -/
theorem admission_of_ok {entropy : llama.Entropy} {prompt : Bytes} {params : SamplingParams}
    {tokens : List Token} {resolved : ResolvedTokens} {sampler : SamplerChain llama}
    (generates : config.embeddings = false)
    (tokenized : tokenize llama prompt true true = .ok tokens) (nonempty : tokens ≠ [])
    (fits : tokens.length < config.nCtxSeq) (resolves : resolve llama params = .ok resolved)
    (built : SamplerChain.build llama entropy params resolved = .ok sampler) :
    admission config entropy prompt params = .ok ⟨tokens, resolved, sampler⟩ := by
  have some_ : ¬ tokens.isEmpty = true := by simpa using nonempty
  rw [admission, if_neg (by simp [generates]), tokenized]
  simp only [bind, Except.bind, if_neg some_, if_neg (Nat.not_le.mpr fits), resolves, built]
  rfl

variable {config} in
/-- A request that is admitted has the sampler that was built for it. -/
theorem admission_built {entropy : llama.Entropy} {prompt : Bytes} {params : SamplingParams}
    {admitted : Admitted llama} (passed : admission config entropy prompt params = .ok admitted) :
    resolve llama params = .ok admitted.resolved ∧
      SamplerChain.build llama entropy params admitted.resolved = .ok admitted.sampler := by
  rw [admission] at passed
  split at passed
  · cases passed
  obtain ⟨tokens, _, passed⟩ := except_bind_eq_ok_iff.mp passed
  split at passed
  · cases passed
  split at passed
  · cases passed
  obtain ⟨resolved, looked, passed⟩ := except_bind_eq_ok_iff.mp passed
  obtain ⟨sampler, built, passed⟩ := except_bind_eq_ok_iff.mp passed
  cases passed
  exact ⟨looked, built⟩

end Admission

section Prompt

/-- One round of the prompt loop: the next batch of the prompt, from `off`. -/
def promptRound (tokens : List Token) (off : Nat) :
    Program (Impl llama) Exception (Nat ⊕ Unit) := do
  if off < tokens.length then
    let nChunk := min config.nBatch (tokens.length - off)
    let ret ← decode ((tokens.drop off).take nChunk)
    throwIf (ret ≠ 0) (.engine (.promptDecode ret))
    return .inl (off + nChunk)
  else
    return .inr ()

/-- Everything one round of the prompt loop can do. -/
theorem promptRound_cases (tokens : List Token) (off : Nat) (impl : Impl llama) :
    (tokens.length ≤ off ∧ promptRound config tokens off impl = (.ok (.inr ()), impl)) ∨
    off < tokens.length ∧
      let batch := (tokens.drop off).take (min config.nBatch (tokens.length - off))
      ((∃ host evicted logits,
        llama.decode impl.context.host impl.context.memory batch = (.done evicted logits, host) ∧
        promptRound config tokens off impl =
          (.ok (.inl (off + min config.nBatch (tokens.length - off))),
            extended host batch evicted logits impl)) ∨
      (∃ host ret nonzero leftover,
        llama.decode impl.context.host impl.context.memory batch =
          (.code ret nonzero leftover, host) ∧
        promptRound config tokens off impl = (.error (.engine (.promptDecode ret)),
          record (.decoded batch (.code ret nonzero leftover)) (emptied host impl))) ∨
      ∃ host error leftover,
        llama.decode impl.context.host impl.context.memory batch =
          (.threw error leftover, host) ∧
        promptRound config tokens off impl = (.error (.foreign error),
          record (.decoded batch (.threw error leftover)) (emptied host impl))) := by
  by_cases inside : off < tokens.length
  · refine .inr ⟨inside, ?_⟩
    simp only [promptRound, if_pos inside, bind_apply]
    obtain ⟨host, evicted, logits, answer, ran⟩ | ⟨host, ret, nonzero, leftover, answer, ran⟩ |
      ⟨host, error, leftover, answer, ran⟩ :=
        decode_cases ((tokens.drop off).take (min config.nBatch (tokens.length - off))) impl
    · have zero : ¬ (0 : Int) ≠ 0 := by simp
      exact .inl ⟨host, evicted, logits, answer, by
        simp only [ran, throwIf_neg zero, pure_apply]⟩
    · exact .inr (.inl ⟨host, ret, nonzero, leftover, answer, by
        simp only [ran, throwIf_pos nonzero]⟩)
    · exact .inr (.inr ⟨host, error, leftover, answer, by simp only [ran]⟩)
  · exact .inl ⟨Nat.le_of_not_lt inside, by simp only [promptRound, if_neg inside, pure_apply]⟩

variable {config} in
theorem promptRound_decreases {tokens : List Token} {off next : Nat} {impl after : Impl llama}
    (round : promptRound config tokens off impl = (.ok (.inl next), after)) :
    tokens.length - next < tokens.length - off := by
  have positive := config.nBatch_pos
  by_cases inside : off < tokens.length
  · simp only [promptRound, if_pos inside, bind_eq_ok_iff] at round
    obtain ⟨ret, middle, _, _, _, _, returned⟩ := round
    cases returned
    omega
  · simp only [promptRound, if_neg inside, pure_apply] at round
    cases round

/-- Decode the prompt after the tokens that were kept, in batches. -/
def decodePrompt (tokens : List Token) (kept : Nat) : Program (Impl llama) Exception Unit :=
  loop (fun off _ => tokens.length - off) (promptRound config tokens) promptRound_decreases kept

end Prompt

section Generation

variable (llama) in
/-- What the generation loop carries round. -/
structure Locals where
  sampler : SamplerChain llama
  filter : StreamFilter
  completionTokens : Nat

variable (llama) in
/-- How the generation loop ended. -/
structure Ending where
  reason : FinishReason
  flushTail : Bool
  locals : Locals llama

/-- The token budget is used up. -/
def budgetSpent (params : SamplingParams) (completionTokens : Nat) : Bool :=
  0 ≤ params.maxTokens && params.maxTokens ≤ completionTokens

/-- Whether the loop ends with the token the filter was just given. -/
def ended (params : SamplingParams) (locals : Locals llama) :
    StreamFilter.Status → Option (Ending llama)
  | .stopped => some ⟨.stop, false, locals⟩
  | .cancelled => some ⟨.cancelled, false, locals⟩
  | .continue =>
      if budgetSpent params locals.completionTokens then some ⟨.length, true, locals⟩ else none

/-- Choose the next token from the logits of the last decode. -/
def draw (sampler : SamplerChain llama) :
    Program (Impl llama) Exception (Token × SamplerChain llama) := do
  let impl ← get
  let (token, sampler) ← attempt (sampler.sample impl.context.logits)
  modify (record (.sampled impl.context.logits token))
  return (token, sampler)

/-- Decode the token the loop goes on from; `false` when the context is full. -/
def decodeNext (token : Token) : Program (Impl llama) Exception Bool := do
  let impl ← get
  if config.nCtxSeq < impl.cached.length + 1 then
    return false
  else
    let ret ← decode [token]
    if ret = 0 then
      return true
    else if 0 < ret then
      return false
    else
      throw (.engine (.generationDecode ret))

/-- One round of the generation loop. -/
def generationRound (params : SamplingParams) (resolved : ResolvedTokens)
    (onChunk : ChunkCallback Client) (locals : Locals llama) :
    Program (Session llama Client) Exception (Locals llama ⊕ Ending llama) := do
  if budgetSpent params locals.completionTokens then
    return .inr ⟨.length, true, locals⟩
  else
    let (token, sampler) ← onImpl (draw locals.sampler)
    if llama.isEog token then
      return .inr ⟨.eog, true, { locals with sampler := sampler }⟩
    else
      let piece ← attempt (tokenToPiece llama token (token ∈ resolved.preserved))
      let (status, filter) ← onReceiver (locals.filter.push onChunk piece)
      let locals : Locals llama := ⟨sampler, filter, locals.completionTokens + 1⟩
      match ended params locals status with
      | some ending => return .inr ending
      | none =>
          if ← onImpl (decodeNext config token) then
            return .inl locals
          else
            return .inr ⟨.length, true, locals⟩

/-- Everything `draw` can do. -/
theorem draw_cases (sampler : SamplerChain llama) (impl : Impl llama) :
    (∃ token next, sampler.sample impl.context.logits = .ok (token, next) ∧
      draw sampler impl = (.ok (token, next), record (.sampled impl.context.logits token) impl)) ∨
    ∃ error, sampler.sample impl.context.logits = .error error ∧
      draw sampler impl = (.error error, impl) := by
  cases sampled : sampler.sample impl.context.logits with
  | ok drawn =>
      obtain ⟨token, next⟩ := drawn
      refine .inl ⟨token, next, rfl, ?_⟩
      simp only [draw, bind_apply, get_apply, sampled, attempt_apply]
      rfl
  | error error =>
      refine .inr ⟨error, rfl, ?_⟩
      simp only [draw, bind_apply, get_apply, sampled, attempt_apply]

/-- Everything `decodeNext` can do. -/
theorem decodeNext_cases (token : Token) (impl : Impl llama) :
    (config.nCtxSeq < impl.cached.length + 1 ∧
      decodeNext config token impl = (.ok false, impl)) ∨
    impl.cached.length + 1 ≤ config.nCtxSeq ∧
      ((∃ host evicted logits,
        llama.decode impl.context.host impl.context.memory [token] =
          (.done evicted logits, host) ∧
        decodeNext config token impl = (.ok true, extended host [token] evicted logits impl)) ∨
      (∃ host ret nonzero leftover,
        llama.decode impl.context.host impl.context.memory [token] =
          (.code ret nonzero leftover, host) ∧
        decodeNext config token impl =
          (if 0 < ret then .ok false else .error (.engine (.generationDecode ret)),
            record (.decoded [token] (.code ret nonzero leftover)) (emptied host impl))) ∨
      ∃ host error leftover,
        llama.decode impl.context.host impl.context.memory [token] =
          (.threw error leftover, host) ∧
        decodeNext config token impl = (.error (.foreign error),
          record (.decoded [token] (.threw error leftover)) (emptied host impl))) := by
  by_cases full : config.nCtxSeq < impl.cached.length + 1
  · refine .inl ⟨full, ?_⟩
    simp only [decodeNext, bind_apply, get_apply, if_pos full, pure_apply]
  · refine .inr ⟨by omega, ?_⟩
    simp only [decodeNext, bind_apply, get_apply, if_neg full]
    obtain ⟨host, evicted, logits, answer, ran⟩ | ⟨host, ret, nonzero, leftover, answer, ran⟩ |
      ⟨host, error, leftover, answer, ran⟩ := decode_cases [token] impl
    · refine .inl ⟨host, evicted, logits, answer, ?_⟩
      simp only [ran, if_true, pure_apply]
    · refine .inr (.inl ⟨host, ret, nonzero, leftover, answer, ?_⟩)
      simp only [ran, if_neg nonzero]
      by_cases positive : 0 < ret
      · simp only [if_pos positive, pure_apply]
      · simp only [if_neg positive, throw_apply]
    · exact .inr (.inr ⟨host, error, leftover, answer, by simp only [ran]⟩)

section Outcomes

variable (params : SamplingParams) (resolved : ResolvedTokens) (onChunk : ChunkCallback Client)
  (locals : Locals llama) (session : Session llama Client)

/-- The engine right after it sampled `token`. -/
def Impl.sampled (token : Token) (impl : Impl llama) : Impl llama :=
  record (.sampled impl.context.logits token) impl

/-- The round samples `token` and leaves the chain as `sampler`. -/
structure Samples (token : Token) (sampler : SamplerChain llama) : Prop where
  spare : budgetSpent params locals.completionTokens = false
  drew : locals.sampler.sample session.impl.context.logits = .ok (token, sampler)

/-- The round hands the text of `token` to the filter, which leaves `filter`. -/
structure Pushes (token : Token) (sampler : SamplerChain llama) (piece : Bytes)
    (status : StreamFilter.Status) (filter : StreamFilter) (receiver : Receiver Client) : Prop
    extends Samples params locals session token sampler where
  unfinished : llama.isEog token = false
  rendered : tokenToPiece llama token (token ∈ resolved.preserved) = .ok piece
  pushed : locals.filter.push onChunk piece session.receiver = (.ok (status, filter), receiver)

/-- What the loop carries on from a round that handed a piece to the filter. -/
def Locals.next (sampler : SamplerChain llama) (filter : StreamFilter) (locals : Locals llama) :
    Locals llama :=
  ⟨sampler, filter, locals.completionTokens + 1⟩

/-- The round has nothing that ends the loop with its token, and goes on to decode it. -/
structure GoesOn (token : Token) (sampler : SamplerChain llama) (piece : Bytes)
    (status : StreamFilter.Status) (filter : StreamFilter) (receiver : Receiver Client) : Prop
    extends Pushes params resolved onChunk locals session token sampler piece status filter
      receiver where
  unended : ended params (locals.next sampler filter) status = none

/-- Everything one round of the generation loop can do. -/
inductive RoundOutcome :
    Except Exception (Locals llama ⊕ Ending llama) × Session llama Client → Prop where
  | spent (exhausted : budgetSpent params locals.completionTokens = true) :
      RoundOutcome (.ok (.inr ⟨.length, true, locals⟩), session)
  | unsampled {error : Exception} (spare : budgetSpent params locals.completionTokens = false)
      (failed : locals.sampler.sample session.impl.context.logits = .error error) :
      RoundOutcome (.error error, session)
  | eog {token : Token} {sampler : SamplerChain llama}
      (samples : Samples params locals session token sampler)
      (finished : llama.isEog token = true) :
      RoundOutcome (.ok (.inr ⟨.eog, true, { locals with sampler := sampler }⟩),
        { session with impl := session.impl.sampled token })
  | unrendered {token : Token} {sampler : SamplerChain llama} {error : Exception}
      (samples : Samples params locals session token sampler)
      (unfinished : llama.isEog token = false)
      (failed : tokenToPiece llama token (token ∈ resolved.preserved) = .error error) :
      RoundOutcome (.error error, { session with impl := session.impl.sampled token })
  | undelivered {token : Token} {sampler : SamplerChain llama} {piece : Bytes}
      {error : Exception} {receiver : Receiver Client}
      (samples : Samples params locals session token sampler)
      (unfinished : llama.isEog token = false)
      (rendered : tokenToPiece llama token (token ∈ resolved.preserved) = .ok piece)
      (failed : locals.filter.push onChunk piece session.receiver = (.error error, receiver)) :
      RoundOutcome (.error error, ⟨session.impl.sampled token, receiver⟩)
  | ends {token : Token} {sampler : SamplerChain llama} {piece : Bytes}
      {status : StreamFilter.Status} {filter : StreamFilter} {receiver : Receiver Client}
      {ending : Ending llama}
      (pushes : Pushes params resolved onChunk locals session token sampler piece status filter
        receiver)
      (finishes : ended params (locals.next sampler filter) status = some ending) :
      RoundOutcome (.ok (.inr ending), ⟨session.impl.sampled token, receiver⟩)
  | full {token : Token} {sampler : SamplerChain llama} {piece : Bytes}
      {status : StreamFilter.Status} {filter : StreamFilter} {receiver : Receiver Client}
      (goesOn : GoesOn params resolved onChunk locals session token sampler piece status filter
        receiver)
      (noRoom : config.nCtxSeq < session.impl.cached.length + 1) :
      RoundOutcome (.ok (.inr ⟨.length, true, locals.next sampler filter⟩),
        ⟨session.impl.sampled token, receiver⟩)
  | decoded {token : Token} {sampler : SamplerChain llama} {piece : Bytes}
      {status : StreamFilter.Status} {filter : StreamFilter} {receiver : Receiver Client}
      {host : llama.Host} {evicted : Nat} {logits : Token → llama.Logit}
      (goesOn : GoesOn params resolved onChunk locals session token sampler piece status filter
        receiver)
      (room : session.impl.cached.length + 1 ≤ config.nCtxSeq)
      (answer : llama.decode session.impl.context.host session.impl.context.memory [token] =
        (.done evicted logits, host)) :
      RoundOutcome (.ok (.inl (locals.next sampler filter)),
        ⟨extended host [token] evicted logits (session.impl.sampled token), receiver⟩)
  | noSlot {token : Token} {sampler : SamplerChain llama} {piece : Bytes}
      {status : StreamFilter.Status} {filter : StreamFilter} {receiver : Receiver Client}
      {host : llama.Host} {ret : Int} {nonzero : ret ≠ 0} {leftover : Memory}
      (goesOn : GoesOn params resolved onChunk locals session token sampler piece status filter
        receiver)
      (room : session.impl.cached.length + 1 ≤ config.nCtxSeq)
      (answer : llama.decode session.impl.context.host session.impl.context.memory [token] =
        (.code ret nonzero leftover, host))
      (positive : 0 < ret) :
      RoundOutcome (.ok (.inr ⟨.length, true, locals.next sampler filter⟩),
        ⟨record (.decoded [token] (.code ret nonzero leftover))
          (emptied host (session.impl.sampled token)), receiver⟩)
  | failed {token : Token} {sampler : SamplerChain llama} {piece : Bytes}
      {status : StreamFilter.Status} {filter : StreamFilter} {receiver : Receiver Client}
      {host : llama.Host} {ret : Int} {nonzero : ret ≠ 0} {leftover : Memory}
      (goesOn : GoesOn params resolved onChunk locals session token sampler piece status filter
        receiver)
      (room : session.impl.cached.length + 1 ≤ config.nCtxSeq)
      (answer : llama.decode session.impl.context.host session.impl.context.memory [token] =
        (.code ret nonzero leftover, host))
      (negative : ¬ 0 < ret) :
      RoundOutcome (.error (.engine (.generationDecode ret)),
        ⟨record (.decoded [token] (.code ret nonzero leftover))
          (emptied host (session.impl.sampled token)), receiver⟩)
  | threw {token : Token} {sampler : SamplerChain llama} {piece : Bytes}
      {status : StreamFilter.Status} {filter : StreamFilter} {receiver : Receiver Client}
      {host : llama.Host} {error : Foreign} {leftover : Memory}
      (goesOn : GoesOn params resolved onChunk locals session token sampler piece status filter
        receiver)
      (room : session.impl.cached.length + 1 ≤ config.nCtxSeq)
      (answer : llama.decode session.impl.context.host session.impl.context.memory [token] =
        (.threw error leftover, host)) :
      RoundOutcome (.error (.foreign error),
        ⟨record (.decoded [token] (.threw error leftover))
          (emptied host (session.impl.sampled token)), receiver⟩)

/-- A round does one of the things listed. -/
theorem generationRound_outcome :
    RoundOutcome config params resolved onChunk locals session
      (generationRound config params resolved onChunk locals session) := by
  cases spent : budgetSpent params locals.completionTokens with
  | true =>
      simp only [generationRound, spent, if_true, pure_apply]
      exact .spent spent
  | false =>
      obtain ⟨token, sampler, drew, ran⟩ | ⟨error, failed, ran⟩ :=
        draw_cases locals.sampler session.impl
      · have samples : Samples params locals session token sampler := ⟨spent, drew⟩
        cases finished : llama.isEog token with
        | true =>
            simp only [generationRound, spent, Bool.false_eq_true, if_false, bind_apply,
              onImpl_apply, ran, finished, if_true, pure_apply]
            exact .eog samples finished
        | false =>
            simp only [generationRound, spent, Bool.false_eq_true, if_false, bind_apply,
              onImpl_apply, ran, finished, attempt_apply]
            cases rendered : tokenToPiece llama token (token ∈ resolved.preserved) with
            | error error => exact .unrendered samples finished rendered
            | ok piece =>
                simp only [onReceiver_apply]
                match pushed : locals.filter.push onChunk piece session.receiver with
                | (.error error, receiver) => exact .undelivered samples finished rendered pushed
                | (.ok (status, filter), receiver) =>
                    have pushes : Pushes params resolved onChunk locals session token sampler
                        piece status filter receiver := ⟨samples, finished, rendered, pushed⟩
                    cases finishes : ended params (locals.next sampler filter) status with
                    | some ending =>
                        simp only [Locals.next] at finishes
                        simp only [finishes]
                        exact .ends pushes finishes
                    | none =>
                        have goesOn : GoesOn params resolved onChunk locals session token sampler
                            piece status filter receiver := ⟨pushes, finishes⟩
                        simp only [Locals.next] at finishes
                        simp only [finishes, bind_apply, onImpl_apply]
                        obtain ⟨noRoom, decoding⟩ | ⟨room,
                          ⟨host, evicted, logits, answer, decoding⟩ |
                          ⟨host, ret, nonzero, leftover, answer, decoding⟩ |
                          ⟨host, error, leftover, answer, decoding⟩⟩ :=
                            decodeNext_cases config token
                              (record (.sampled session.impl.context.logits token) session.impl)
                        · simp only [decoding]
                          exact .full goesOn noRoom
                        · simp only [decoding]
                          exact .decoded goesOn room answer
                        · simp only [decoding]
                          by_cases positive : 0 < ret
                          · simp only [if_pos positive]
                            exact .noSlot goesOn room answer positive
                          · simp only [if_neg positive]
                            exact .failed goesOn room answer positive
                        · simp only [decoding]
                          exact .threw goesOn room answer
      · simp only [generationRound, spent, Bool.false_eq_true, if_false, bind_apply, onImpl_apply,
          ran]
        exact .unsampled spent failed

end Outcomes

variable {config}

/-- A round that goes round again has decoded one more token into a context that had room
for it. -/
theorem generationRound_decreases {params : SamplingParams} {resolved : ResolvedTokens}
    {onChunk : ChunkCallback Client} {locals next : Locals llama}
    {session after : Session llama Client}
    (round : generationRound config params resolved onChunk locals session =
      (.ok (.inl next), after)) :
    config.nCtxSeq - after.impl.cached.length < config.nCtxSeq - session.impl.cached.length := by
  have outcome := generationRound_outcome config params resolved onChunk locals session
  rw [round] at outcome
  cases outcome with
  | decoded goesOn room answer =>
      simp only [extended, Impl.sampled, record, List.length_append, List.length_singleton]
      omega

variable (config)

/-- The generation loop. -/
def generation (params : SamplingParams) (resolved : ResolvedTokens)
    (onChunk : ChunkCallback Client) (locals : Locals llama) :
    Program (Session llama Client) Exception (Ending llama) :=
  loop (fun _ session => config.nCtxSeq - session.impl.cached.length)
    (generationRound config params resolved onChunk) generationRound_decreases locals

/-- A stop prefix that never completed is still delivered where the generation ended on
its own. -/
def flushEnding (onChunk : ChunkCallback Client) (ending : Ending llama) :
    Program (Session llama Client) Exception Unit :=
  if ending.flushTail then do
    let _ ← onReceiver (ending.locals.filter.flush onChunk)
    return ()
  else
    return ()

end Generation

/-- Everything after the prompt: the generation loop, the flush and the result. -/
def respond (params : SamplingParams) (onChunk : ChunkCallback Client)
    (admitted : Admitted llama) (kept : Nat) :
    Program (Session llama Client) Exception GenerateResult := do
  let ending ← generation config params admitted.resolved onChunk
    { sampler := admitted.sampler, filter := { stops := params.stop }, completionTokens := 0 }
  flushEnding onChunk ending
  return {
    reason := ending.reason
    stats := {
      promptTokens := admitted.tokens.length
      completionTokens := ending.locals.completionTokens
      cachedPromptTokens := kept } }

/-- Generates from a raw prompt. -/
def generate (entropy : llama.Entropy) (prompt : Bytes) (params : SamplingParams)
    (onChunk : ChunkCallback Client) :
    Program (Session llama Client) Exception GenerateResult := do
  let admitted ← attempt (admission config entropy prompt params)
  let kept ← onImpl (keepPrefix admitted.tokens)
  onImpl (decodePrompt config admitted.tokens kept)
  respond config params onChunk admitted kept

section Requests

variable (llama Client) in
/-- A call of `generate` and the state its callback starts from. -/
structure Request where
  entropy : llama.Entropy
  prompt : Bytes
  params : SamplingParams
  onChunk : ChunkCallback Client
  client : Client

/-- The engine after its constructor. -/
def Impl.fresh (host : llama.Host) (logits : Token → llama.Logit) : Impl llama :=
  { context := { host := host, logits := logits } }

/-- Serve one request; its log starts empty. -/
def serve (request : Request llama Client) (impl : Impl llama) :
    Except Exception GenerateResult × Session llama Client :=
  generate config request.entropy request.prompt request.params request.onChunk
    ⟨{ impl with log := [] }, ⟨request.client, []⟩⟩

/-- Serve requests in the order in which they obtained the lock. -/
def serveAll : List (Request llama Client) → Impl llama →
    List (Except Exception GenerateResult × Session llama Client)
  | [], _ => []
  | request :: rest, impl =>
      serve config request impl :: serveAll rest (serve config request impl).2.impl

/-- The engine the requests leave. -/
def engineAfter : List (Request llama Client) → Impl llama → Impl llama
  | [], impl => impl
  | request :: rest, impl => engineAfter rest (serve config request impl).2.impl

end Requests

section Invariants

/-- A flush leaves the engine alone. -/
theorem flushEnding_preserves (holds : Impl llama → Prop) (onChunk : ChunkCallback Client)
    (ending : Ending llama) :
    Preserves (fun session => holds session.impl) (flushEnding onChunk ending) := by
  refine .ite ?_ .pure
  exact .bind (.zoom_frame fun _ _ kept => kept) fun _ => .pure

/-- A property of the engine that the operations of a generation keep. -/
structure Impl.Invariant (holds : Impl llama → Prop) : Prop where
  keepPrefix : ∀ prompt, Preserves holds (keepPrefix prompt)
  decode : ∀ batch, Preserves holds (decode batch)
  sampled : ∀ logits token impl, holds impl → holds (record (.sampled logits token) impl)

namespace Impl.Invariant

/-- What every further step keeps of a log, the operations keep. -/
theorem of_snoc {holds : List (Entry llama) → Prop}
    (snoc : ∀ log entry, holds log → holds (log ++ [entry])) :
    Impl.Invariant fun impl : Impl llama => holds impl.log := by
  refine ⟨fun prompt impl before => ?_, fun batch impl before => ?_,
    fun logits token impl => snoc _ _⟩
  · obtain ⟨host, ran⟩ | ⟨host, _, _, ran⟩ := keepPrefix_cases prompt impl
    · rw [ran]
      exact snoc _ _ (snoc _ _ before)
    · rw [ran]
      exact snoc _ _ before
  · obtain ⟨host, _, _, _, ran⟩ | ⟨host, _, _, _, _, ran⟩ | ⟨host, _, _, _, ran⟩ :=
      decode_cases batch impl
    · rw [ran]
      exact snoc _ _ before
    · rw [ran]
      exact snoc _ _ (snoc _ _ before)
    · rw [ran]
      exact snoc _ _ (snoc _ _ before)

variable {config} {holds : Impl llama → Prop} (invariant : Impl.Invariant holds)
include invariant

theorem promptRound (tokens : List Token) (off : Nat) :
    Preserves holds (promptRound config tokens off) := by
  refine .ite ?_ .pure
  exact .bind (invariant.decode _) fun ret => .bind .throwIf fun _ => .pure

theorem draw (sampler : SamplerChain llama) : Preserves holds (Llamad.draw sampler) := by
  refine .bind .get fun impl => .bind .attempt fun drawn => ?_
  exact .bind (.modify fun state kept => invariant.sampled _ _ state kept) fun _ => .pure

theorem decodeNext (token : Token) : Preserves holds (Llamad.decodeNext config token) := by
  refine .bind .get fun impl => .ite .pure ?_
  exact .bind (invariant.decode _) fun ret => .ite .pure (.ite .pure .throw)

theorem generationRound (params : SamplingParams) (resolved : ResolvedTokens)
    (onChunk : ChunkCallback Client) (locals : Locals llama) :
    Preserves (fun session => holds session.impl)
      (Llamad.generationRound config params resolved onChunk locals) := by
  refine .ite .pure (.bind (.zoom (invariant.draw _) fun _ _ => rfl) fun drawn => ?_)
  refine .ite .pure (.bind .attempt fun piece => ?_)
  refine .bind (.zoom_frame fun _ _ kept => kept) fun pushed => ?_
  obtain ⟨status, filter⟩ := pushed
  dsimp only
  split
  · exact .pure
  · refine .bind (.zoom (invariant.decodeNext _) fun _ _ => rfl) fun went => ?_
    exact .ite .pure .pure

theorem generation (params : SamplingParams) (resolved : ResolvedTokens)
    (onChunk : ChunkCallback Client) (locals : Locals llama) :
    Preserves (fun session => holds session.impl)
      (Llamad.generation config params resolved onChunk locals) :=
  .loop (fun locals => invariant.generationRound params resolved onChunk locals) locals

theorem respond (params : SamplingParams) (onChunk : ChunkCallback Client)
    (admitted : Admitted llama) (kept : Nat) :
    Preserves (fun session => holds session.impl)
      (Llamad.respond config params onChunk admitted kept) := by
  refine .bind (invariant.generation params _ onChunk _) fun ending => ?_
  exact .bind (flushEnding_preserves holds onChunk ending) fun _ => .pure

/-- Whatever the operations keep, a whole generation keeps, however it ends. -/
theorem generate (entropy : llama.Entropy) (prompt : Bytes) (params : SamplingParams)
    (onChunk : ChunkCallback Client) :
    Preserves (fun session => holds session.impl)
      (Llamad.generate config entropy prompt params onChunk) := by
  refine .bind .attempt fun admitted => ?_
  refine .bind (.zoom (invariant.keepPrefix _) fun _ _ => rfl) fun kept => ?_
  refine .bind (.zoom (.loop (fun off => invariant.promptRound _ off) kept) fun _ _ => rfl)
    fun _ => ?_
  exact invariant.respond params onChunk admitted kept

/-- What does not look at the log holds after a request. -/
theorem serve (unlogged : ∀ impl, holds impl → holds { impl with log := [] })
    (request : Request llama Client) (impl : Impl llama) (initially : holds impl) :
    holds (Llamad.serve config request impl).2.impl :=
  (invariant.generate request.entropy request.prompt request.params request.onChunk).final
    (unlogged impl initially)

/-- What does not look at the log holds after every request of a sequence. -/
theorem serveAll (unlogged : ∀ impl, holds impl → holds { impl with log := [] })
    (requests : List (Request llama Client)) (impl : Impl llama) (initially : holds impl) :
    ∀ outcome ∈ Llamad.serveAll config requests impl, holds outcome.2.impl := by
  induction requests generalizing impl with
  | nil => simp [Llamad.serveAll]
  | cons request rest inductionHypothesis =>
      have served : holds (Llamad.serve config request impl).2.impl :=
        invariant.serve unlogged request impl initially
      rw [Llamad.serveAll, List.forall_mem_cons]
      exact ⟨served, inductionHypothesis _ served⟩

theorem engineAfter (unlogged : ∀ impl, holds impl → holds { impl with log := [] })
    (requests : List (Request llama Client)) (impl : Impl llama) (initially : holds impl) :
    holds (Llamad.engineAfter config requests impl) := by
  induction requests generalizing impl with
  | nil => exact initially
  | cons request rest inductionHypothesis =>
      exact inductionHypothesis _ (invariant.serve unlogged request impl initially)

end Impl.Invariant

end Invariants

end Llamad
