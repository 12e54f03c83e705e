import Llamad.Engine.Embed

/-!
# A call under the lock, step by step

`generate` and `embed` cut at every call of llama.cpp and of the client: where a section
stands is a `Control`, and one step takes it to the next. The measures show that every
section ends, and run to the end without interruption the steps are the two functions.
-/

namespace Llamad

open Logical Semantics Program Session

variable {llama : Llama} {Client : Type}

section Parts

variable {Value : Type} {session after : Session llama Client} {value : Value}

theorem Session.onImpl_eq_ok_iff {program : Program (Impl llama) Exception Value} :
    onImpl program session = (.ok value, after) ↔
      ∃ impl, program session.impl = (.ok value, impl) ∧ { session with impl := impl } = after := by
  rcases ran : program session.impl with ⟨result, impl⟩
  simp only [onImpl_apply, ran, Prod.mk.injEq]
  constructor
  · rintro ⟨same, left⟩
    exact ⟨impl, ⟨same, rfl⟩, left⟩
  · rintro ⟨_, ⟨same, rfl⟩, left⟩
    exact ⟨same, left⟩

theorem Session.onReceiver_eq_ok_iff {program : Program (Receiver Client) Exception Value} :
    onReceiver program session = (.ok value, after) ↔
      ∃ receiver, program session.receiver = (.ok value, receiver) ∧
        { session with receiver := receiver } = after := by
  rcases ran : program session.receiver with ⟨result, receiver⟩
  simp only [onReceiver_apply, ran, Prod.mk.injEq]
  constructor
  · rintro ⟨same, left⟩
    exact ⟨receiver, ⟨same, rfl⟩, left⟩
  · rintro ⟨_, ⟨same, rfl⟩, left⟩
    exact ⟨same, left⟩

end Parts

section Generating

variable (llama) in
/-- Where a generation stands in its section. -/
inductive GenerateControl where
  | entering
  | keeping (admitted : Admitted llama)
  | prompting (admitted : Admitted llama) (kept off : Nat)
  | sampling (admitted : Admitted llama) (kept : Nat) (locals : Locals llama)
  | delivering (admitted : Admitted llama) (kept : Nat) (token : Token) (locals : Locals llama)
  | extending (admitted : Admitted llama) (kept : Nat) (token : Token) (locals : Locals llama)
  | flushing (admitted : Admitted llama) (kept : Nat) (ending : Ending llama)

/-- What a generation returns. -/
def GenerateResult.of (admitted : Admitted llama) (kept : Nat) (ending : Ending llama) :
    GenerateResult where
  reason := ending.reason
  stats := {
    promptTokens := admitted.tokens.length
    completionTokens := ending.locals.completionTokens
    cachedPromptTokens := kept }

/-- What the generation loop starts from. -/
def Locals.first (params : SamplingParams) (admitted : Admitted llama) : Locals llama :=
  { sampler := admitted.sampler, filter := { stops := params.stop }, completionTokens := 0 }

variable (config : EngineConfig) (request : Request llama Client)

/-- One step of a generation. -/
def generateStep : GenerateControl llama →
    Program (Session llama Client) Exception (GenerateControl llama ⊕ GenerateResult)
  | .entering => do
      onImpl (modify fun impl => { impl with log := [] })
      let admitted ← attempt (admission config request.entropy request.prompt request.params)
      return .inl (.keeping admitted)
  | .keeping admitted => do
      let kept ← onImpl (Impl.keepPrefix admitted.tokens)
      return .inl (.prompting admitted kept kept)
  | .prompting admitted kept off => do
      match ← onImpl (promptRound config admitted.tokens off) with
      | .inl off => return .inl (.prompting admitted kept off)
      | .inr () => return .inl (.sampling admitted kept (Locals.first request.params admitted))
  | .sampling admitted kept locals => do
      if budgetSpent request.params locals.completionTokens then
        return .inl (.flushing admitted kept ⟨.length, true, locals⟩)
      else
        let (token, sampler) ← onImpl (draw locals.sampler)
        if llama.isEog token then
          return .inl (.flushing admitted kept ⟨.eog, true, { locals with sampler := sampler }⟩)
        else
          return .inl (.delivering admitted kept token { locals with sampler := sampler })
  | .delivering admitted kept token locals => do
      let piece ← attempt (tokenToPiece llama token (token ∈ admitted.resolved.preserved))
      let (status, filter) ← onReceiver (locals.filter.push request.onChunk piece)
      let locals : Locals llama := ⟨locals.sampler, filter, locals.completionTokens + 1⟩
      match ended request.params locals status with
      | some ending => return .inl (.flushing admitted kept ending)
      | none => return .inl (.extending admitted kept token locals)
  | .extending admitted kept token locals => do
      if ← onImpl (decodeNext config token) then
        return .inl (.sampling admitted kept locals)
      else
        return .inl (.flushing admitted kept ⟨.length, true, locals⟩)
  | .flushing admitted kept ending => do
      flushEnding request.onChunk ending
      return .inr (.of admitted kept ending)

/-- How much of a generation is left at most. -/
def generateMeasure (control : GenerateControl llama) (session : Session llama Client) : Nat :=
  let room := 3 * (config.nCtxSeq - session.impl.cached.length)
  match control with
  | .entering => 4 * config.nCtxSeq + 7
  | .keeping admitted => admitted.tokens.length + 3 * config.nCtxSeq + 6
  | .prompting admitted _ off => admitted.tokens.length - off + 3 * config.nCtxSeq + 5
  | .sampling .. => room + 4
  | .delivering .. => room + 3
  | .extending .. => room + 2
  | .flushing .. => 1

variable {config request}

/-- Drawing a token and rendering it leave the record as it is. -/
theorem draw_cached {sampler : SamplerChain llama} {impl after : Impl llama}
    {drawn : Token × SamplerChain llama} (drew : draw sampler impl = (.ok drawn, after)) :
    after.cached = impl.cached := by
  obtain ⟨token, next, _, ran⟩ | ⟨error, _, ran⟩ := draw_cases sampler impl
  · rw [ran] at drew
    cases drew
    rfl
  · rw [ran] at drew
    cases drew

/-- A token the loop goes on from is one more in the record, and there was room for it. -/
theorem decodeNext_cached {token : Token} {impl after : Impl llama}
    (went : decodeNext config token impl = (.ok true, after)) :
    after.cached = impl.cached ++ [token] ∧ impl.cached.length < config.nCtxSeq := by
  obtain ⟨_, ran⟩ | ⟨room, ⟨host, evicted, logits, _, ran⟩ |
    ⟨host, ret, nonzero, leftover, _, ran⟩ | ⟨host, error, leftover, _, ran⟩⟩ :=
      decodeNext_cases config token impl
  · rw [ran] at went
    cases went
  · rw [ran] at went
    cases went
    exact ⟨rfl, room⟩
  · rw [ran] at went
    by_cases positive : 0 < ret
    · rw [if_pos positive] at went
      cases went
    · rw [if_neg positive] at went
      cases went
  · rw [ran] at went
    cases went

/-- Every step of a generation brings it nearer to its end. -/
theorem generateStep_decreases {control next : GenerateControl llama}
    {session after : Session llama Client}
    (stepped : generateStep config request control session = (.ok (.inl next), after)) :
    generateMeasure config next after < generateMeasure config control session := by
  cases control with
  | entering =>
      simp only [generateStep, bind_eq_ok_iff] at stepped
      obtain ⟨_, _, _, admitted, _, passed, ends⟩ := stepped
      cases ends
      obtain ⟨_, _, short⟩ := admission_ok (congrArg Prod.fst passed)
      simp only [generateMeasure]
      omega
  | keeping admitted =>
      simp only [generateStep, bind_eq_ok_iff] at stepped
      obtain ⟨kept, _, _, ends⟩ := stepped
      cases ends
      simp only [generateMeasure]
      omega
  | prompting admitted kept off =>
      simp only [generateStep, bind_eq_ok_iff] at stepped
      obtain ⟨result, middle, ran, ends⟩ := stepped
      cases result with
      | inl later =>
          cases ends
          obtain ⟨impl, ran, _⟩ := onImpl_eq_ok_iff.mp ran
          have decreases := promptRound_decreases ran
          simp only [generateMeasure]
          omega
      | inr done =>
          cases ends
          simp only [generateMeasure]
          omega
  | sampling admitted kept locals =>
      by_cases spent : budgetSpent request.params locals.completionTokens
      · simp only [generateStep, if_pos spent, pure_apply] at stepped
        cases stepped
        simp only [generateMeasure]
        omega
      · simp only [generateStep, if_neg spent, bind_eq_ok_iff, onImpl_eq_ok_iff] at stepped
        obtain ⟨⟨token, sampler⟩, _, ⟨impl, drew, rfl⟩, ends⟩ := stepped
        have kept := draw_cached drew
        by_cases eog : llama.isEog token
        · simp only [if_pos eog, pure_apply] at ends
          cases ends
          simp only [generateMeasure]
          omega
        · simp only [if_neg eog, pure_apply] at ends
          cases ends
          simp only [generateMeasure, kept]
          omega
  | delivering admitted kept token locals =>
      simp only [generateStep, bind_eq_ok_iff, onReceiver_eq_ok_iff, attempt_apply] at stepped
      obtain ⟨piece, _, rendered, ⟨status, filter⟩, _, ⟨receiver, _, rfl⟩, ends⟩ := stepped
      obtain ⟨_, rfl⟩ := Prod.mk.inj rendered
      cases finishes : ended request.params ⟨locals.sampler, filter, locals.completionTokens + 1⟩
        status with
      | some ending =>
          simp only [finishes, pure_apply] at ends
          cases ends
          simp only [generateMeasure]
          omega
      | none =>
          simp only [finishes, pure_apply] at ends
          cases ends
          simp only [generateMeasure]
          omega
  | extending admitted kept token locals =>
      simp only [generateStep, bind_eq_ok_iff, onImpl_eq_ok_iff] at stepped
      obtain ⟨went, _, ⟨impl, ran, rfl⟩, ends⟩ := stepped
      cases went with
      | true =>
          simp only [if_true, pure_apply] at ends
          cases ends
          obtain ⟨longer, room⟩ := decodeNext_cached ran
          simp only [generateMeasure, longer, List.length_append, List.length_singleton]
          omega
      | false =>
          simp only [Bool.false_eq_true, if_false, pure_apply] at ends
          cases ends
          simp only [generateMeasure]
          omega
  | flushing admitted kept ending =>
      simp only [generateStep, bind_eq_ok_iff] at stepped
      obtain ⟨_, _, _, ends⟩ := stepped
      cases ends

variable (config request)

/-- The steps of a generation, taken to the end. -/
def generateSection (control : GenerateControl llama) :
    Program (Session llama Client) Exception GenerateResult :=
  loop (generateMeasure config) (generateStep config request) generateStep_decreases control

theorem generateSection_eq (control : GenerateControl llama) :
    generateSection config request control =
      generateStep config request control >>= Sum.elim (generateSection config request) pure :=
  loop_eq_bind

/-- What follows a generation loop that has ended. -/
theorem generateSection_flushing (admitted : Admitted llama) (kept : Nat)
    (ending : Ending llama) :
    generateSection config request (.flushing admitted kept ending) = (do
      flushEnding request.onChunk ending
      return .of admitted kept ending) := by
  rw [generateSection_eq, generateStep, bind_bind]
  rfl

theorem generateSection_extending (admitted : Admitted llama) (kept : Nat) (token : Token)
    (locals : Locals llama) :
    generateSection config request (.extending admitted kept token locals) = (do
      if ← onImpl (decodeNext config token) then
        generateSection config request (.sampling admitted kept locals)
      else
        generateSection config request (.flushing admitted kept ⟨.length, true, locals⟩)) := by
  rw [generateSection_eq, generateStep, bind_bind]
  congr 1
  funext went
  rw [ite_then]
  rfl

theorem generateSection_delivering (admitted : Admitted llama) (kept : Nat) (token : Token)
    (locals : Locals llama) :
    generateSection config request (.delivering admitted kept token locals) = (do
      let piece ← attempt (tokenToPiece llama token (token ∈ admitted.resolved.preserved))
      let (status, filter) ← onReceiver (locals.filter.push request.onChunk piece)
      match ended request.params ⟨locals.sampler, filter, locals.completionTokens + 1⟩ status with
      | some ending => generateSection config request (.flushing admitted kept ending)
      | none =>
          generateSection config request (.extending admitted kept token
            ⟨locals.sampler, filter, locals.completionTokens + 1⟩)) := by
  rw [generateSection_eq, generateStep, bind_bind]
  congr 1
  funext piece
  rw [bind_bind]
  congr 1
  funext pushed
  obtain ⟨status, filter⟩ := pushed
  cases finishes : ended request.params ⟨locals.sampler, filter, locals.completionTokens + 1⟩
    status with
  | some ending => simp only [finishes]; rfl
  | none => simp only [finishes]; rfl

/-- A section that stands before a token takes the steps of one round of the loop. -/
theorem generateSection_sampling (admitted : Admitted llama) (kept : Nat) (locals : Locals llama) :
    generateSection config request (.sampling admitted kept locals) =
      generationRound config request.params admitted.resolved request.onChunk locals >>=
        Sum.elim (fun next => generateSection config request (.sampling admitted kept next))
          fun ending => generateSection config request (.flushing admitted kept ending) := by
  rw [generateSection_eq, generateStep, generationRound, ite_then, ite_then]
  congr 1
  rw [bind_bind, bind_bind]
  congr 1
  funext drawn
  obtain ⟨token, sampler⟩ := drawn
  simp only [ite_then]
  congr 1
  rw [pure_then, Sum.elim_inl, generateSection_delivering, bind_bind]
  congr 1
  funext piece
  rw [bind_bind]
  congr 1
  funext pushed
  obtain ⟨status, filter⟩ := pushed
  cases finishes : ended request.params ⟨sampler, filter, locals.completionTokens + 1⟩ status with
  | some ending => simp only [finishes]; rfl
  | none =>
      simp only [finishes]
      rw [generateSection_extending, bind_bind]
      congr 1
      funext went
      rw [ite_then]
      rfl

/-- From a token on, the steps are the rest of the generation loop and what follows it. -/
theorem generateSection_respond (admitted : Admitted llama) (kept : Nat) (locals : Locals llama) :
    generateSection config request (.sampling admitted kept locals) = (do
      let ending ← generation config request.params admitted.resolved request.onChunk locals
      generateSection config request (.flushing admitted kept ending)) := by
  funext session
  induction size : config.nCtxSeq - session.impl.cached.length using Nat.strongRecOn
    generalizing locals session with
  | ind bound inductionHypothesis =>
      rw [generateSection_sampling, generation, loop_eq_bind, bind_bind]
      rcases round : generationRound config request.params admitted.resolved request.onChunk locals
        session with ⟨error | (next | ending), after⟩
      · rw [bind_of_error round, bind_of_error round]
      · rw [bind_of_ok round, bind_of_ok round]
        exact inductionHypothesis _ (size ▸ generationRound_decreases round) next after rfl
      · rw [bind_of_ok round, bind_of_ok round]
        rfl

/-- From a batch of the prompt on, the steps are the rest of the prompt loop and what follows
it. -/
theorem generateSection_prompting (admitted : Admitted llama) (kept off : Nat) :
    generateSection config request (.prompting admitted kept off) = (do
      onImpl (decodePrompt config admitted.tokens off)
      generateSection config request
        (.sampling admitted kept (Locals.first request.params admitted))) := by
  funext session
  induction size : admitted.tokens.length - off using Nat.strongRecOn generalizing off session with
  | ind bound inductionHypothesis =>
      rw [generateSection_eq, generateStep, bind_bind]
      rcases ran : promptRound config admitted.tokens off session.impl with
        ⟨error | (next | _), impl⟩
      · have round : onImpl (promptRound config admitted.tokens off) session =
            (.error error, { session with impl := impl }) := by rw [onImpl_apply, ran]
        have prompt : onImpl (decodePrompt config admitted.tokens off) session =
            (.error error, { session with impl := impl }) := by
          rw [onImpl_apply, decodePrompt, loop_of_error ran]
        rw [bind_of_error round, bind_of_error prompt]
      · have round : onImpl (promptRound config admitted.tokens off) session =
            (.ok (.inl next), { session with impl := impl }) := by rw [onImpl_apply, ran]
        have prompt : onImpl (decodePrompt config admitted.tokens off) session =
            onImpl (decodePrompt config admitted.tokens next) { session with impl := impl } := by
          rw [onImpl_apply, onImpl_apply, decodePrompt, loop_of_inl ran]
          rfl
        rw [bind_of_ok round, bind_apply (onImpl _), prompt, ← bind_apply]
        exact inductionHypothesis _ (size ▸ promptRound_decreases ran) next _ rfl
      · have round : onImpl (promptRound config admitted.tokens off) session =
            (.ok (.inr ()), { session with impl := impl }) := by rw [onImpl_apply, ran]
        have prompt : onImpl (decodePrompt config admitted.tokens off) session =
            (.ok (), { session with impl := impl }) := by
          rw [onImpl_apply, decodePrompt, loop_of_inr ran]
        rw [bind_of_ok round, bind_of_ok prompt]
        rfl

/-- From the admission on, the steps are the rest of the generation. -/
theorem generateSection_keeping (admitted : Admitted llama) :
    generateSection config request (.keeping admitted) = (do
      let kept ← onImpl (Impl.keepPrefix admitted.tokens)
      onImpl (decodePrompt config admitted.tokens kept)
      respond config request.params request.onChunk admitted kept) := by
  rw [generateSection_eq, generateStep, bind_bind]
  congr 1
  funext kept
  rw [pure_then, Sum.elim_inl, generateSection_prompting]
  congr 1
  funext _
  rw [generateSection_respond, respond]
  congr 1
  funext ending
  exact generateSection_flushing config request admitted kept ending

/-- The steps of a generation, taken without interruption, are the generation. -/
theorem generateSection_entering (session : Session llama Client) :
    generateSection config request .entering session =
      generate config request.entropy request.prompt request.params request.onChunk
        { session with impl := { session.impl with log := [] } } := by
  have reset : onImpl (modify fun impl => { impl with log := [] }) session =
      (.ok (), { session with impl := { session.impl with log := [] } }) := rfl
  rw [generateSection_eq, generateStep, bind_bind, bind_of_ok reset, generate, bind_bind]
  refine congrFun (congrArg (attempt _ >>= ·) (funext fun admitted => ?_)) _
  exact generateSection_keeping config request admitted

section Kept

variable {config request} {holds : Impl llama → Prop}

/-- What the programs a generation is made of keep of the engine, every step of it keeps. -/
theorem generateStep_preserves (unlogged : ∀ impl, holds impl → holds { impl with log := [] })
    (keeping : ∀ prompt, Preserves holds (Impl.keepPrefix prompt))
    (prompting : ∀ tokens off, Preserves holds (promptRound config tokens off))
    (drawing : ∀ sampler, Preserves holds (draw sampler))
    (extending : ∀ token, Preserves holds (decodeNext config token))
    (control : GenerateControl llama) :
    Preserves (fun session => holds session.impl) (generateStep config request control) := by
  cases control with
  | entering =>
      refine .bind (.zoom (.modify unlogged) fun _ _ => rfl) fun _ => ?_
      exact .bind .attempt fun admitted => .pure
  | keeping admitted =>
      exact .bind (.zoom (keeping _) fun _ _ => rfl) fun kept => .pure
  | prompting admitted kept off =>
      refine .bind (.zoom (prompting _ off) fun _ _ => rfl) fun result => ?_
      cases result with
      | inl off => exact .pure
      | inr done => exact .pure
  | sampling admitted kept locals =>
      refine .ite .pure (.bind (.zoom (drawing _) fun _ _ => rfl) fun drawn => ?_)
      exact .ite .pure .pure
  | delivering admitted kept token locals =>
      refine .bind .attempt fun piece => .bind (.zoom_frame fun _ _ kept => kept) fun pushed => ?_
      obtain ⟨status, filter⟩ := pushed
      dsimp only
      split
      · exact .pure
      · exact .pure
  | extending admitted kept token locals =>
      exact .bind (.zoom (extending token) fun _ _ => rfl) fun went => .ite .pure .pure
  | flushing admitted kept ending =>
      exact .bind (flushEnding_preserves holds request.onChunk ending) fun _ => .pure

/-- What the operations of a generation keep, and what does not look at the log, every step of
a generation keeps. -/
theorem Impl.Invariant.generateStep (invariant : Impl.Invariant holds)
    (unlogged : ∀ impl, holds impl → holds { impl with log := [] })
    (control : GenerateControl llama) :
    Preserves (fun session => holds session.impl)
      (Llamad.generateStep config request control) :=
  generateStep_preserves unlogged invariant.keepPrefix invariant.promptRound invariant.draw
    invariant.decodeNext control

end Kept

end Generating

section Embedding

variable (llama) in
/-- Where an embedding stands in its section; every input was measured before. -/
inductive EmbedControl where
  | entering (tokenized : List (List Token))
  | asking (tokenized : List (List Token)) (result : EmbedResult llama.Logit)
  | pooling (tokens : List Token) (rest : List (List Token)) (result : EmbedResult llama.Logit)

variable (keepGoing : KeepGoing Client)

/-- One step of an embedding. -/
def embedStep : EmbedControl llama →
    Program (Session llama Client) Exception (EmbedControl llama ⊕ EmbedResult llama.Logit)
  | .entering tokenized => do
      onImpl (modify fun impl => { impl with log := [] })
      return .inl (.asking tokenized {})
  | .asking [] result => return .inr result
  | .asking (tokens :: rest) result => do
      if ← goOn keepGoing then
        return .inl (.pooling tokens rest result)
      else
        return .inr result
  | .pooling tokens rest result => do
      let embedding ← onImpl (Impl.pool tokens)
      return .inl (.asking rest {
        embeddings := result.embeddings ++ [embedding]
        inputTokens := result.inputTokens + tokens.length })

/-- How much of an embedding is left at most. -/
def embedMeasure : EmbedControl llama → Session llama Client → Nat
  | .entering tokenized, _ => 2 * tokenized.length + 2
  | .asking tokenized _, _ => 2 * tokenized.length + 1
  | .pooling _ rest _, _ => 2 * rest.length + 2

variable {keepGoing}

/-- Every step of an embedding brings it nearer to its end. -/
theorem embedStep_decreases {control next : EmbedControl llama}
    {session after : Session llama Client}
    (stepped : embedStep keepGoing control session = (.ok (.inl next), after)) :
    embedMeasure next after < embedMeasure control session := by
  cases control with
  | entering tokenized =>
      simp only [embedStep, bind_eq_ok_iff] at stepped
      obtain ⟨_, _, _, ends⟩ := stepped
      cases ends
      simp only [embedMeasure]
      omega
  | asking tokenized result =>
      cases tokenized with
      | nil => cases stepped
      | cons tokens rest =>
          simp only [embedStep, bind_eq_ok_iff] at stepped
          obtain ⟨going, _, _, ends⟩ := stepped
          cases going with
          | true =>
              cases ends
              simp only [embedMeasure, List.length_cons]
              omega
          | false => cases ends
  | pooling tokens rest result =>
      simp only [embedStep, bind_eq_ok_iff] at stepped
      obtain ⟨_, _, _, ends⟩ := stepped
      cases ends
      simp only [embedMeasure]
      omega

variable (keepGoing)

/-- The steps of an embedding, taken to the end. -/
def embedSection (control : EmbedControl llama) :
    Program (Session llama Client) Exception (EmbedResult llama.Logit) :=
  loop embedMeasure (embedStep keepGoing) embedStep_decreases control

theorem embedSection_eq (control : EmbedControl llama) :
    embedSection keepGoing control =
      embedStep keepGoing control >>= Sum.elim (embedSection keepGoing) pure :=
  loop_eq_bind

/-- Before an input, the steps are the inputs that are left. -/
theorem embedSection_asking (tokenized : List (List Token)) (result : EmbedResult llama.Logit) :
    embedSection keepGoing (.asking tokenized result) =
      embedInputs keepGoing tokenized result := by
  induction tokenized generalizing result with
  | nil =>
      rw [embedSection_eq, embedStep, embedInputs]
      rfl
  | cons tokens rest inductionHypothesis =>
      rw [embedSection_eq, embedStep, embedInputs, bind_bind]
      congr 1
      funext going
      rw [ite_then]
      congr 1
      rw [pure_then, Sum.elim_inl, embedSection_eq, embedStep, bind_bind]
      congr 1
      funext embedding
      exact inductionHypothesis _

/-- The steps of an embedding, taken without interruption, are its inputs in order. -/
theorem embedSection_entering (tokenized : List (List Token)) (session : Session llama Client) :
    embedSection keepGoing (.entering tokenized) session =
      embedInputs keepGoing tokenized {}
        { session with impl := { session.impl with log := [] } } := by
  have reset : onImpl (modify fun impl => { impl with log := [] }) session =
      (.ok (), { session with impl := { session.impl with log := [] } }) := rfl
  rw [embedSection_eq, embedStep, bind_bind, bind_of_ok reset, pure_then, Sum.elim_inl,
    embedSection_asking]

end Embedding

end Llamad
