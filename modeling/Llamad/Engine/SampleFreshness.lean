import Llamad.Engine.Generate
import Llamad.Logical.History

/-!
# Samples read fresh logits

A generation never samples from logits an earlier request left: the last step before
every sample is a decode of this request, its last token is the last token of the
prompt and the tokens sampled so far, and the cache then holds exactly these. This
holds of every run, whatever the cache held before and however the run ends.
-/

namespace Llamad

open Logical Semantics Program Session Impl

variable {llama : Llama} {Client : Type}

/-- The tokens sampled so far in a log. -/
def drawn (log : List (Entry llama)) : List Token :=
  log.filterMap fun entry =>
    match entry.step with
    | .sampled _ token => some token
    | _ => none

section Drawn

@[simp] theorem drawn_append (first second : List (Entry llama)) :
    drawn (first ++ second) = drawn first ++ drawn second :=
  List.filterMap_append

@[simp] theorem drawn_sampled (token : Token) (impl : Impl llama) :
    drawn (impl.sampled token).log = drawn impl.log ++ [token] :=
  drawn_append _ _

@[simp] theorem drawn_emptied (host : llama.Host) (impl : Impl llama) :
    drawn (emptied host impl).log = drawn impl.log :=
  (drawn_append _ _).trans (List.append_nil _)

@[simp] theorem drawn_decoded (batch : List Token) (answer : Decoded llama.Logit)
    (impl : Impl llama) : drawn (record (.decoded batch answer) impl).log = drawn impl.log :=
  (drawn_append _ _).trans (List.append_nil _)

@[simp] theorem drawn_extended (host : llama.Host) (batch : List Token) (evicted : Nat)
    (logits : Token → llama.Logit) (impl : Impl llama) :
    drawn (extended host batch evicted logits impl).log = drawn impl.log :=
  (drawn_append _ _).trans (List.append_nil _)

/-- Trimming the cache samples nothing. -/
theorem keepPrefix_drawn (prompt tokens : List Token) :
    Preserves (fun impl : Impl llama => drawn impl.log = tokens) (keepPrefix prompt) := by
  intro impl same
  obtain ⟨host, ran⟩ | ⟨host, _, _, ran⟩ := keepPrefix_cases prompt impl
  · rw [ran]
    simpa [drawn, emptied, record] using same
  · rw [ran]
    simpa [drawn, trimmed, record] using same

/-- The prompt loop samples nothing. -/
theorem decodePrompt_drawn (config : EngineConfig) (prompt tokens : List Token) (kept : Nat) :
    Preserves (fun impl : Impl llama => drawn impl.log = tokens)
      (decodePrompt config prompt kept) := by
  have decodes (batch : List Token) :
      Preserves (fun impl : Impl llama => drawn impl.log = tokens) (decode batch) := by
    intro impl same
    obtain ⟨host, _, _, _, ran⟩ | ⟨host, _, _, _, _, ran⟩ | ⟨host, _, _, _, ran⟩ :=
      decode_cases batch impl
    · rw [ran, meets_ok, drawn_extended, same]
    · rw [ran, meets_ok, drawn_decoded, drawn_emptied, same]
    · rw [ran, meets_error, drawn_decoded, drawn_emptied, same]
  refine .loop (fun off => .ite ?_ .pure) kept
  exact .bind (decodes _) fun ret => .bind .throwIf fun _ => .pure

end Drawn

/-- The log ends with the decode that left these logits; it decoded the last of `sequence`,
and the cache then held all of it. -/
def EndsWithDecode (sequence : List Token) (logits : Token → llama.Logit)
    (log : List (Entry llama)) : Prop :=
  ∃ front last batch evicted, log = front ++ [last] ∧
    last.step = .decoded batch (.done evicted logits) ∧ last.cached = sequence ∧
    batch.getLast? = sequence.getLast?

/-- Every sample of a log reads the logits of the decode right before it, whose last token
is the last of the prompt and the tokens sampled so far. -/
def SamplesFresh (tokens : List Token) (log : List (Entry llama)) : Prop :=
  ∀ before entry after logits token, log = before ++ entry :: after →
    entry.step = .sampled logits token → EndsWithDecode (tokens ++ drawn before) logits before

theorem samplesFresh_iff {tokens : List Token} {log : List (Entry llama)} :
    SamplesFresh tokens log ↔ Throughout (fun before entry => ∀ logits token,
      entry.step = .sampled logits token → EndsWithDecode (tokens ++ drawn before) logits before)
        log := by
  constructor
  · intro fresh before entry after same logits token
    exact fresh before entry after logits token same
  · intro throughout before entry after logits token same
    exact throughout before entry after same logits token

theorem SamplesFresh.nil (tokens : List Token) : SamplesFresh tokens ([] : List (Entry llama)) :=
  samplesFresh_iff.mpr .nil

theorem SamplesFresh.append {tokens : List Token} {log : List (Entry llama)}
    (fresh : SamplesFresh tokens log) {entry : Entry llama}
    (here : ∀ logits token, entry.step = .sampled logits token →
      EndsWithDecode (tokens ++ drawn log) logits log) :
    SamplesFresh tokens (log ++ [entry]) :=
  samplesFresh_iff.mpr ((samplesFresh_iff.mp fresh).snoc here)

/-- A step that samples nothing. -/
def Step.Unsampled (step : Step llama) : Prop := ∀ logits token, step ≠ .sampled logits token

theorem SamplesFresh.record {tokens : List Token} {impl : Impl llama}
    (fresh : SamplesFresh tokens impl.log) {step : Step llama} (unsampled : step.Unsampled) :
    SamplesFresh tokens (Impl.record step impl).log :=
  fresh.append fun logits token sampled => absurd sampled (unsampled logits token)

theorem SamplesFresh.record_emptied {tokens : List Token} {impl : Impl llama}
    (fresh : SamplesFresh tokens impl.log) {step : Step llama} (unsampled : step.Unsampled)
    (host : llama.Host) : SamplesFresh tokens (Impl.record step (emptied host impl)).log := by
  have cleared : SamplesFresh tokens (emptied host impl).log :=
    fresh.append (by rintro _ _ ⟨⟩)
  exact cleared.record unsampled

/-- The engine is about to sample from logits it has just decoded. -/
structure Impl.Ready (tokens : List Token) (impl : Impl llama) : Prop where
  fresh : SamplesFresh tokens impl.log
  cached : impl.cached = tokens ++ drawn impl.log
  ends : EndsWithDecode (tokens ++ drawn impl.log) impl.context.logits impl.log

namespace Impl.Ready

variable {tokens : List Token} {impl : Impl llama} (ready : impl.Ready tokens)
include ready

/-- A sample behind a decode is fresh. -/
theorem sampled (token : Token) : SamplesFresh tokens (impl.sampled token).log := by
  refine ready.fresh.append ?_
  rintro _ _ ⟨⟩
  exact ready.ends

/-- A sampled token that is decoded leaves fresh logits. -/
theorem extended {token : Token} {host : llama.Host} {evicted : Nat}
    {logits : Token → llama.Logit} :
    (Impl.extended host [token] evicted logits (impl.sampled token)).Ready tokens := by
  have drew : drawn (Impl.extended host [token] evicted logits (impl.sampled token)).log =
      drawn impl.log ++ [token] := by
    rw [drawn_extended, drawn_sampled]
  have cached : impl.cached ++ [token] = tokens ++ (drawn impl.log ++ [token]) := by
    rw [ready.cached, List.append_assoc]
  refine ⟨(ready.sampled token).append (by rintro _ _ ⟨⟩), ?_, ?_⟩
  · rw [drew, ← cached]
    rfl
  · rw [drew]
    refine ⟨_, _, [token], evicted, rfl, rfl, cached, ?_⟩
    rw [← List.append_assoc, List.getLast?_concat, List.getLast?_singleton]

/-- A sampled token whose decode fails is the last one. -/
theorem emptied (token : Token) (host : llama.Host) (answer : Decoded llama.Logit) :
    SamplesFresh tokens
      (record (.decoded [token] answer) (Impl.emptied host (impl.sampled token))).log :=
  (ready.sampled token).record_emptied (by rintro _ _ ⟨⟩) host

end Impl.Ready

variable {config : EngineConfig}

/-- A round samples from fresh logits, and leaves fresh ones when it goes round. -/
theorem generationRound_ready {tokens : List Token} {params : SamplingParams}
    {resolved : ResolvedTokens} {onChunk : ChunkCallback Client} (locals : Locals llama) :
    Triple (fun session => session.impl.Ready tokens)
      (generationRound config params resolved onChunk locals)
      (fun result after => Sum.elim (fun _ => after.impl.Ready tokens)
        (fun _ => SamplesFresh tokens after.impl.log) result)
      (fun _ after => SamplesFresh tokens after.impl.log) := by
  intro session ready
  have outcome := generationRound_outcome config params resolved onChunk locals session
  generalize generationRound config params resolved onChunk locals session = result at outcome ⊢
  cases outcome with
  | spent _ => exact ready.fresh
  | unsampled _ _ => exact ready.fresh
  | eog _ _ => exact ready.sampled _
  | unrendered _ _ _ => exact ready.sampled _
  | undelivered _ _ _ _ => exact ready.sampled _
  | ends _ _ => exact ready.sampled _
  | full _ _ => exact ready.sampled _
  | decoded _ _ _ => exact ready.extended
  | noSlot _ _ _ _ => exact ready.emptied _ _ _
  | failed _ _ _ _ => exact ready.emptied _ _ _
  | threw _ _ _ => exact ready.emptied _ _ _

/-- The prompt loop samples nothing and ends with the decode of the last prompt token. -/
theorem decodePrompt_ready {tokens : List Token} {kept : Nat} {impl : Impl llama}
    (left : kept < tokens.length) (cached : impl.cached = tokens.take kept)
    (unsampled : drawn impl.log = []) (fresh : SamplesFresh tokens impl.log) :
    Meets (fun _ after => after.Ready tokens) (fun _ after => SamplesFresh tokens after.log)
      (decodePrompt config tokens kept impl) := by
  let upTo (off : Nat) (impl : Impl llama) : Prop :=
    off ≤ tokens.length ∧ impl.cached = tokens.take off ∧ drawn impl.log = [] ∧
      SamplesFresh tokens impl.log ∧
      (off = tokens.length → EndsWithDecode tokens impl.context.logits impl.log)
  have rounds : ∀ off, Triple (upTo off) (promptRound config tokens off)
      (fun result after => Sum.elim (upTo · after) (fun _ => after.Ready tokens) result)
      (fun _ after => SamplesFresh tokens after.log) := by
    rintro off impl ⟨short, cached, unsampled, fresh, ends⟩
    obtain ⟨past, ran⟩ | ⟨inside, ⟨host, evicted, logits, _, ran⟩ |
      ⟨host, ret, nonzero, leftover, _, ran⟩ | ⟨host, error, leftover, _, ran⟩⟩ :=
        promptRound_cases config tokens off impl
    · have whole : off = tokens.length := Nat.le_antisymm short past
      rw [ran]
      rw [whole, List.take_length] at cached
      refine ⟨fresh, ?_, ?_⟩
      · rw [unsampled, List.append_nil, cached]
      · rw [unsampled, List.append_nil]
        exact ends whole
    · have positive := config.nBatch_pos
      have joined : impl.cached ++
          (tokens.drop off).take (min config.nBatch (tokens.length - off)) =
          tokens.take (off + min config.nBatch (tokens.length - off)) := by
        rw [cached]
        exact List.take_add.symm
      rw [ran]
      refine ⟨by omega, joined, ?_, SamplesFresh.append fresh (by rintro _ _ ⟨⟩),
        fun whole => ⟨_, _, _, evicted, rfl, rfl, ?_, ?_⟩⟩
      · rw [drawn_extended, unsampled]
      · rw [whole, List.take_length] at joined
        exact joined
      · rw [List.take_of_length_le (by rw [List.length_drop]; omega), List.getLast?_drop,
          if_neg (by omega)]
    · rw [ran]
      exact fresh.record_emptied (by rintro _ _ ⟨⟩) host
    · rw [ran]
      exact fresh.record_emptied (by rintro _ _ ⟨⟩) host
  exact Triple.loop rounds kept impl
    ⟨Nat.le_of_lt left, cached, unsampled, fresh, fun whole => absurd whole (Nat.ne_of_lt left)⟩

/-- Trimming the cache samples nothing and leaves a front part of the prompt. -/
theorem keepPrefix_unsampled {tokens : List Token} {impl : Impl llama} (nonempty : tokens ≠ [])
    (started : impl.log = []) :
    Meets (fun kept after => kept < tokens.length ∧ after.cached = tokens.take kept ∧
        drawn after.log = [] ∧ SamplesFresh tokens after.log)
      (fun _ after => SamplesFresh tokens after.log) (keepPrefix tokens impl) := by
  have positive := List.length_pos_iff.mpr nonempty
  have nothing : SamplesFresh tokens impl.log := by
    rw [started]
    exact .nil tokens
  obtain ⟨host, ran⟩ | ⟨host, _, _, ran⟩ := keepPrefix_cases tokens impl
  · rw [ran]
    refine ⟨positive, rfl, ?_, nothing.record_emptied (by rintro _ _ ⟨⟩) host⟩
    simp [drawn, emptied, record, started]
  · rw [ran]
    obtain ⟨_, short, same⟩ := reusablePrefix_spec impl.cached tokens
    refine ⟨by omega, same, ?_, nothing.append (by rintro _ _ ⟨⟩)⟩
    simp [drawn, trimmed, record, started]

/-- Whatever the cache holds and however the generation ends, it samples only from logits
it has just decoded. -/
theorem generate_samplesFresh (entropy : llama.Entropy) {prompt : Bytes} {tokens : List Token}
    (tokenized : tokenize llama prompt true true = .ok tokens) (params : SamplingParams)
    (onChunk : ChunkCallback Client) :
    Triple (fun session : Session llama Client => session.impl.log = [])
      (generate config entropy prompt params onChunk)
      (fun _ after => SamplesFresh tokens after.impl.log)
      (fun _ after => SamplesFresh tokens after.impl.log) := by
  have nothing : ∀ session : Session llama Client, session.impl.log = [] →
      SamplesFresh tokens session.impl.log := by
    intro session started
    rw [started]
    exact .nil tokens
  let admits (admitted : Admitted llama) (session : Session llama Client) : Prop :=
    session.impl.log = [] ∧ admitted.tokens = tokens ∧ tokens ≠ []
  let keeps (kept : Nat) (session : Session llama Client) : Prop :=
    kept < tokens.length ∧ session.impl.cached = tokens.take kept ∧
      drawn session.impl.log = [] ∧ SamplesFresh tokens session.impl.log
  have admitting : Triple (fun session : Session llama Client => session.impl.log = [])
      (attempt (admission config entropy prompt params)) admits
      (fun _ after => SamplesFresh tokens after.impl.log) := by
    refine .attempt (fun session admitted started passed => ?_)
      fun session _ started _ => nothing session started
    obtain ⟨same, nonempty, _⟩ := admission_ok passed
    rw [tokenized] at same
    cases same
    exact ⟨started, rfl, nonempty⟩
  refine .bind admitting fun admitted => ?_
  have keeping : Triple (admits admitted) (onImpl (keepPrefix admitted.tokens))
      (fun kept after => keeps kept after ∧ admitted.tokens = tokens)
      (fun _ after => SamplesFresh tokens after.impl.log) := by
    refine .zoom ?_
    rintro session ⟨started, rfl, nonempty⟩
    exact (keepPrefix_unsampled nonempty started).imp (fun _ _ _ kept => ⟨kept, rfl⟩)
      fun _ _ _ fresh => fresh
  refine .bind keeping fun kept => ?_
  have prompting : Triple (fun session => keeps kept session ∧ admitted.tokens = tokens)
      (onImpl (decodePrompt config admitted.tokens kept))
      (fun _ after => after.impl.Ready tokens)
      (fun _ after => SamplesFresh tokens after.impl.log) := by
    refine .zoom ?_
    rintro session ⟨⟨left, cached, unsampled, fresh⟩, rfl⟩
    exact decodePrompt_ready left cached unsampled fresh
  refine .bind prompting fun _ => .bind (.loop generationRound_ready _) fun ending => ?_
  exact .bind (flushEnding_preserves (fun impl => SamplesFresh tokens impl.log) onChunk ending)
    fun _ => .pure fun _ fresh => fresh

end Llamad
