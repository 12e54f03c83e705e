import Llamad.Engine.CacheTransparency
import Llamad.Engine.Embed
import Mathlib.Algebra.GroupWithZero.Nat

/-!
# Embeddings and their batch

What `embed` makes of an input depends on the input alone, where a decode from a cleared
memory does: not on the engine's past, nor on the other inputs of the batch. A batch is
refused before anything is decoded, or embedded up to the first cancellation.
-/

namespace Llamad

open Logical Semantics Program Session

variable {llama : Llama} {Client : Type}

variable (llama) in
/-- A decode from a cleared memory leaves a pooled vector that depends on its tokens alone. -/
def Pools (pooled : List Token → List llama.Logit) : Prop :=
  ∀ host tokens evicted logits after,
    llama.decode host {} tokens = (.done evicted logits, after) →
      llama.embeddingsSeq after = some (pooled tokens)

section Measuring

variable {config : EngineConfig} {index : Nat} {input : Bytes} {inputs : List Bytes}
  {tokens : List Token} {tokenized : List (List Token)}

variable (config llama) in
/-- The input has these tokens, at least one and no more than one decode takes. -/
structure Fits (input : Bytes) (tokens : List Token) : Prop where
  tokenizes : tokenize llama input true true = .ok tokens
  nonempty : tokens ≠ []
  within : tokens.length ≤ config.maxEmbedTokens

variable (config llama) in
/-- The input tokenizes to nothing or to more tokens than one decode takes. -/
def Unfit (input : Bytes) : Prop :=
  ∃ tokens, tokenize llama input true true = .ok tokens ∧
    (tokens = [] ∨ config.maxEmbedTokens < tokens.length)

theorem measureInput_eq_ok_iff :
    measureInput config llama index input = .ok tokens ↔ Fits llama config input tokens := by
  rw [measureInput, except_bind_eq_ok_iff]
  constructor
  · rintro ⟨found, tokenizes, measured⟩
    split at measured
    · cases measured
    rename_i nonempty
    split at measured
    · cases measured
    rename_i within
    cases measured
    exact ⟨tokenizes, by simpa using nonempty, Nat.not_lt.mp within⟩
  · rintro ⟨tokenizes, nonempty, within⟩
    refine ⟨tokens, tokenizes, ?_⟩
    rw [if_neg (by simpa using nonempty), if_neg (by omega)]

variable (llama) in
/-- The tokens of an input, where it has any. -/
def tokensOf (input : Bytes) : List Token :=
  match tokenize llama input true true with
  | .ok tokens => tokens
  | .error _ => []

theorem Fits.tokensOf_eq (fits : Fits llama config input tokens) : tokensOf llama input = tokens := by
  rw [tokensOf, fits.tokenizes]

/-- A batch is measured exactly if every input fits. -/
theorem measure_eq_ok_iff :
    measure config llama index inputs = .ok tokenized ↔
      (∀ input ∈ inputs, Fits llama config input (tokensOf llama input)) ∧
        tokenized = inputs.map (tokensOf llama) := by
  induction inputs generalizing index tokenized with
  | nil =>
      constructor
      · rintro ⟨⟩
        exact ⟨nofun, rfl⟩
      · rintro ⟨_, rfl⟩
        rfl
  | cons input rest inductionHypothesis =>
      rw [measure, except_bind_eq_ok_iff, List.forall_mem_cons, List.map_cons]
      constructor
      · rintro ⟨tokens, here, measured⟩
        rw [except_bind_eq_ok_iff] at measured
        obtain ⟨more, later, measured⟩ := measured
        cases measured
        obtain ⟨others, rfl⟩ := inductionHypothesis.mp later
        have fits := measureInput_eq_ok_iff.mp here
        rw [fits.tokensOf_eq]
        exact ⟨⟨fits, others⟩, rfl⟩
      · rintro ⟨⟨fits, others⟩, rfl⟩
        refine ⟨_, measureInput_eq_ok_iff.mpr fits, ?_⟩
        rw [except_bind_eq_ok_iff]
        exact ⟨_, inductionHypothesis.mpr ⟨others, rfl⟩, rfl⟩

theorem Fits.not_unfit (fits : Fits llama config input tokens) : ¬ Unfit llama config input := by
  rintro ⟨found, tokenizes, unfit⟩
  rw [fits.tokenizes] at tokenizes
  cases tokenizes
  obtain none | many := unfit
  · exact fits.nonempty none
  · exact absurd many (Nat.not_lt.mpr fits.within)

end Measuring

/-- How many of so many inputs are asked for before the first false answer. -/
def heard (keepGoing : KeepGoing Client) : Nat → Client → Nat
  | 0, _ => 0
  | count + 1, client =>
      match keepGoing with
      | none => heard keepGoing count client + 1
      | some ask =>
          match ask client with
          | (.ok true, next) => heard keepGoing count next + 1
          | _ => 0

/-- Every question is answered. -/
def KeepGoing.Answers (keepGoing : KeepGoing Client) : Prop :=
  ∀ ask ∈ keepGoing, ∀ client, ∃ answer next, ask client = (.ok answer, next)

/-- A decode failed between two states of a log. -/
def FailedSince (before after : List (Entry llama)) : Prop :=
  ∃ added, before ++ added = after ∧ ∃ entry ∈ added, entry.step.Failed

theorem FailedSince.since_earlier {before middle after : List (Entry llama)}
    (grown : before <+: middle) (failed : FailedSince middle after) : FailedSince before after := by
  obtain ⟨more, rfl⟩ := grown
  obtain ⟨added, rfl, entry, member, failed⟩ := failed
  exact ⟨more ++ added, by rw [List.append_assoc], entry, List.mem_append_right _ member, failed⟩

theorem FailedSince.record {before : List (Entry llama)} {impl : Impl llama} {step : Step llama}
    (grown : before <+: impl.log) (failed : step.Failed) :
    FailedSince before (Impl.record step impl).log :=
  .since_earlier grown ⟨[_], rfl, _, List.mem_singleton_self _, failed⟩

/-- Two results, one behind the other. -/
def EmbedResult.append {Value : Type} (front back : EmbedResult Value) : EmbedResult Value where
  embeddings := front.embeddings ++ back.embeddings
  inputTokens := front.inputTokens + back.inputTokens

section Embedding

variable {pooled : List Token → List llama.Logit} {keepGoing : KeepGoing Client}
  {session : Session llama Client}

/-- What a batch of tokenized inputs is worth. -/
def batchOf (pooled : List Token → List llama.Logit) (tokenized : List (List Token)) :
    EmbedResult llama.Logit where
  embeddings := tokenized.map fun tokens => llama.l2Normalized (pooled tokens)
  inputTokens := (tokenized.map List.length).sum

/-- One input yields its own vector, or its decode fails. -/
theorem pool_meets (pools : Pools llama pooled) (tokens : List Token) (impl : Impl llama) :
    Meets (fun vector after => vector = llama.l2Normalized (pooled tokens) ∧ impl.log <+: after.log)
      (fun _ after => FailedSince impl.log after.log) (Impl.pool tokens impl) := by
  have grown : impl.log <+:
      (Impl.record .cleared (Impl.withContext impl.context.host {} impl)).log :=
    List.prefix_append _ _
  match answer : llama.decode (Impl.record .cleared
      (Impl.withContext impl.context.host {} impl)).context.host {} tokens with
  | (.done evicted logits, host) =>
      have found := pools _ _ _ _ _ answer
      change llama.decode _ (Impl.record .cleared
        (Impl.withContext impl.context.host {} impl)).context.memory tokens = _ at answer
      simp only [Impl.pool, bind_apply, modify_apply, get_apply, answer, found]
      exact ⟨rfl, (List.prefix_append _ _).trans (List.prefix_append _ _)⟩
  | (.code ret nonzero leftover, host) =>
      change llama.decode _ (Impl.record .cleared
        (Impl.withContext impl.context.host {} impl)).context.memory tokens = _ at answer
      simp only [Impl.pool, bind_apply, modify_apply, get_apply, answer]
      exact .record grown Step.failed_code
  | (.threw error leftover, host) =>
      change llama.decode _ (Impl.record .cleared
        (Impl.withContext impl.context.host {} impl)).context.memory tokens = _ at answer
      simp only [Impl.pool, bind_apply, modify_apply, get_apply, answer]
      exact .record grown Step.failed_threw

/-- A batch yields the vectors of the inputs before the first false answer, or a decode
fails. -/
theorem embedInputs_meets (pools : Pools llama pooled) (tokenized : List (List Token))
    (start : EmbedResult llama.Logit) (session : Session llama Client) :
    Meets
      (fun result _ => result = start.append (batchOf pooled
        (tokenized.take (heard keepGoing tokenized.length session.receiver.client))))
      (fun _ after => keepGoing.Answers → FailedSince session.impl.log after.impl.log)
      (embedInputs keepGoing tokenized start session) := by
  induction tokenized generalizing start session with
  | nil => simp [embedInputs, EmbedResult.append, batchOf, heard]
  | cons tokens rest inductionHypothesis =>
      have decodes (going : Session llama Client) (same : going.impl = session.impl) :
          Meets
            (fun result _ => result = start.append (batchOf pooled (tokens ::
              rest.take (heard keepGoing rest.length going.receiver.client))))
            (fun _ after => keepGoing.Answers → FailedSince session.impl.log after.impl.log)
            ((onImpl (Impl.pool tokens) >>= fun embedding => embedInputs keepGoing rest
              { embeddings := start.embeddings ++ [embedding]
                inputTokens := start.inputTokens + tokens.length } :
              Program (Session llama Client) Exception (EmbedResult llama.Logit)) going) := by
        have met := pool_meets pools tokens going.impl
        rw [bind_apply, onImpl_apply]
        rcases ran : Impl.pool tokens going.impl with ⟨error | vector, impl⟩
        · rw [ran, same] at met
          exact fun _ => met
        · rw [ran, same] at met
          obtain ⟨rfl, grown⟩ := met
          refine (inductionHypothesis _ { going with impl := impl }).imp
            (fun result _ _ returned => ?_) fun _ _ _ failed answers =>
              .since_earlier grown (failed answers)
          rw [returned]
          simp [EmbedResult.append, batchOf, List.append_assoc, Nat.add_assoc]
      cases keepGoing with
      | none => exact decodes session rfl
      | some ask =>
          simp only [embedInputs, goOn]
          rcases ran : ask session.receiver.client with ⟨error | going, client⟩
          · have asked : onClient ask session = (.error error,
                { session with receiver := { session.receiver with client := client } }) := by
              rw [onClient_apply, ran]
            rw [bind_of_error asked]
            intro answers
            obtain ⟨answer, next, answered⟩ := answers ask rfl session.receiver.client
            rw [ran] at answered
            cases answered
          · have asked : onClient ask session = (.ok going,
                { session with receiver := { session.receiver with client := client } }) := by
              rw [onClient_apply, ran]
            rw [bind_of_ok asked]
            cases going with
            | false => simp [EmbedResult.append, batchOf, heard, ran]
            | true =>
                have next := decodes
                  { session with receiver := { session.receiver with client := client } } rfl
                simpa only [heard, List.length_cons, ran, List.take_succ_cons, if_true] using next

variable {config : EngineConfig} {inputs : List Bytes} {result : EmbedResult llama.Logit}
  {after : Session llama Client}

/-- A batch with an input that does not fit is refused before anything is decoded. -/
theorem embed_of_unfit (serves : config.embeddings = true)
    (unfit : ∃ input ∈ inputs, Unfit llama config input) :
    ∃ error, embed config inputs keepGoing session = (.error error, session) := by
  cases measured : measure config llama 0 inputs with
  | error error =>
      refine ⟨error, ?_⟩
      rw [embed, if_pos serves, bind_apply, attempt_apply, measured]
  | ok tokenized =>
      obtain ⟨input, member, unfit⟩ := unfit
      exact absurd unfit ((measure_eq_ok_iff.mp measured).1 input member).not_unfit

/-- A batch of inputs that fit yields the vectors of those before the first false answer,
each a function of its input, or a decode fails. -/
theorem embed_meets (pools : Pools llama pooled) (serves : config.embeddings = true)
    (fits : ∀ input ∈ inputs, Fits llama config input (tokensOf llama input))
    (session : Session llama Client) :
    Meets
      (fun result _ => result = batchOf pooled
        ((inputs.take (heard keepGoing inputs.length session.receiver.client)).map (tokensOf llama)))
      (fun _ after => keepGoing.Answers → FailedSince session.impl.log after.impl.log)
      (embed config inputs keepGoing session) := by
  have measured : measure config llama 0 inputs = .ok (inputs.map (tokensOf llama)) :=
    measure_eq_ok_iff.mpr ⟨fits, rfl⟩
  have met := @embedInputs_meets _ _ _ keepGoing pools (inputs.map (tokensOf llama)) {} session
  rw [embed, if_pos serves, bind_apply, attempt_apply, measured]
  rw [List.length_map, ← List.map_take] at met
  simpa [EmbedResult.append] using met

/-- A batch that returns is a batch of inputs that fit. -/
theorem fits_of_embed (serves : config.embeddings = true)
    (returned : embed config inputs keepGoing session = (.ok result, after)) :
    ∀ input ∈ inputs, Fits llama config input (tokensOf llama input) := by
  rw [embed, if_pos serves, bind_eq_ok_iff] at returned
  obtain ⟨tokenized, _, measured, _⟩ := returned
  exact (measure_eq_ok_iff.mp (congrArg Prod.fst measured)).1

/-- What a batch returns. -/
theorem embed_returns (pools : Pools llama pooled) (serves : config.embeddings = true)
    (returned : embed config inputs keepGoing session = (.ok result, after)) :
    result = batchOf pooled
      ((inputs.take (heard keepGoing inputs.length session.receiver.client)).map
        (tokensOf llama)) := by
  have met := @embed_meets _ _ _ keepGoing _ _ pools serves (fits_of_embed serves returned) session
  rwa [returned] at met

theorem heard_le (keepGoing : KeepGoing Client) (count : Nat) (client : Client) :
    heard keepGoing count client ≤ count := by
  induction count generalizing client with
  | zero => exact Nat.le_refl 0
  | succ count inductionHypothesis =>
      cases keepGoing with
      | none => exact Nat.succ_le_succ (inductionHypothesis client)
      | some ask =>
          rw [heard]
          match ask client with
          | (.ok true, next) => exact Nat.succ_le_succ (inductionHypothesis next)
          | (.ok false, _) => exact Nat.zero_le _
          | (.error _, _) => exact Nat.zero_le _

/-- The batch is embedded, with this result. -/
def Embeds (config : EngineConfig) (inputs : List Bytes) (keepGoing : KeepGoing Client)
    (session : Session llama Client) (result : EmbedResult llama.Logit) : Prop :=
  ∃ after, embed config inputs keepGoing session = (.ok result, after)

/-- No question of the batch is answered with false. -/
def Uncancelled (inputs : List Bytes) (keepGoing : KeepGoing Client)
    (session : Session llama Client) : Prop :=
  heard keepGoing inputs.length session.receiver.client = inputs.length

variable (llama Client config) in
/-- The laws of `embed`: which batches it refuses, when it returns, how much it returns, and
that a vector depends on its input alone. -/
structure EmbedsAlone : Prop where
  refuses : ∀ inputs (keepGoing : KeepGoing Client) (session : Session llama Client),
    (∃ input ∈ inputs, Unfit llama config input) →
      ∃ error, embed config inputs keepGoing session = (.error error, session)
  returns : ∀ inputs (keepGoing : KeepGoing Client) (session : Session llama Client),
    (∀ input ∈ inputs, Fits llama config input (tokensOf llama input)) → keepGoing.Answers →
      Meets (fun _ _ => True) (fun _ after => FailedSince session.impl.log after.impl.log)
        (embed config inputs keepGoing session)
  counts : ∀ {inputs} {keepGoing : KeepGoing Client} {session : Session llama Client} {result},
    Embeds config inputs keepGoing session result →
      let before := heard keepGoing inputs.length session.receiver.client
      result.embeddings.length = before ∧
        result.inputTokens = ((inputs.take before).map fun input =>
          (tokensOf llama input).length).sum
  alone : ∀ {inputs} {keepGoing : KeepGoing Client} {session : Session llama Client} {result},
    Embeds config inputs keepGoing session result →
      ∀ {position : Nat} {input vector}, inputs[position]? = some input →
        result.embeddings[position]? = some vector →
          ∀ {host logits} {receiver : Receiver Client} {single},
            Embeds config [input] none ⟨Impl.fresh host logits, receiver⟩ single →
              single.embeddings = [vector]
  appends : ∀ {front back} {asked askedFront askedBack : KeepGoing Client}
    {session sessionFront sessionBack : Session llama Client} {whole first second},
    Uncancelled (front ++ back) asked session → Uncancelled front askedFront sessionFront →
      Uncancelled back askedBack sessionBack →
        Embeds config (front ++ back) asked session whole →
          Embeds config front askedFront sessionFront first →
            Embeds config back askedBack sessionBack second → whole = first.append second
  permutes : ∀ {inputs others} {asked askedOthers : KeepGoing Client}
    {session sessionOthers : Session llama Client} {result other},
    inputs.Perm others → Uncancelled inputs asked session →
      Uncancelled others askedOthers sessionOthers → Embeds config inputs asked session result →
        Embeds config others askedOthers sessionOthers other →
          (inputs.zip result.embeddings).Perm (others.zip other.embeddings) ∧
            result.inputTokens = other.inputTokens

/-- What an uncancelled batch returns. -/
theorem Embeds.eq_of_uncancelled (pools : Pools llama pooled) (serves : config.embeddings = true)
    (uncancelled : Uncancelled inputs keepGoing session)
    (embeds : Embeds config inputs keepGoing session result) :
    result = batchOf pooled (inputs.map (tokensOf llama)) := by
  obtain ⟨after, returned⟩ := embeds
  have whole := embed_returns pools serves returned
  rwa [uncancelled, List.take_length] at whole

theorem batchOf_append (front back : List (List Token)) :
    @batchOf llama pooled (front ++ back) =
      (batchOf pooled front).append (batchOf pooled back) := by
  simp [batchOf, EmbedResult.append]

/-- Where a decode from a cleared memory depends on its tokens alone, a vector depends on its
input alone. -/
theorem embedsAlone (pools : Pools llama pooled) (serves : config.embeddings = true) :
    EmbedsAlone llama Client config where
  refuses _ _ _ unfit := embed_of_unfit serves unfit
  returns inputs keepGoing session fits answers :=
    (embed_meets pools serves fits session).imp (fun _ _ _ _ => trivial)
      fun _ _ _ failed => failed answers
  counts := by
    rintro inputs keepGoing session result ⟨after, returned⟩
    have within := heard_le keepGoing inputs.length session.receiver.client
    rw [embed_returns pools serves returned]
    simp [batchOf, List.length_take, within, Function.comp_def]
  alone := by
    rintro inputs keepGoing session result ⟨after, returned⟩ position input vector here found host
      logits receiver single embeds
    have uncancelled : Uncancelled [input] (none : KeepGoing Client)
      (⟨Impl.fresh host logits, receiver⟩ : Session llama Client) := rfl
    rw [embeds.eq_of_uncancelled pools serves uncancelled]
    rw [embed_returns pools serves returned] at found
    simp only [batchOf, List.map_map, List.getElem?_map, Option.map_eq_some_iff] at found
    obtain ⟨other, taken, rfl⟩ := found
    rw [List.getElem?_take] at taken
    split at taken
    · rw [here] at taken
      cases taken
      rfl
    · cases taken
  appends := by
    intro front back asked askedFront askedBack session sessionFront sessionBack whole first second
      uncancelled uncancelledFront uncancelledBack embeds embedsFront embedsBack
    rw [embeds.eq_of_uncancelled pools serves uncancelled,
      embedsFront.eq_of_uncancelled pools serves uncancelledFront,
      embedsBack.eq_of_uncancelled pools serves uncancelledBack, List.map_append, batchOf_append]
  permutes := by
    intro inputs others asked askedOthers session sessionOthers result other permuted uncancelled
      uncancelledOthers embeds embedsOthers
    rw [embeds.eq_of_uncancelled pools serves uncancelled,
      embedsOthers.eq_of_uncancelled pools serves uncancelledOthers]
    constructor
    · simp only [batchOf, List.map_map]
      rw [← List.map_prod_left_eq_zip, ← List.map_prod_left_eq_zip]
      exact permuted.map _
    · simp only [batchOf, List.map_map]
      exact (permuted.map _).sum_nat

end Embedding

end Llamad
