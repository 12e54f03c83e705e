import Llamad.Engine.RequestFaults

/-!
# Which exception a failed decode leads to

The log of a request says which `llama_decode` failed and how. `Attributed` relates the
exception a generation ends with to that log: the two exceptions about a decode are
thrown exactly when one reported failure, and what is left is either thrown by code
outside the repository or the request's own fault.
-/

namespace Llamad

open Logical Semantics Program Session Impl

variable {llama : Llama} {Client : Type}

/-- The step chose a token. -/
def Step.Sampled : Step llama → Prop
  | .sampled .. => True
  | _ => False

/-- The step is a decode that did not succeed. -/
def Step.Undecoded : Step llama → Prop
  | .decoded _ (.code ..) => True
  | .decoded _ (.threw ..) => True
  | _ => False

/-- A `llama_decode` returned a code for which a generation fails: any code on the prompt,
which is before a token was chosen, and a negative one after. -/
def Reported (log : List (Entry llama)) : Prop :=
  ∃ before entry after batch ret nonzero leftover, log = before ++ entry :: after ∧
    entry.step = .decoded batch (.code ret nonzero leftover) ∧
    (ret < 0 ∨ ∀ earlier ∈ before, ¬ earlier.step.Sampled)

/-- A `llama_decode` threw. -/
def DecodeThrew (log : List (Entry llama)) : Prop :=
  ∃ entry ∈ log, ∃ batch error leftover, entry.step = .decoded batch (.threw error leftover)

/-- No decode has failed the request. -/
def Calm (log : List (Entry llama)) : Prop := ¬ Reported log ∧ ¬ DecodeThrew log

/-- Nothing was chosen yet. -/
def Prompting (log : List (Entry llama)) : Prop := ∀ entry ∈ log, ¬ entry.step.Sampled

section Log

variable {log : List (Entry llama)} {entry : Entry llama}

theorem not_reported_nil : ¬ Reported ([] : List (Entry llama)) := by
  rintro ⟨before, entry, after, _, _, _, _, same, _⟩
  simp at same

theorem calm_nil : Calm ([] : List (Entry llama)) := by
  refine ⟨not_reported_nil, ?_⟩
  rintro ⟨entry, member, _⟩
  exact absurd member List.not_mem_nil

/-- The last entry reports failure or an earlier one does. -/
theorem reported_snoc_iff : Reported (log ++ [entry]) ↔ Reported log ∨
    ∃ batch ret nonzero leftover, entry.step = .decoded batch (.code ret nonzero leftover) ∧
      (ret < 0 ∨ Prompting log) := by
  constructor
  · rintro ⟨before, other, after, batch, ret, nonzero, leftover, same, decoded, fatal⟩
    obtain ⟨rfl, rfl, rfl⟩ | ⟨earlier, rfl, rfl⟩ := append_singleton_eq_cut same
    · exact .inr ⟨batch, ret, nonzero, leftover, decoded, fatal⟩
    · exact .inl ⟨before, other, earlier, batch, ret, nonzero, leftover, rfl, decoded, fatal⟩
  · rintro (⟨before, other, after, batch, ret, nonzero, leftover, rfl, decoded, fatal⟩ |
      ⟨batch, ret, nonzero, leftover, decoded, fatal⟩)
    · exact ⟨before, other, after ++ [entry], batch, ret, nonzero, leftover, by simp, decoded,
        fatal⟩
    · exact ⟨log, entry, [], batch, ret, nonzero, leftover, rfl, decoded, fatal⟩

/-- A step that decodes, or does not decode at all, reports nothing. -/
theorem Calm.snoc (calm : Calm log) (decoded : ¬ entry.step.Undecoded) : Calm (log ++ [entry]) := by
  refine ⟨fun reported => ?_, ?_⟩
  · obtain reported | ⟨batch, ret, nonzero, leftover, isCode, _⟩ := reported_snoc_iff.mp reported
    · exact calm.1 reported
    · rw [isCode] at decoded
      exact decoded trivial
  · rintro ⟨other, member, batch, error, leftover, isThrow⟩
    rw [List.mem_append, List.mem_singleton] at member
    obtain member | rfl := member
    · exact calm.2 ⟨other, member, batch, error, leftover, isThrow⟩
    · rw [isThrow] at decoded
      exact decoded trivial

/-- While a token was chosen before, a positive code is no failure. -/
theorem Calm.snoc_full (calm : Calm log) (chosen : ¬ Prompting log) {batch : List Token} {ret : Int}
    {nonzero : ret ≠ 0} {leftover : Memory} (positive : 0 < ret)
    (isCode : entry.step = .decoded batch (.code ret nonzero leftover)) :
    Calm (log ++ [entry]) := by
  refine ⟨fun reported => ?_, ?_⟩
  · obtain reported | ⟨_, other, _, _, same, fatal⟩ := reported_snoc_iff.mp reported
    · exact calm.1 reported
    · rw [isCode] at same
      cases same
      exact fatal.elim (fun negative => absurd positive (Int.not_lt.mpr negative.le)) chosen
  · rintro ⟨other, member, _, _, _, isThrow⟩
    rw [List.mem_append, List.mem_singleton] at member
    obtain member | rfl := member
    · exact calm.2 ⟨other, member, _, _, _, isThrow⟩
    · rw [isCode] at isThrow
      cases isThrow

/-- A throw is not reported by a code. -/
theorem not_reported_snoc_threw (calm : Calm log) {batch : List Token} {error : Foreign}
    {leftover : Memory} (isThrow : entry.step = .decoded batch (.threw error leftover)) :
    ¬ Reported (log ++ [entry]) := by
  intro reported
  obtain reported | ⟨_, _, _, _, same, _⟩ := reported_snoc_iff.mp reported
  · exact calm.1 reported
  · rw [isThrow] at same
    cases same

theorem Prompting.snoc (prompting : Prompting log) (other : ¬ entry.step.Sampled) :
    Prompting (log ++ [entry]) := by
  intro earlier member
  rw [List.mem_append, List.mem_singleton] at member
  obtain member | rfl := member
  · exact prompting earlier member
  · exact other

theorem not_prompting_snoc (chosen : entry.step.Sampled) : ¬ Prompting (log ++ [entry]) :=
  fun prompting => prompting entry (by simp) chosen

theorem not_prompting_append {more : List (Entry llama)} (chosen : ¬ Prompting log) :
    ¬ Prompting (log ++ more) :=
  fun prompting => chosen fun entry member => prompting entry (by simp [member])

end Log

/-- Where an exception comes from, given the log it leaves. -/
inductive Attributed (fault : Prop) : Exception → List (Entry llama) → Prop where
  | promptDecode {ret : Int} {log : List (Entry llama)} (reported : Reported log) :
      Attributed fault (.engine (.promptDecode ret)) log
  | generationDecode {ret : Int} {log : List (Entry llama)} (reported : Reported log) :
      Attributed fault (.engine (.generationDecode ret)) log
  | foreign {cause : Foreign} {log : List (Entry llama)} (unreported : ¬ Reported log) :
      Attributed fault (.foreign cause) log
  | fault {error : Exception} {log : List (Entry llama)} (isFault : fault) (calm : Calm log) :
      Attributed fault error log

theorem Attributed.imp {fault other : Prop} (implies : fault → other) {error : Exception}
    {log : List (Entry llama)} (attributed : Attributed fault error log) :
    Attributed other error log := by
  cases attributed with
  | promptDecode reported => exact .promptDecode reported
  | generationDecode reported => exact .generationDecode reported
  | foreign unreported => exact .foreign unreported
  | fault isFault calm => exact .fault (implies isFault) calm

variable (fault : Prop)

section Prompt

/-- Trimming the cache decodes nothing. -/
theorem keepPrefix_calm (prompt : List Token) :
    Triple (fun impl : Impl llama => Calm impl.log ∧ Prompting impl.log) (keepPrefix prompt)
      (fun _ impl => Calm impl.log ∧ Prompting impl.log)
      (fun error impl => Attributed fault error impl.log) := by
  rintro impl ⟨calm, prompting⟩
  obtain ⟨host, ran⟩ | ⟨host, _, _, ran⟩ := keepPrefix_cases prompt impl
  · rw [ran]
    exact ⟨(calm.snoc id).snoc id, (prompting.snoc id).snoc id⟩
  · rw [ran]
    exact ⟨calm.snoc id, prompting.snoc id⟩

/-- A batch of the prompt is decoded, or the exception says how that failed. -/
theorem promptRound_attributed (config : EngineConfig) (tokens : List Token) (off : Nat) :
    Triple (fun impl : Impl llama => Calm impl.log ∧ Prompting impl.log)
      (promptRound config tokens off) (fun _ impl => Calm impl.log ∧ Prompting impl.log)
      (fun error impl => Attributed fault error impl.log) := by
  rintro impl ⟨calm, prompting⟩
  obtain ⟨_, ran⟩ | ⟨_, ⟨host, evicted, logits, _, ran⟩ | ⟨host, ret, nonzero, leftover, _, ran⟩ |
    ⟨host, error, leftover, _, ran⟩⟩ := promptRound_cases config tokens off impl
  · rw [ran]
    exact ⟨calm, prompting⟩
  · rw [ran]
    exact ⟨calm.snoc id, prompting.snoc id⟩
  · rw [ran]
    exact .promptDecode (reported_snoc_iff.mpr
      (.inr ⟨_, _, nonzero, leftover, rfl, .inr (prompting.snoc id)⟩))
  · rw [ran]
    exact .foreign (not_reported_snoc_threw (calm.snoc id) rfl)

/-- The prompt is decoded, or the exception says how that failed. -/
theorem decodePrompt_attributed (config : EngineConfig) (tokens : List Token) (kept : Nat) :
    Triple (fun impl : Impl llama => Calm impl.log ∧ Prompting impl.log)
      (decodePrompt config tokens kept) (fun _ impl => Calm impl.log ∧ Prompting impl.log)
      (fun error impl => Attributed fault error impl.log) := by
  let waiting (_ : Nat) (impl : Impl llama) : Prop := Calm impl.log ∧ Prompting impl.log
  have rounds : ∀ off, Triple (waiting off) (promptRound config tokens off)
      (fun result impl => Sum.elim (waiting · impl)
        (fun _ => Calm impl.log ∧ Prompting impl.log) result)
      (fun error impl => Attributed fault error impl.log) := by
    intro off
    refine (promptRound_attributed fault config tokens off).consequence
      (fun result impl holds => ?_) fun _ _ => id
    cases result with
    | inl next => exact holds
    | inr done => exact holds
  exact .loop rounds kept

end Prompt

section Callback

/-- Whatever the callback throws comes from outside the repository. -/
def ThrowsForeign (onChunk : ChunkCallback Client) : Prop :=
  ∀ callback ∈ onChunk, ∀ text, Triple (fun _ => True) (callback text) (fun _ _ => True)
    (fun error _ => error.Foreign)

variable {onChunk : ChunkCallback Client} (foreign : ThrowsForeign onChunk)
include foreign

theorem ThrowsForeign.deliver (chunk : Bytes) :
    Triple (fun _ => True) (StreamFilter.deliver onChunk chunk) (fun _ _ => True)
      (fun error _ => error.Foreign) := by
  intro receiver _
  by_cases blank : chunk = []
  · simp [StreamFilter.deliver, blank]
  · cases onChunk with
    | none => simp [StreamFilter.deliver, blank]
    | some callback =>
        have met := foreign callback rfl chunk receiver.client trivial
        rcases heard : callback chunk receiver.client with ⟨error | answer, client⟩
        · rw [heard] at met
          simpa [StreamFilter.deliver, blank, heard] using met
        · simp [StreamFilter.deliver, blank, heard]

theorem ThrowsForeign.push (filter : StreamFilter) (piece : Bytes) :
    Triple (fun _ => True) (StreamFilter.push onChunk filter piece) (fun _ _ => True)
      (fun error _ => error.Foreign) := by
  cases found : earliestMatch filter.stops (filter.pending ++ piece) with
  | some start =>
      rw [StreamFilter.push_of_match found]
      exact .bind (foreign.deliver _) fun accepted => .pure fun _ _ => trivial
  | none =>
      rw [StreamFilter.push_of_noMatch found]
      exact .bind (foreign.deliver _) fun accepted => .pure fun _ _ => trivial

theorem ThrowsForeign.flush (filter : StreamFilter) :
    Triple (fun _ => True) (StreamFilter.flush onChunk filter) (fun _ _ => True)
      (fun error _ => error.Foreign) := by
  rw [StreamFilter.flush_eq]
  exact .bind (foreign.deliver _) fun accepted => .pure fun _ _ => trivial

end Callback

section Generation

variable {Selecting : llama.Chain → Prop}

/-- After a decode a token is chosen, or the grammar sampler throws. -/
theorem draw_attributed {sampler : SamplerChain llama} (documented : llama.Documented)
    (selects : llama.Selects Selecting) (sound : sampler.Sound Selecting) :
    Triple (fun impl : Impl llama => Calm impl.log) (draw sampler)
      (fun drawn impl => drawn.2.Sound Selecting ∧ Calm impl.log ∧ ¬ Prompting impl.log)
      (fun error impl => Attributed fault error impl.log) := by
  intro impl calm
  obtain ⟨token, next, sampled, ran⟩ | ⟨error, sampled, ran⟩ := draw_cases sampler impl
  · rw [ran]
    obtain ⟨_, _, same, soundNext⟩ | ⟨cause, threw⟩ :=
      sound.sample documented selects impl.context.logits
    · rw [sampled] at same
      cases same
      exact ⟨soundNext, calm.snoc id, not_prompting_snoc trivial⟩
    · rw [sampled] at threw
      cases threw
  · rw [ran]
    obtain ⟨_, _, same, _⟩ | ⟨cause, threw⟩ :=
      sound.sample documented selects impl.context.logits
    · rw [sampled] at same
      cases same
    · rw [sampled] at threw
      cases threw
      exact .foreign calm.1

/-- The token the loop goes on from is decoded, or the exception says how that failed. -/
theorem decodeNext_attributed (config : EngineConfig) (token : Token) :
    Triple (fun impl : Impl llama => Calm impl.log ∧ ¬ Prompting impl.log)
      (decodeNext config token) (fun _ impl => Calm impl.log)
      (fun error impl => Attributed fault error impl.log) := by
  rintro impl ⟨calm, chosen⟩
  have chosenCleared : ∀ entry, ¬ Prompting (impl.log ++ [entry]) :=
    fun entry => not_prompting_append chosen
  obtain ⟨_, ran⟩ | ⟨_, ⟨host, evicted, logits, _, ran⟩ | ⟨host, ret, nonzero, leftover, _, ran⟩ |
    ⟨host, error, leftover, _, ran⟩⟩ := decodeNext_cases config token impl
  · rw [ran]
    exact calm
  · rw [ran]
    exact calm.snoc id
  · rw [ran]
    by_cases positive : 0 < ret
    · rw [if_pos positive]
      exact (calm.snoc id).snoc_full (chosenCleared _) positive rfl
    · rw [if_neg positive]
      exact .generationDecode (reported_snoc_iff.mpr
        (.inr ⟨_, _, nonzero, leftover, rfl, .inl (by omega)⟩))
  · rw [ran]
    exact .foreign (not_reported_snoc_threw (calm.snoc id) rfl)

variable {onChunk : ChunkCallback Client}

/-- What the engine does to its log, seen from a session. -/
theorem onImpl_attributed {Value : Type} {program : Program (Impl llama) Exception Value}
    {before : Impl llama → Prop} {after : Value → Impl llama → Prop}
    (engine : Triple before program after (fun error impl => Attributed fault error impl.log)) :
    Triple (fun session : Session llama Client => before session.impl) (onImpl program)
      (fun value session => after value session.impl)
      (fun error session => Attributed fault error session.impl.log) := by
  refine .zoom fun session holds => ?_
  exact (engine session.impl holds).imp (fun _ _ _ met => met) fun _ _ _ met => met

/-- What the receiver throws leaves the log of the engine as it was. -/
theorem onReceiver_attributed {Value : Type}
    {program : Program (Receiver Client) Exception Value} (holds : Impl llama → Prop)
    (receiver : Triple (fun _ => True) program (fun _ _ => True) (fun error _ => error.Foreign))
    (calm : ∀ impl, holds impl → Calm impl.log) :
    Triple (fun session : Session llama Client => holds session.impl) (onReceiver program)
      (fun _ session => holds session.impl)
      (fun error session => Attributed fault error session.impl.log) := by
  refine .zoom fun session before => ?_
  refine (receiver session.receiver trivial).imp (fun _ _ _ _ => before) ?_
  rintro error _ _ ⟨cause, rfl⟩
  exact .foreign (calm _ before).1

theorem generationRound_attributed {config : EngineConfig} (foreign : ThrowsForeign onChunk)
    (documented : llama.Documented) (selects : llama.Selects Selecting) (params : SamplingParams)
    (resolved : ResolvedTokens) {locals : Locals llama} (sound : locals.sampler.Sound Selecting) :
    Triple (fun session : Session llama Client => Calm session.impl.log)
      (generationRound config params resolved onChunk locals)
      (fun result session => Calm session.impl.log ∧
        ∀ next, result = .inl next → next.sampler.Sound Selecting)
      (fun error session => Attributed fault error session.impl.log) := by
  rw [generationRound]
  split
  · exact .pure fun session calm => ⟨calm, fun next same => absurd same Sum.inr_ne_inl⟩
  refine .bind (onImpl_attributed fault (draw_attributed fault documented selects sound))
    fun drawn => ?_
  obtain ⟨token, sampler⟩ := drawn
  dsimp only
  split
  · exact .pure fun session holds => ⟨holds.2.1, fun next same => absurd same Sum.inr_ne_inl⟩
  obtain ⟨piece, found⟩ :=
    exists_tokenToPiece documented token (decide (token ∈ resolved.preserved))
  rw [found]
  have read : Triple (fun session : Session llama Client =>
      sampler.Sound Selecting ∧ Calm session.impl.log ∧ ¬ Prompting session.impl.log)
      (attempt (.ok piece)) (fun _ session =>
        sampler.Sound Selecting ∧ Calm session.impl.log ∧ ¬ Prompting session.impl.log)
      (fun error session => Attributed fault error session.impl.log) :=
    fun session holds => holds
  refine .bind read fun piece => ?_
  refine .bind (onReceiver_attributed fault
    (fun impl => sampler.Sound Selecting ∧ Calm impl.log ∧ ¬ Prompting impl.log)
    (foreign.push locals.filter piece) fun impl holds => holds.2.1) fun pushed => ?_
  obtain ⟨status, filter⟩ := pushed
  dsimp only
  split
  · exact .pure fun session holds => ⟨holds.2.1, fun next same => absurd same Sum.inr_ne_inl⟩
  · intro session holds
    refine Triple.bind (onImpl_attributed fault (decodeNext_attributed fault config token))
      (fun went => ?_) session holds.2
    split
    · refine .pure fun session calm => ⟨calm, ?_⟩
      rintro next ⟨⟩
      exact holds.1
    · exact .pure fun session calm => ⟨calm, fun next same => absurd same Sum.inr_ne_inl⟩

/-- The loop, the flush and the result. -/
theorem respond_attributed {config : EngineConfig} (foreign : ThrowsForeign onChunk)
    (documented : llama.Documented) (selects : llama.Selects Selecting) (params : SamplingParams)
    {admitted : Admitted llama} (sound : admitted.sampler.Sound Selecting) (kept : Nat) :
    Triple (fun session : Session llama Client => Calm session.impl.log)
      (respond config params onChunk admitted kept) (fun _ session => Calm session.impl.log)
      (fun error session => Attributed fault error session.impl.log) := by
  let going (locals : Locals llama) (session : Session llama Client) : Prop :=
    locals.sampler.Sound Selecting ∧ Calm session.impl.log
  have rounds : ∀ locals, Triple (going locals)
      (generationRound config params admitted.resolved onChunk locals)
      (fun result session => Sum.elim (going · session) (fun _ => Calm session.impl.log) result)
      (fun error session => Attributed fault error session.impl.log) := by
    rintro locals session ⟨soundLocals, calm⟩
    refine (generationRound_attributed fault foreign documented selects params admitted.resolved
      soundLocals session calm).imp (fun result after _ holds => ?_) fun _ _ _ => id
    cases result with
    | inl next => exact ⟨holds.2 next rfl, holds.1⟩
    | inr ending => exact holds.1
  have looping : Triple (fun session : Session llama Client => Calm session.impl.log)
      (generation config params admitted.resolved onChunk
        { sampler := admitted.sampler, filter := { stops := params.stop }, completionTokens := 0 })
      (fun _ session => Calm session.impl.log)
      (fun error session => Attributed fault error session.impl.log) :=
    Triple.strengthen (.loop rounds _) fun session calm => ⟨sound, calm⟩
  refine .bind looping fun ending => ?_
  have flushing : Triple (fun session : Session llama Client => Calm session.impl.log)
      (flushEnding onChunk ending) (fun _ session => Calm session.impl.log)
      (fun error session => Attributed fault error session.impl.log) := by
    rw [flushEnding]
    split
    · exact .bind (onReceiver_attributed fault (fun impl => Calm impl.log)
        (foreign.flush ending.locals.filter) fun _ => id) fun _ => .pure fun _ => id
    · exact .pure fun _ => id
  exact .bind flushing fun _ => .pure fun _ => id

/-- A generation on a generative model: the exception it ends with is about a decode exactly
when one reported failure, and otherwise it is foreign or the request's fault. -/
theorem generate_attributed {config : EngineConfig} (generative : config.embeddings = false)
    (foreign : ThrowsForeign onChunk) (documented : llama.Documented) (entropy : llama.Entropy)
    (prompt : Bytes) (params : SamplingParams) :
    Triple (fun session : Session llama Client =>
        Calm session.impl.log ∧ Prompting session.impl.log)
      (generate config entropy prompt params onChunk) (fun _ session => Calm session.impl.log)
      (fun error session => Attributed
        (PromptFault llama config prompt ∨ GrammarFault llama params) error session.impl.log) := by
  obtain ⟨chain, Selecting, created, selects, selecting⟩ := documented.chain
  intro session holds
  cases passed : admission config entropy prompt params with
  | error error =>
      rw [generate, passed]
      obtain isFault | ⟨cause, rfl⟩ := fault_of_admission_error documented generative passed
      · exact .fault isFault holds.1
      · exact .foreign holds.1.1
  | ok admitted =>
      have sound : admitted.sampler.Sound Selecting :=
        sound_of_admission documented.nVocab_pos created (selecting _ _) passed
      rw [generate, passed]
      refine Triple.bind (onImpl_attributed _ (keepPrefix_calm _ admitted.tokens))
        (fun kept => ?_) session holds
      refine .bind (onImpl_attributed _ (decodePrompt_attributed _ config admitted.tokens kept))
        fun _ => ?_
      exact (respond_attributed _ foreign documented selects params sound kept).strengthen
        fun _ => And.left

end Generation

section Embedding

/-- The exception is no `EngineError` and no `ChatFormatError`. -/
def Exception.Unblaming (error : Exception) : Prop :=
  (∃ cause, error = .runtime cause) ∨ error.Foreign

/-- One input is decoded, or what is thrown blames nobody. -/
theorem pool_calm (tokens : List Token) :
    Triple (fun impl : Impl llama => Calm impl.log) (pool tokens) (fun _ impl => Calm impl.log)
      (fun error _ => error.Unblaming) := by
  intro impl calm
  match answer : llama.decode (record .cleared (withContext impl.context.host {} impl)).context.host
      (record .cleared (withContext impl.context.host {} impl)).context.memory tokens with
  | (.done evicted logits, host) =>
      simp only [pool, bind_apply, modify_apply, get_apply, answer]
      cases llama.embeddingsSeq host with
      | none => exact .inl ⟨_, rfl⟩
      | some pooled => exact (calm.snoc id).snoc id
  | (.code ret nonzero leftover, host) =>
      simp only [pool, bind_apply, modify_apply, get_apply, answer]
      exact .inl ⟨_, rfl⟩
  | (.threw error leftover, host) =>
      simp only [pool, bind_apply, modify_apply, get_apply, answer]
      exact .inr ⟨_, rfl⟩

variable {keepGoing : KeepGoing Client}

/-- The inputs are decoded, or what is thrown blames nobody. -/
theorem embedInputs_calm
    (asks : ∀ ask ∈ keepGoing, Triple (fun _ => True) ask (fun _ _ => True)
      (fun error _ => error.Foreign))
    (tokenized : List (List Token)) (result : EmbedResult llama.Logit) :
    Triple (fun session : Session llama Client => Calm session.impl.log)
      (embedInputs keepGoing tokenized result) (fun _ session => Calm session.impl.log)
      (fun error _ => error.Unblaming) := by
  have asking : Triple (fun session : Session llama Client => Calm session.impl.log)
      (goOn keepGoing) (fun _ session => Calm session.impl.log)
      (fun error _ => error.Unblaming) := by
    cases keepGoing with
    | none => exact fun _ => id
    | some ask =>
        intro session calm
        have met := asks ask rfl session.receiver.client trivial
        change Meets _ _ (onClient ask session)
        rw [onClient_apply]
        match ran : ask session.receiver.client with
        | (.ok answer, client) => exact calm
        | (.error error, client) =>
            rw [ran] at met
            exact .inr met
  have pooling : ∀ tokens, Triple (fun session : Session llama Client => Calm session.impl.log)
      (onImpl (pool tokens)) (fun _ session => Calm session.impl.log)
      (fun error _ => error.Unblaming) := by
    refine fun tokens => .zoom fun session calm => ?_
    exact (pool_calm tokens session.impl calm).imp (fun _ _ _ => id) fun _ _ _ => id
  induction tokenized generalizing result with
  | nil => exact .pure fun _ => id
  | cons tokens rest inductionHypothesis =>
      refine .bind asking fun going => ?_
      split
      · exact .bind (pooling tokens) fun embedding => inductionHypothesis _
      · exact .pure fun _ => id

end Embedding

end Llamad
