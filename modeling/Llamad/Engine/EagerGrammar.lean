import Llamad.Engine.GreedySampling
import Llamad.Engine.SampleFreshness
import Llamad.Engine.TopK
import Llamad.Logical.Guided

/-!
# Replies under an eager grammar

The grammar sampler is kept outside the chain and asked only about the token the chain
chose, but every token is accepted into it before anything else happens with that token.
So the prefill and the tokens of a generation are guided by the grammar's language from
the first to the last, however each of them was chosen.
-/

namespace Llamad

open Logical Semantics Program Session Impl

/-- How a vocabulary spells texts in the symbols of a grammar. -/
def Llama.spelling (llama : Llama) {Symbol : Type} (piece : Token → List Symbol) :
    Spelling Token Symbol :=
  { piece := piece, ends := llama.isEog }

/-- Documented behaviour of eager grammar samplers. `sentences` gives the language of a
grammar's text, and `Reads` says that a sampler of a language has accepted a text: it masks
exactly the tokens without a continuation there, and throws when it is to accept one. -/
structure Llama.Constrains (llama : Llama) {Symbol : Type} (piece : Token → List Symbol)
    (allows : llama.Grammar → Token → Bool) (sentences : Bytes → Language Symbol)
    (Reads : llama.Grammar → Language Symbol → List Symbol → Prop) : Prop where
  masks : llama.Masks allows
  init : ∀ {text state}, llama.grammarInit text (literal "root") = some state →
    Reads state (sentences text) []
  exactly : ∀ {state language text}, Reads state language text → ∀ token,
    allows state token = true ↔ (llama.spelling piece).Allows language text token
  accepts : ∀ {state language text token}, Reads state language text →
    allows state token = true → ∃ next, llama.grammarAccept state token = .ok next ∧
      Reads next language (text ++ (llama.spelling piece).adds token)
  throws : ∀ {state language text token}, Reads state language text →
    allows state token = false → ∃ error, llama.grammarAccept state token = .error error

variable {llama : Llama} {Client Symbol : Type} {piece : Token → List Symbol}
  {allows : llama.Grammar → Token → Bool} {sentences : Bytes → Language Symbol}
  {Reads : llama.Grammar → Language Symbol → List Symbol → Prop} {language : Language Symbol}
  {tokens : List Token} {state next : llama.Grammar}

section Sampler

variable (piece Reads language) in
/-- A grammar sampler was asked about each of these tokens and accepted it. -/
structure Follows (tokens : List Token) (state : llama.Grammar) : Prop where
  reads : Reads state language ((llama.spelling piece).text tokens)
  guided : (llama.spelling piece).Guided language tokens

variable (constrains : llama.Constrains piece allows sentences Reads)
include constrains

/-- A grammar sampler accepts nothing it does not allow. -/
theorem Follows.accept (follows : Follows piece Reads language tokens state) {token : Token}
    (accepted : llama.grammarAccept state token = .ok next) :
    Follows piece Reads language (tokens ++ [token]) next := by
  cases permitted : allows state token with
  | false =>
      obtain ⟨error, threw⟩ := constrains.throws follows.reads permitted
      rw [threw] at accepted
      cases accepted
  | true =>
      obtain ⟨advanced, same, reads⟩ := constrains.accepts follows.reads permitted
      rw [same] at accepted
      cases accepted
      refine ⟨?_, follows.guided.snoc ((constrains.exactly follows.reads token).mp permitted)⟩
      rwa [Spelling.text_append, Spelling.text_singleton]

/-- What is accepted token by token is followed token by token. -/
theorem Follows.foldlM {more : List Token} (follows : Follows piece Reads language tokens state)
    (accepted : more.foldlM llama.grammarAccept state = .ok next) :
    Follows piece Reads language (tokens ++ more) next := by
  induction more generalizing tokens state with
  | nil =>
      cases accepted
      rwa [List.append_nil]
  | cons token more inductionHypothesis =>
      rw [List.foldlM_cons] at accepted
      obtain ⟨middle, first, rest⟩ := except_bind_eq_ok_iff.mp accepted
      rw [List.append_cons]
      exact inductionHypothesis (follows.accept constrains first) rest

namespace SamplerChain

/-- The grammar of an eager request starts out having accepted the prefill. -/
theorem follows_of_addGrammar {grammar : GrammarSpec} {resolved : ResolvedTokens}
    (eager : grammar.lazy = false) (added : addGrammar llama grammar resolved = .ok state) :
    Follows piece Reads (sentences (cString grammar.grammar)) resolved.prefill state := by
  rw [addGrammar, parseGrammar, eager] at added
  cases parsed : llama.grammarInit (cString grammar.grammar) (literal "root") with
  | none =>
      simp only [parsed, Bool.false_eq_true, if_false] at added
      cases added
  | some initial =>
      simp only [parsed, Bool.false_eq_true, if_false] at added
      have start : Follows piece Reads (sentences (cString grammar.grammar)) [] initial :=
        ⟨constrains.init parsed, Throughout.nil⟩
      cases consumed : resolved.prefill.foldlM llama.grammarAccept initial with
      | ok advanced =>
          rw [consumed] at added
          cases added
          exact start.foldlM constrains consumed
      | error error =>
          rw [consumed] at added
          cases error <;> cases added

omit constrains in
theorem settle_eq_ok {token last : Token} {chosen after : SamplerChain llama}
    (settled : settle state token chosen = .ok (last, after)) :
    ∃ advanced, llama.grammarAccept state last = .ok advanced ∧ after.grammar = some advanced := by
  rw [settle] at settled
  cases accepted : llama.grammarAccept state token with
  | error error =>
      rw [accepted] at settled
      cases settled
  | ok advanced =>
      rw [accepted] at settled
      cases settled
      exact ⟨advanced, accepted, rfl⟩

omit constrains in
/-- Whichever way a token was chosen, it is accepted into the grammar. -/
theorem sample_accepts {sampler after : SamplerChain llama} {logits : Token → llama.Logit}
    {token : Token} (kept : sampler.grammar = some state)
    (sampled : sampler.sample logits = .ok (token, after)) :
    ∃ advanced, llama.grammarAccept state token = .ok advanced ∧
      after.grammar = some advanced := by
  rw [sample_of_grammar kept] at sampled
  obtain ⟨⟨first, chosen⟩, _, sampled⟩ := except_bind_eq_ok_iff.mp sampled
  dsimp only at sampled
  split at sampled
  · obtain ⟨⟨second, redrawn⟩, _, sampled⟩ := except_bind_eq_ok_iff.mp sampled
    exact settle_eq_ok sampled
  · exact settle_eq_ok sampled

/-- A built sampler has a grammar that has accepted the prefill, when the request has one. -/
theorem follows_of_build {entropy : llama.Entropy} {params : SamplingParams}
    {resolved : ResolvedTokens} {sampler : SamplerChain llama}
    (given : params.grammar.grammar ≠ []) (eager : params.grammar.lazy = false)
    (built : build llama entropy params resolved = .ok sampler) :
    ∃ state, sampler.grammar = some state ∧
      Follows piece Reads (sentences (cString params.grammar.grammar)) resolved.prefill state := by
  have constrained : ¬ params.grammar.grammar.isEmpty = true := by rwa [List.isEmpty_iff]
  rw [build] at built
  split at built
  · cases built
  rw [if_neg constrained] at built
  obtain ⟨grammar, added, built⟩ := except_bind_eq_ok_iff.mp built
  cases accepted : addGrammar llama params.grammar resolved with
  | error error =>
      rw [accepted] at added
      cases added
  | ok state =>
      rw [accepted] at added
      cases added
      cases built
      exact ⟨state, rfl, follows_of_addGrammar constrains eager accepted⟩

end SamplerChain

end Sampler

section Run

variable (llama) in
/-- The tokens a generation renders for its stream filter: all it samples but the one that
ends it. -/
def rendered (log : List (Entry llama)) : List Token :=
  (drawn log).filter fun token => !llama.isEog token

variable (piece Reads language) (prefill : List Token) in
/-- The grammar of the sampler has accepted the prefill and every token sampled so far. -/
def Impl.Constrained (sampler : SamplerChain llama) (impl : Impl llama) : Prop :=
  ∃ state, sampler.grammar = some state ∧
    Follows piece Reads language (prefill ++ drawn impl.log) state

variable (piece language) (prefill : List Token) in
/-- The prefill and the tokens sampled are guided by the language. -/
def Impl.Guided (impl : Impl llama) : Prop :=
  (llama.spelling piece).Guided language (prefill ++ drawn impl.log)

variable (piece language) (prefill : List Token) in
/-- A generation that ended for this reason was guided, to a sentence if it ended itself. -/
structure Impl.EndsGuided (reason : FinishReason) (impl : Impl llama) : Prop where
  guided : impl.Guided piece language prefill
  complete : reason = .eog →
    (llama.spelling piece).text (prefill ++ drawn impl.log) ∈ language

variable {config : EngineConfig} {params : SamplingParams} {resolved : ResolvedTokens}
  {onChunk : ChunkCallback Client} {prefill : List Token}

/-- The loop ends itself only with a token that ends the text. -/
theorem ended_reason {locals : Locals llama} {status : StreamFilter.Status}
    {ending : Ending llama} (finishes : ended params locals status = some ending) :
    ending.reason ≠ .eog := by
  cases status with
  | stopped =>
      cases finishes
      exact nofun
  | cancelled =>
      cases finishes
      exact nofun
  | «continue» =>
      rw [ended] at finishes
      split at finishes
      · cases finishes
        exact nofun
      · cases finishes

variable (constrains : llama.Constrains piece allows sentences Reads)
include constrains

/-- A token sampled is one more token accepted. -/
theorem Impl.Constrained.sampled {locals : Locals llama} {session : Session llama Client}
    (constrained : session.impl.Constrained piece Reads language prefill locals.sampler)
    {token : Token} {sampler : SamplerChain llama}
    (samples : Samples params locals session token sampler) :
    (session.impl.sampled token).Constrained piece Reads language prefill sampler := by
  obtain ⟨state, kept, follows⟩ := constrained
  obtain ⟨advanced, accepted, keeps⟩ := SamplerChain.sample_accepts kept samples.drew
  refine ⟨advanced, keeps, ?_⟩
  rw [drawn_sampled, ← List.append_assoc]
  exact follows.accept constrains accepted

/-- A round samples at most one token, and one its grammar accepted. -/
theorem generationRound_guided (locals : Locals llama) :
    Triple (fun session => session.impl.Constrained piece Reads language prefill locals.sampler)
      (generationRound config params resolved onChunk locals)
      (fun result after => Sum.elim
        (fun next => after.impl.Constrained piece Reads language prefill next.sampler)
        (fun ending => after.impl.EndsGuided piece language prefill ending.reason) result)
      (fun _ after => after.impl.Guided piece language prefill) := by
  intro session constrained
  have here : session.impl.Guided piece language prefill := constrained.choose_spec.2.guided
  have after {token : Token} {sampler : SamplerChain llama}
      (samples : Samples params locals session token sampler) :
      (session.impl.sampled token).Guided piece language prefill :=
    (constrained.sampled constrains samples).choose_spec.2.guided
  have outcome := generationRound_outcome config params resolved onChunk locals session
  generalize generationRound config params resolved onChunk locals session = result at outcome ⊢
  cases outcome with
  | spent _ => exact ⟨here, nofun⟩
  | unsampled _ _ => exact here
  | @eog token _ samples finished =>
      refine ⟨after samples, fun _ => ?_⟩
      have guided := after samples
      simp only [Impl.Guided, drawn_sampled, ← List.append_assoc] at guided ⊢
      exact guided.complete finished
  | unrendered samples _ _ => exact after samples
  | undelivered samples _ _ _ => exact after samples
  | ends pushes finishes =>
      exact ⟨after pushes.toSamples, fun same => absurd same (ended_reason finishes)⟩
  | full goesOn _ => exact ⟨after goesOn.toSamples, nofun⟩
  | decoded goesOn _ _ =>
      obtain ⟨state, keeps, follows⟩ := constrained.sampled constrains goesOn.toSamples
      exact ⟨state, keeps, by rwa [drawn_extended]⟩
  | noSlot goesOn _ _ _ =>
      refine ⟨?_, nofun⟩
      rw [Impl.Guided, drawn_decoded, drawn_emptied]
      exact after goesOn.toSamples
  | failed goesOn _ _ _ =>
      rw [meets_error, Impl.Guided, drawn_decoded, drawn_emptied]
      exact after goesOn.toSamples
  | threw goesOn _ _ =>
      rw [meets_error, Impl.Guided, drawn_decoded, drawn_emptied]
      exact after goesOn.toSamples

/-- What every round keeps to, the whole loop does. -/
theorem generation_guided (locals : Locals llama) :
    Triple (fun session => session.impl.Constrained piece Reads language prefill locals.sampler)
      (generation config params resolved onChunk locals)
      (fun ending after => after.impl.EndsGuided piece language prefill ending.reason)
      (fun _ after => after.impl.Guided piece language prefill) :=
  Triple.loop (generationRound_guided constrains) locals

/-- Everything behind the prompt is guided by the grammar of the sampler. -/
theorem respond_guided (admitted : Admitted llama) (kept : Nat) :
    Triple (fun session => session.impl.Constrained piece Reads language prefill admitted.sampler)
      (respond config params onChunk admitted kept)
      (fun result after => after.impl.EndsGuided piece language prefill result.reason)
      (fun _ after => after.impl.Guided piece language prefill) := by
  refine .bind (generation_guided constrains
    { sampler := admitted.sampler, filter := { stops := params.stop }, completionTokens := 0 })
    fun ending => ?_
  have flushing : Triple
      (fun session : Session llama Client =>
        session.impl.EndsGuided piece language prefill ending.reason)
      (flushEnding onChunk ending)
      (fun _ after => after.impl.EndsGuided piece language prefill ending.reason)
      (fun _ after => after.impl.Guided piece language prefill) :=
    (flushEnding_preserves (Impl.EndsGuided piece language prefill ending.reason)
      onChunk ending).consequence (fun _ _ ends => ends) fun _ _ ends => ends.guided
  exact .bind flushing fun _ => .pure fun _ ends => ends

/-- A generation with an eager grammar that accepted its prefill is guided by the grammar. -/
theorem generate_guided (entropy : llama.Entropy) (prompt : Bytes)
    (onChunk : ChunkCallback Client) (given : params.grammar.grammar ≠ [])
    (eager : params.grammar.lazy = false)
    (resolves : resolve llama params = .ok resolved)
    (accepted : SamplerChain.addGrammar llama params.grammar resolved = .ok state) :
    Triple (fun session : Session llama Client => drawn session.impl.log = [])
      (generate config entropy prompt params onChunk)
      (fun result after => after.impl.EndsGuided piece
        (sentences (SamplerChain.cString params.grammar.grammar)) resolved.prefill result.reason)
      (fun _ after => after.impl.Guided piece
        (sentences (SamplerChain.cString params.grammar.grammar)) resolved.prefill) := by
  let language := sentences (SamplerChain.cString params.grammar.grammar)
  have start : Follows piece Reads language resolved.prefill state :=
    SamplerChain.follows_of_addGrammar constrains eager accepted
  have guided (session : Session llama Client) (unsampled : drawn session.impl.log = []) :
      session.impl.Guided piece language resolved.prefill := by
    rw [Impl.Guided, unsampled, List.append_nil]
    exact start.guided
  let admits (admitted : Admitted llama) (session : Session llama Client) : Prop :=
    drawn session.impl.log = [] ∧ ∃ state, admitted.sampler.grammar = some state ∧
      Follows piece Reads language resolved.prefill state
  have admitting : Triple (fun session : Session llama Client => drawn session.impl.log = [])
      (attempt (admission config entropy prompt params)) admits
      (fun _ after => after.impl.Guided piece language resolved.prefill) := by
    refine .attempt (fun session admitted unsampled passed => ⟨unsampled, ?_⟩)
      fun session _ unsampled _ => guided session unsampled
    obtain ⟨looked, built⟩ := admission_built passed
    rw [resolves] at looked
    cases looked
    exact SamplerChain.follows_of_build constrains given eager built
  refine .bind admitting fun admitted => ?_
  have prompts {Value : Type} {program : Program (Impl llama) Exception Value}
      (undrawn : Preserves (fun impl => drawn impl.log = []) program) :
      Triple (admits admitted) (onImpl program) (fun _ => admits admitted)
        (fun _ after => after.impl.Guided piece language resolved.prefill) := by
    refine .zoom fun session ⟨unsampled, follows⟩ => ?_
    exact (undrawn session.impl unsampled).imp (fun _ _ _ still => ⟨still, follows⟩)
      fun _ _ _ still => guided _ still
  refine .bind (prompts (keepPrefix_drawn _ [])) fun kept => ?_
  refine .bind (prompts (decodePrompt_drawn config _ [] kept)) fun _ => ?_
  refine (respond_guided constrains admitted kept).strengthen ?_
  rintro session ⟨unsampled, state, keeps, follows⟩
  exact ⟨state, keeps, by rwa [unsampled, List.append_nil]⟩

/-- However a request under an eager grammar goes and whatever logits it meets, the prefill and
the tokens handed to the stream filter are always the beginning of a sentence, no token was
sampled that the grammar did not allow there, and a generation that ended itself spelled a
whole sentence. -/
theorem serve_guided (request : Request llama Client)
    (given : request.params.grammar.grammar ≠ []) (eager : request.params.grammar.lazy = false)
    (resolves : resolve llama request.params = .ok resolved)
    (accepted : SamplerChain.addGrammar llama request.params.grammar resolved = .ok state)
    (impl : Impl llama) :
    let log := (serve config request impl).2.impl.log
    let spelling := llama.spelling piece
    let language := sentences (SamplerChain.cString request.params.grammar.grammar)
    (∀ front, front <+: rendered llama log → resolved.prefill ++ front ≠ [] →
        Begins language (spelling.text (resolved.prefill ++ front))) ∧
      (∀ before token after, drawn log = before ++ token :: after →
        spelling.Allows language (spelling.text (resolved.prefill ++ before)) token) ∧
      ∀ result, (serve config request impl).1 = .ok result → result.reason = .eog →
        spelling.text (resolved.prefill ++ rendered llama log) ∈ language := by
  intro log spelling language
  have met := @generate_guided _ _ _ _ _ _ _ _ config _ _ constrains request.entropy
    request.prompt request.onChunk given eager resolves accepted
    ⟨{ impl with log := [] }, ⟨request.client, []⟩⟩ rfl
  change Meets _ _ (serve config request impl) at met
  have guided : spelling.Guided language (resolved.prefill ++ drawn log) :=
    (met.imp (fun _ _ _ ends => ends.guided) fun _ _ _ guided => guided).final
  refine ⟨fun front part nonempty => ?_, fun before token after same => ?_,
    fun result returned finished => ?_⟩
  · obtain ⟨cut, inside, rfl⟩ := List.prefix_filter_iff.mp part
    have spelled : spelling.text (cut.filter fun token => !llama.isEog token) = spelling.text cut :=
      Spelling.text_filter cut
    rw [Spelling.text_append, spelled, ← Spelling.text_append]
    refine guided.begins ((List.prefix_append_right_inj _).mpr inside) fun empty => nonempty ?_
    obtain ⟨nothing, none⟩ := List.append_eq_nil_iff.mp empty
    rw [nothing, none]
    rfl
  · exact guided (resolved.prefill ++ before) token after (by rw [same, List.append_assoc])
  · have spelled : spelling.text (rendered llama log) = spelling.text (drawn log) :=
      Spelling.text_filter (drawn log)
    rw [Spelling.text_append, spelled, ← Spelling.text_append]
    exact (met.returned returned).complete finished

end Run

section Pair

/-- What is left of a sentence goes on with the token. -/
def continues (left : Bytes) (token : Token) : Bool :=
  if token = 256 then left.isEmpty else token < 256 && left.head? == some (UInt8.ofNat token)

/-- A backend over single bytes that prefers `z`, with one grammar of one sentence; its sampler
holds what is left of that. -/
def Llama.pair : Llama :=
  { Llama.bytes fun _ => 122 with
    Grammar := Bytes
    grammarInit := fun grammar _ =>
      if grammar = literal "root ::= [a][b]" then some (literal "ab") else none
    grammarInitLazyPatterns := fun _ _ _ _ => none
    grammarApply := fun left array =>
      { array with data := array.data.map fun candidate =>
          if continues left candidate.id then candidate
          else { candidate with logit := (-1 : Int) } }
    grammarAccept := fun left token =>
      if continues left token then .ok (if token = 256 then left else left.tail)
      else .error (.standard (literal "Unexpected empty grammar stack")) }

/-- The byte a token stands for. -/
def bytePiece (token : Token) : Bytes := if token < 256 then [UInt8.ofNat token] else []

theorem continues_iff {left text : Bytes} (token : Token) :
    continues left token = true ↔
      (Llama.pair.spelling bytePiece).Allows {text ++ left} text token := by
  change continues left token = true ↔ if decide (token = 256) = true
    then text = text ++ left
    else bytePiece token ≠ [] ∧ ∃ rest, text ++ bytePiece token ++ rest = text ++ left
  by_cases eog : token = 256
  · simp [continues, eog]
  by_cases byte : token < 256
  · have here : left.head? = some (UInt8.ofNat token) ↔ ∃ rest, UInt8.ofNat token :: rest = left := by
      rw [List.head?_eq_some_iff]
      exact exists_congr fun rest => eq_comm
    simpa [continues, eog, byte, bytePiece] using here
  · simp [continues, eog, byte, bytePiece]

/-- The text grows by what is taken from the rest of the sentence. -/
theorem continues_accept {left text : Bytes} {token : Token}
    (permitted : continues left token = true) :
    text ++ (Llama.pair.spelling bytePiece).adds token ++
      (if token = 256 then left else left.tail) = text ++ left := by
  rw [List.append_assoc]
  change text ++ ((if decide (token = 256) = true then [] else bytePiece token) ++ _) = _
  by_cases eog : token = 256
  · simp [eog]
  simp only [continues, eog, if_false, Bool.and_eq_true, decide_eq_true_eq, beq_iff_eq,
    List.head?_eq_some_iff] at permitted
  obtain ⟨byte, rest, rfl⟩ := permitted
  simp [eog, byte, bytePiece]

theorem Llama.pair_constrains :
    Llama.pair.Constrains bytePiece continues (fun _ => {literal "ab"})
      fun (left : Bytes) language text =>
        language = {literal "ab"} ∧ text ++ left = literal "ab" where
  masks _ _ := rfl
  init parsed := by
    refine ⟨rfl, ?_⟩
    simp only [Llama.pair] at parsed
    split at parsed
    · cases parsed
      rfl
    · cases parsed
  exactly reads token := by
    obtain ⟨rfl, whole⟩ := reads
    rw [← whole]
    exact continues_iff token
  accepts reads permitted := by
    obtain ⟨rfl, whole⟩ := reads
    exact ⟨_, if_pos permitted, rfl, (continues_accept permitted).trans whole⟩
  throws _ refused := ⟨_, if_neg (by simp [refused])⟩

/-- After the prefill `a` a request that is not cut short is answered with the other letter of
the only sentence, although `z` is always the most likely. -/
theorem serve_guided_pair :
    let config : EngineConfig := ⟨16, 4, false, 0, by decide, by decide⟩
    let grammar : GrammarSpec := { grammar := literal "root ::= [a][b]", prefill := literal "a" }
    let request : Request Llama.pair Unit :=
      ⟨(), literal "x", { temperature := 0, grammar := grammar }, none, ()⟩
    let served := serve config request (Impl.fresh () fun _ => Llama.pair.zero)
    ∀ result, served.1 = .ok result → result.reason = .eog →
      (Llama.pair.spelling bytePiece).text (97 :: rendered Llama.pair served.2.impl.log) =
        literal "ab" := by
  intro config grammar request served
  have resolves : resolve Llama.pair request.params = .ok { prefill := [97] } := rfl
  have accepted : SamplerChain.addGrammar Llama.pair grammar { prefill := [97] } =
      .ok (literal "b") := rfl
  exact (serve_guided Llama.pair_constrains request (by decide) rfl resolves accepted _).2.2

end Pair

section Possible

/-- Chains of this kind select a candidate with a logit above minus infinity whenever there
is one. -/
structure Llama.SelectsPossible (llama : Llama) [LinearOrder llama.Logit]
    (Selecting : llama.Chain → Prop) : Prop where
  apply : ∀ chain array, Selecting chain →
    (∃ item ∈ array.data, llama.negInfinity < item.logit) →
      Selecting (llama.chainApply chain array).2 ∧
      0 ≤ (llama.chainApply chain array).1.selected ∧
      ∃ item ∈ array.data, llama.negInfinity < item.logit ∧
        ((llama.chainApply chain array).1.data[
          (llama.chainApply chain array).1.selected.toNat]?).map Candidate.id = some item.id

namespace SamplerChain

variable [LinearOrder llama.Logit] {Selecting : llama.Chain → Prop}
  (selects : llama.SelectsPossible Selecting) {sampler : SamplerChain llama}
  {logits : Token → llama.Logit}
include selects

/-- A token with a logit above minus infinity is chosen when there is one. -/
theorem choose_possible (selecting : Selecting sampler.chain) {count : Nat}
    {behind : Option llama.Grammar}
    (possible : ∃ item ∈ (fed logits count behind).data, llama.negInfinity < item.logit) :
    ∃ item ∈ (fed logits count behind).data, llama.negInfinity < item.logit ∧
      ∃ chosen, sampler.choose logits count behind = .ok (item.id, chosen) ∧
        Selecting chosen.chain := by
  obtain ⟨stays, selected, item, member, above, found⟩ :=
    selects.apply sampler.chain (fed logits count behind) selecting possible
  obtain ⟨candidate, here, same⟩ := Option.map_eq_some_iff.mp found
  exact ⟨item, member, above, _, same ▸ choose_of_selected selected here, stays⟩

variable (ranked : llama.Ranked) (sorts : llama.PartiallySorts)
include ranked sorts

omit selects in
/-- However few candidates are kept, one with a logit above minus infinity is among them when
the vocabulary has one. -/
theorem exists_candidate {count token : Nat} (positive : 0 < count) (inside : token < llama.nVocab)
    (fewer : count ≤ llama.nVocab) (above : llama.negInfinity < logits token) :
    ∃ item ∈ (candidates logits count).data, llama.negInfinity < item.logit := by
  have member : ⟨token, logits token, llama.zero⟩ ∈ vocabulary logits :=
    List.mem_of_getElem? (getElem?_vocabulary.mpr ⟨inside, rfl⟩)
  obtain whole | short := Nat.eq_or_lt_of_le fewer
  · rw [whole, candidates_whole]
    exact ⟨_, member, above⟩
  · obtain ⟨isTop, _⟩ := isTop_candidates ranked sorts logits positive short
    obtain ⟨rest, permuted, below⟩ := isTop.greatest
    obtain here | behind := List.mem_append.mp (permuted.mem_iff.mp member)
    · exact ⟨_, here, above⟩
    · have length := isTop.length
      rw [length_vocabulary, Nat.min_eq_left fewer] at length
      obtain ⟨item, kept⟩ := List.exists_mem_of_length_pos (length ▸ positive)
      exact ⟨item, kept, above.trans_le (below item kept _ behind)⟩

/-- Sampling finds an allowed token when one has a logit above minus infinity, even if the
grammar refuses everything the chain alone would have chosen. -/
theorem sample_possible {text : List Symbol} {token : Nat}
    (constrains : llama.Constrains piece allows sentences Reads)
    (selecting : Selecting sampler.chain) (positive : 0 < sampler.nSelectable)
    (fewer : sampler.nSelectable ≤ llama.nVocab) (kept : sampler.grammar = some state)
    (reads : Reads state language text) (inside : token < llama.nVocab)
    (allowed : (llama.spelling piece).Allows language text token)
    (above : llama.negInfinity < logits token) :
    ∃ token after, sampler.sample logits = .ok (token, after) ∧
      (llama.spelling piece).Allows language text token := by
  have settles {last : Token} (chosen : SamplerChain llama)
      (permitted : allows state last = true) :
      ∃ after, settle state last chosen = .ok (last, after) := by
    obtain ⟨advanced, accepted, _⟩ := constrains.accepts reads permitted
    rw [settle, accepted]
    exact ⟨_, rfl⟩
  have finite : ∃ item ∈ (fed logits sampler.nSelectable none).data,
      llama.negInfinity < item.logit := exists_candidate ranked sorts positive inside fewer above
  obtain ⟨first, _, _, chosen, chose, stays⟩ := choose_possible selects selecting finite
  rw [sample_of_grammar kept, chose]
  simp only [bind, Except.bind, refuses_eq ranked constrains.masks]
  cases permitted : allows state first.id with
  | true =>
      obtain ⟨after, settled⟩ := settles chosen permitted
      exact ⟨first.id, after, settled, (constrains.exactly reads _).mp permitted⟩
  | false =>
      have unmasked : ⟨token, logits token, llama.zero⟩ ∈
          (fed logits llama.nVocab (some state)).data := by
        rw [fed_whole constrains.masks]
        refine List.mem_of_getElem? (getElem?_vocabulary.mpr ⟨inside, ?_⟩)
        rw [masked, SamplerChain.allowed, Option.all_some,
          if_pos ((constrains.exactly reads token).mpr allowed)]
      obtain ⟨second, member, finite, redrawn, rechose, _⟩ :=
        choose_possible selects stays ⟨_, unmasked, above⟩
      have own : allows state second.id = true := by
        rw [fed_whole constrains.masks] at member
        by_contra refused
        rw [logit_of_mem_vocabulary member, masked, SamplerChain.allowed, Option.all_some,
          if_neg refused] at finite
        exact lt_irrefl _ finite
      obtain ⟨after, settled⟩ := settles redrawn own
      refine ⟨second.id, after, ?_, (constrains.exactly reads _).mp own⟩
      simp only [Bool.not_false, if_true, rechose]
      exact settled

end SamplerChain

end Possible

end Llamad
