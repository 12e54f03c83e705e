import Llamad.Engine.Candidates
import Llamad.Engine.Embed
import Mathlib.Data.List.MinMax

/-!
# What a request can be blamed for

The faults of a request that keep the engine from starting on it, and the proof that
nothing else does as long as llama.cpp behaves as documented where its failure would be
its own (`Llama.Documented`).
-/

namespace Llamad

open Logical Semantics Program

/-- A chain of this kind selects one of the candidates it is given, and stays one. -/
structure Llama.Selects (llama : Llama) (Selecting : llama.Chain → Prop) : Prop where
  apply : ∀ chain array, Selecting chain → array.data ≠ [] →
    Selecting (llama.chainApply chain array).2 ∧
    0 ≤ (llama.chainApply chain array).1.selected ∧
    (llama.chainApply chain array).1.selected.toNat <
      (llama.chainApply chain array).1.data.length
  accept : ∀ chain token, Selecting chain → Selecting (llama.chainAccept chain token)

/-- Documented behaviour of the llama.cpp calls whose failure no request causes. -/
structure Llama.Documented (llama : Llama) : Prop where
  nVocab_pos : 0 < llama.nVocab
  /-- A second call has the room the first one asked for. -/
  tokenizeAgain : ∀ text capacity addSpecial parseSpecial,
    (llama.tokenize text capacity addSpecial parseSpecial).1 ≠ int32Min →
    (llama.tokenize text capacity addSpecial parseSpecial).1 < 0 →
    0 ≤ (llama.tokenize text (-(llama.tokenize text capacity addSpecial parseSpecial).1).toNat
      addSpecial parseSpecial).1
  /-- A second call has the room the first one asked for. -/
  pieceAgain : ∀ token capacity special, (llama.tokenToPiece token capacity special).1 < 0 →
    0 ≤ (llama.tokenToPiece token (-(llama.tokenToPiece token capacity special).1).toNat special).1
  /-- A chain that ends in a greedy or a random sampler selects a candidate. -/
  chain : ∃ (chain : llama.Chain) (Selecting : llama.Chain → Prop),
    llama.chainInit = some chain ∧ llama.Selects Selecting ∧
    ∀ entropy params,
      Selecting ((SamplerChain.stages params).foldl (llama.chainAdd entropy) chain)
  /-- Masking a candidate does not remove it. -/
  grammarApply : ∀ grammar array,
    (llama.grammarApply grammar array).data.length = array.data.length
  /-- `std::ranges::partial_sort_copy` fills what there is room for. -/
  partialSortCopy : ∀ data count,
    (llama.partialSortCopy data count).length = min count data.length

/-- The backend over single bytes behaves as documented. -/
theorem Llama.bytes_documented (next : List Token → Token) : (Llama.bytes next).Documented where
  nVocab_pos := Nat.succ_pos 256
  tokenizeAgain text capacity addSpecial parseSpecial _ negative := by
    simp only [Llama.bytes] at negative ⊢
    split at negative
    · omega
    · rename_i short
      simp [short]
  pieceAgain token capacity special negative := by
    simp only [Llama.bytes] at negative
    split at negative <;> omega
  chain := by
    refine ⟨(), fun _ => True, rfl, ⟨fun chain array _ nonempty => ?_, fun _ _ => id⟩,
      fun _ _ => trivial⟩
    refine ⟨trivial, Int.natCast_nonneg _, ?_⟩
    obtain ⟨best, isBest⟩ := Option.ne_none_iff_exists'.mp
      (mt List.argmax_eq_none.mp nonempty :
        array.data.argmax (fun candidate => (candidate.logit : Int)) ≠ none)
    apply List.findIdx_lt_length_of_exists
    refine ⟨best, List.argmax_mem isBest, ?_⟩
    simp only [List.all_eq_true, decide_eq_true_eq]
    exact fun other member => List.le_of_mem_argmax member isBest
  grammarApply _ _ := rfl
  partialSortCopy _ count := List.length_take.trans (congrArg (min count) (List.length_mergeSort _))

variable (llama : Llama)

/-- A text has more tokens than an `int32_t` counts. -/
def Overflows (text : Bytes) (addSpecial parseSpecial : Bool) : Prop :=
  (llama.tokenize text (text.length + 8) addSpecial parseSpecial).1 = int32Min

/-- A prompt that tokenizes to nothing or does not fit. -/
inductive PromptFault (config : EngineConfig) (prompt : Bytes) : Prop where
  | overflows (count : Overflows llama prompt true true)
  | empty (tokenized : tokenize llama prompt true true = .ok [])
  | tooLong {tokens : List Token} (tokenized : tokenize llama prompt true true = .ok tokens)
      (long : config.nCtxSeq ≤ tokens.length)

/-- An input that tokenizes to nothing or does not fit. -/
inductive InputFault (config : EngineConfig) (input : Bytes) : Prop where
  | overflows (count : Overflows llama input true true)
  | empty (tokenized : tokenize llama input true true = .ok [])
  | tooLong {tokens : List Token} (tokenized : tokenize llama input true true = .ok tokens)
      (long : config.maxEmbedTokens < tokens.length)

/-- The texts a grammar brings with it. -/
def grammarTexts (params : SamplingParams) : List Bytes :=
  params.preservedTokens ++
    if params.grammar.grammar = [] then [] else params.grammar.prefill :: params.grammar.triggerWords

/-- A grammar that cannot be used. -/
inductive GrammarFault (params : SamplingParams) : Prop where
  | overflows {text : Bytes} (member : text ∈ grammarTexts params)
      (count : Overflows llama text false true)
  | unparsable {resolved : ResolvedTokens} (present : params.grammar.grammar ≠ [])
      (found : resolve llama params = .ok resolved)
      (refused : SamplerChain.parseGrammar llama params.grammar resolved = none)
  | prefillRejected {resolved : ResolvedTokens} {parsed : llama.Grammar} {what : Bytes}
      (present : params.grammar.grammar ≠ []) (found : resolve llama params = .ok resolved)
      (accepted : SamplerChain.parseGrammar llama params.grammar resolved = some parsed)
      (rejected : resolved.prefill.foldlM llama.grammarAccept parsed = .error (.standard what))

/-- The exception comes from outside the repository. -/
def Exception.Foreign (error : Exception) : Prop := ∃ cause, error = .foreign cause

section Vocabulary

variable {llama} (documented : llama.Documented)
include documented

theorem overflows_of_tokenize_error {text : Bytes} {addSpecial parseSpecial : Bool}
    {error : Exception} (failed : tokenize llama text addSpecial parseSpecial = .error error) :
    Overflows llama text addSpecial parseSpecial := by
  by_contra fits
  have again := documented.tokenizeAgain text (text.length + 8) addSpecial parseSpecial fits
  simp only [tokenize, if_neg (show ¬ _ = int32Min from fits)] at failed
  split at failed
  · rename_i negative
    rw [if_neg (Int.not_lt.mpr (again negative))] at failed
    cases failed
  · cases failed

theorem exists_tokenToPiece (token : Token) (special : Bool) :
    ∃ piece, tokenToPiece llama token special = .ok piece := by
  simp only [tokenToPiece]
  split
  · exact ⟨_, rfl⟩
  · rename_i negative
    rw [if_neg (Int.not_lt.mpr (documented.pieceAgain token 256 special (Int.not_le.mp negative)))]
    exact ⟨_, rfl⟩

theorem overflows_of_resolvePreserved_error {texts : List Bytes} {error : Exception}
    (failed : resolvePreserved llama texts = .error error) :
    ∃ text ∈ texts, Overflows llama text false true := by
  obtain ⟨text, member, preserved, here⟩ := exists_of_foldlM_eq_error failed
  refine ⟨text, member, ?_⟩
  rw [except_bind_eq_error_iff] at here
  obtain here | ⟨ids, _, here⟩ := here
  · exact overflows_of_tokenize_error documented here
  · split at here <;> cases here

theorem overflows_of_resolveTriggers_error {preserved : List Token} {grammar : GrammarSpec}
    {error : Exception} (failed : resolveTriggers llama preserved grammar = .error error) :
    ∃ text ∈ grammar.triggerWords, Overflows llama text false true := by
  obtain ⟨text, member, found, here⟩ := exists_of_foldlM_eq_error failed
  refine ⟨text, member, ?_⟩
  rw [except_bind_eq_error_iff] at here
  obtain here | ⟨ids, _, here⟩ := here
  · exact overflows_of_tokenize_error documented here
  · split at here
    · split at here <;> cases here
    · cases here

theorem overflows_of_resolvePrefill_error {grammar : GrammarSpec} {error : Exception}
    (failed : resolvePrefill llama grammar = .error error) :
    grammar.grammar ≠ [] ∧ Overflows llama grammar.prefill false true := by
  rw [resolvePrefill] at failed
  split at failed
  · rename_i eager
    simp only [Bool.and_eq_true, Bool.not_eq_true', List.isEmpty_eq_false_iff] at eager
    refine ⟨eager.1.1, ?_⟩
    rw [except_bind_eq_error_iff] at failed
    obtain here | ⟨prefill, _, failed⟩ := failed
    · exact overflows_of_tokenize_error documented here
    · cases prefill with
      | nil =>
          simp only [pure_bind] at failed
          split at failed <;> cases failed
      | cons token rest =>
          obtain ⟨piece, found⟩ := exists_tokenToPiece documented token true
          rw [except_bind_eq_error_iff, found] at failed
          obtain ⟨⟨⟩⟩ | ⟨first, _, failed⟩ := failed
          dsimp only at failed
          split at failed <;> cases failed
  · cases failed

/-- The strings of a request are looked up unless one of them is too long to be counted. -/
theorem overflows_of_resolve_error {params : SamplingParams} {error : Exception}
    (failed : resolve llama params = .error error) :
    ∃ text ∈ grammarTexts params, Overflows llama text false true := by
  rw [resolve, except_bind_eq_error_iff] at failed
  obtain here | ⟨preserved, _, failed⟩ := failed
  · obtain ⟨text, member, overflows⟩ := overflows_of_resolvePreserved_error documented here
    exact ⟨text, by simp [grammarTexts, member], overflows⟩
  rw [except_bind_eq_error_iff] at failed
  obtain here | ⟨prefill, _, failed⟩ := failed
  · obtain ⟨present, overflows⟩ := overflows_of_resolvePrefill_error documented here
    exact ⟨params.grammar.prefill, by simp [grammarTexts, present], overflows⟩
  split at failed
  · cases failed
  rename_i triggered
  simp only [Bool.or_eq_true, List.isEmpty_iff, not_or] at triggered
  rw [except_bind_eq_error_iff] at failed
  obtain here | ⟨triggers, _, failed⟩ := failed
  · obtain ⟨text, member, overflows⟩ := overflows_of_resolveTriggers_error documented here
    exact ⟨text, by simp [grammarTexts, triggered.1, member], overflows⟩
  · cases failed

omit documented in
/-- There is nothing wrong with the grammar of a request that has none. -/
theorem not_grammarFault {params : SamplingParams} (absent : params.grammar.grammar = [])
    (none : params.preservedTokens = []) : ¬ GrammarFault llama params := by
  rintro (⟨member, _⟩ | ⟨present, _⟩ | ⟨present, _⟩)
  · simp [grammarTexts, absent, none] at member
  · exact present absent
  · exact present absent

end Vocabulary

section Admission

variable {llama} {config : EngineConfig} (documented : llama.Documented)
include documented

/-- A sampler is built unless the grammar cannot be used. -/
theorem fault_of_build_error {entropy : llama.Entropy} {params : SamplingParams}
    {resolved : ResolvedTokens} {error : Exception} (found : resolve llama params = .ok resolved)
    (failed : SamplerChain.build llama entropy params resolved = .error error) :
    GrammarFault llama params ∨ error.Foreign := by
  obtain ⟨chain, _, created, _, _⟩ := documented.chain
  rw [SamplerChain.build, created] at failed
  simp only [List.isEmpty_iff] at failed
  by_cases present : params.grammar.grammar = []
  · rw [if_pos present] at failed
    cases failed
  rw [if_neg present, SamplerChain.addGrammar] at failed
  cases accepted : SamplerChain.parseGrammar llama params.grammar resolved with
  | none => exact .inl (.unparsable present found accepted)
  | some parsed =>
      simp only [accepted] at failed
      cases advanced : resolved.prefill.foldlM llama.grammarAccept parsed with
      | ok grammar =>
          simp only [advanced] at failed
          cases failed
      | error cause =>
          cases cause with
          | standard what => exact .inl (.prefillRejected present found accepted advanced)
          | other =>
              simp only [advanced] at failed
              cases failed
              exact .inr ⟨_, rfl⟩

/-- A generative model starts on a request unless the request is at fault. -/
theorem fault_of_admission_error (generative : config.embeddings = false) {entropy : llama.Entropy}
    {prompt : Bytes} {params : SamplingParams} {error : Exception}
    (failed : admission config entropy prompt params = .error error) :
    (PromptFault llama config prompt ∨ GrammarFault llama params) ∨ error.Foreign := by
  rw [admission, generative, if_neg Bool.false_ne_true, except_bind_eq_error_iff] at failed
  obtain failed | ⟨tokens, tokenized, failed⟩ := failed
  · exact .inl (.inl (.overflows (overflows_of_tokenize_error documented failed)))
  by_cases empty : tokens.isEmpty
  · rw [List.isEmpty_iff] at empty
    exact .inl (.inl (.empty (empty ▸ tokenized)))
  by_cases long : config.nCtxSeq ≤ tokens.length
  · exact .inl (.inl (.tooLong tokenized long))
  rw [if_neg empty, if_neg long, except_bind_eq_error_iff] at failed
  obtain failed | ⟨resolved, found, failed⟩ := failed
  · obtain ⟨text, member, overflows⟩ := overflows_of_resolve_error documented failed
    exact .inl (.inr (.overflows member overflows))
  rw [except_bind_eq_error_iff] at failed
  obtain failed | ⟨sampler, _, failed⟩ := failed
  · obtain fault | outside := fault_of_build_error documented found failed
    · exact .inl (.inr fault)
    · exact .inr outside
  · cases failed

theorem fault_of_measureInput_error {index : Nat} {input : Bytes} {error : Exception}
    (failed : measureInput config llama index input = .error error) :
    InputFault llama config input := by
  rw [measureInput, except_bind_eq_error_iff] at failed
  obtain failed | ⟨tokens, tokenized, failed⟩ := failed
  · exact .overflows (overflows_of_tokenize_error documented failed)
  by_cases empty : tokens.isEmpty
  · rw [List.isEmpty_iff] at empty
    exact .empty (empty ▸ tokenized)
  by_cases long : config.maxEmbedTokens < tokens.length
  · exact .tooLong tokenized long
  · rw [if_neg empty, if_neg long] at failed
    cases failed

/-- Every input is measured unless one of them is at fault. -/
theorem fault_of_measure_error {index : Nat} {inputs : List Bytes} {error : Exception}
    (failed : measure config llama index inputs = .error error) :
    ∃ input ∈ inputs, InputFault llama config input := by
  induction inputs generalizing index with
  | nil => cases failed
  | cons input rest inductionHypothesis =>
      rw [measure, except_bind_eq_error_iff] at failed
      obtain failed | ⟨tokens, _, failed⟩ := failed
      · exact ⟨input, List.mem_cons_self, fault_of_measureInput_error documented failed⟩
      rw [except_bind_eq_error_iff] at failed
      obtain failed | ⟨more, _, failed⟩ := failed
      · obtain ⟨other, member, fault⟩ := inductionHypothesis failed
        exact ⟨other, List.mem_cons_of_mem _ member, fault⟩
      · cases failed

end Admission

namespace SamplerChain

variable {llama} {Selecting : llama.Chain → Prop} {sampler : SamplerChain llama}

/-- A sampler that has something to select from and selects it. -/
def Sound (Selecting : llama.Chain → Prop) (sampler : SamplerChain llama) : Prop :=
  Selecting sampler.chain ∧ 0 < sampler.nSelectable

theorem maxElement_ne_none {candidates : List (Candidate llama.Logit)} (nonempty : candidates ≠ []) :
    (maxElement candidates).toList ≠ [] := by
  cases candidates with
  | nil => exact absurd rfl nonempty
  | cons first rest => exact List.cons_ne_nil _ _

theorem selectable_pos (nVocab_pos : 0 < llama.nVocab) (params : SamplingParams) :
    0 < selectable llama params := by
  rw [selectable]
  split
  · exact Nat.one_pos
  · split
    · omega
    · exact nVocab_pos

/-- What is built from a chain whose last stage selects is sound. -/
theorem Sound.of_build {entropy : llama.Entropy} {params : SamplingParams}
    {resolved : ResolvedTokens} {chain : llama.Chain} (nVocab_pos : 0 < llama.nVocab)
    (created : llama.chainInit = some chain)
    (selecting : Selecting ((stages params).foldl (llama.chainAdd entropy) chain))
    (built : build llama entropy params resolved = .ok sampler) : sampler.Sound Selecting := by
  rw [build, created] at built
  simp only at built
  split at built
  · cases built
    exact ⟨selecting, selectable_pos nVocab_pos params⟩
  · obtain ⟨grammar, _, built⟩ := except_bind_eq_ok_iff.mp built
    cases built
    exact ⟨selecting, selectable_pos nVocab_pos params⟩

variable (documented : llama.Documented)
include documented

theorem candidates_ne_nil (logits : Token → llama.Logit) {count : Nat} (some : 0 < count) :
    (candidates logits count).data ≠ [] := by
  let vocab := (List.range llama.nVocab).map fun id =>
    ({ id := id, logit := logits id, p := llama.zero } : Candidate llama.Logit)
  have vocab_length : vocab.length = llama.nVocab := by simp [vocab]
  have positive := documented.nVocab_pos
  have vocab_ne : vocab ≠ [] := List.ne_nil_of_length_pos (vocab_length ▸ positive)
  change (if count = llama.nVocab then vocab
    else if count = 1 then (maxElement vocab).toList else llama.partialSortCopy vocab count) ≠ []
  split
  · exact vocab_ne
  · split
    · exact maxElement_ne_none vocab_ne
    · apply List.ne_nil_of_length_pos
      rw [documented.partialSortCopy, vocab_length]
      exact Nat.lt_min.mpr ⟨some, positive⟩

variable (selects : llama.Selects Selecting)
include selects

/-- A sound sampler chooses a token. -/
theorem Sound.choose (sound : sampler.Sound Selecting) (logits : Token → llama.Logit)
    {count : Nat} (some : 0 < count) (behind : Option llama.Grammar) :
    ∃ token next, sampler.choose logits count behind = .ok (token, next) ∧
      next.Sound Selecting := by
  have nonempty : (fed logits count behind).data ≠ [] := by
    have unmasked := candidates_ne_nil documented logits some
    cases behind with
    | none => exact unmasked
    | some grammar =>
        apply List.ne_nil_of_length_pos
        rw [fed, documented.grammarApply]
        exact List.length_pos_of_ne_nil unmasked
  obtain ⟨stays, selected, inside⟩ := selects.apply sampler.chain _ sound.1 nonempty
  exact ⟨_, _, choose_of_selected selected (List.getElem?_eq_getElem inside), stays, sound.2⟩

omit documented in
/-- Accepting a token fails only in the grammar sampler. -/
theorem Sound.accept (sound : sampler.Sound Selecting) (grammar : llama.Grammar) (token : Token) :
    let accepted : Except Exception (Token × SamplerChain llama) :=
      match llama.grammarAccept grammar token with
      | .error error => .error (.foreign error)
      | .ok grammar => return (token, { sampler with
          chain := llama.chainAccept sampler.chain token, grammar := some grammar })
    (∃ last next, accepted = .ok (last, next) ∧ next.Sound Selecting) ∨
      ∃ cause, accepted = .error (.foreign cause) := by
  cases llama.grammarAccept grammar token with
  | error cause => exact .inr ⟨cause, rfl⟩
  | ok advanced => exact .inl ⟨token, _, rfl, selects.accept _ _ sound.1, sound.2⟩

/-- Sampling with a sound sampler fails only in the grammar sampler. -/
theorem Sound.sample (sound : sampler.Sound Selecting) (logits : Token → llama.Logit) :
    (∃ token next, sampler.sample logits = .ok (token, next) ∧ next.Sound Selecting) ∨
      ∃ cause, sampler.sample logits = .error (.foreign cause) := by
  obtain ⟨token, chosen, chose, soundChosen⟩ := sound.choose documented selects logits sound.2 none
  rw [SamplerChain.sample, chose]
  cases active : chosen.grammar with
  | none =>
      refine .inl ⟨token, { chosen with chain := llama.chainAccept chosen.chain token }, ?_,
        selects.accept _ _ soundChosen.1, soundChosen.2⟩
      simp only [bind, Except.bind, active]
      rfl
  | some grammar =>
      by_cases refused : refuses grammar token
      · obtain ⟨redrawn, next, rechose, soundNext⟩ := soundChosen.choose documented selects logits
          documented.nVocab_pos (some grammar)
        simp only [bind, Except.bind, active, refused, if_true, rechose]
        exact soundNext.accept selects grammar redrawn
      · simp only [bind, Except.bind, active, refused, Bool.false_eq_true, if_false]
        exact soundChosen.accept selects grammar token

end SamplerChain

/-- The sampler of an admitted request is sound. -/
theorem sound_of_admission {llama : Llama} {Selecting : llama.Chain → Prop} {config : EngineConfig}
    {entropy : llama.Entropy} {prompt : Bytes} {params : SamplingParams} {chain : llama.Chain}
    {admitted : Admitted llama} (nVocab_pos : 0 < llama.nVocab)
    (created : llama.chainInit = some chain)
    (selecting : Selecting ((SamplerChain.stages params).foldl (llama.chainAdd entropy) chain))
    (passed : admission config entropy prompt params = .ok admitted) :
    admitted.sampler.Sound Selecting :=
  .of_build nVocab_pos created selecting (admission_built passed).2

end Llamad
