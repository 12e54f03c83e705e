import Llamad.Engine.Vocabulary

/-!
# The tokens of a prefill

An eager grammar is advanced over the text the prompt ends with before anything is
sampled. That text goes through the tokenizer, which may put a space in front of it, and
`resolvePrefill` takes a first token away that looks like such a space. This module says
for which tokenizers and texts the tokens that are left render to the text.
-/

namespace Llamad

open Logical Semantics Program

variable (llama : Llama)

/-- The texts of tokens, those of control tokens included. -/
def renderPieces (tokens : List Token) : Except Exception (List Bytes) :=
  tokens.mapM fun token => tokenToPiece llama token true

/-- The pieces a text is cut into. -/
def piecesOf (text : Bytes) : Except Exception (List Bytes) := do
  renderPieces llama (← tokenize llama text false true)

/-- The pieces of a text are the text, or a space and the text. -/
def KeepsText : Prop :=
  ∀ text, ∃ pieces, piecesOf llama text = .ok pieces ∧
    (pieces.flatten = text ∨ pieces.flatten = 0x20 :: text)

/-- The tokenizer puts no space in front of the text, or a space that is a piece of its own
and that the text, which does not begin with white space itself, shows to be added. -/
def SeparableSpace (text : Bytes) : Prop :=
  ∃ pieces, piecesOf llama text = .ok pieces ∧
    (pieces.flatten = text ∨ pieces.head? = some [0x20] ∧ startsWithSpace text = false)

variable {llama}

/-- The tokens and pieces of a text that is not empty. -/
theorem KeepsText.first {text : Bytes} (keeps : KeepsText llama) (nonempty : text ≠ []) :
    ∃ token tokens first others, tokenize llama text false true = .ok (token :: tokens) ∧
      tokenToPiece llama token true = .ok first ∧ renderPieces llama tokens = .ok others ∧
      (first ++ others.flatten = text ∨ first ++ others.flatten = 0x20 :: text) := by
  obtain ⟨pieces, cut, together⟩ := keeps text
  obtain ⟨tokens, tokenized, rendered⟩ := except_bind_eq_ok_iff.mp cut
  cases tokens with
  | nil =>
      cases rendered
      obtain same | same := together
      · exact absurd same.symm nonempty
      · cases same
  | cons token tokens =>
      obtain ⟨first, others, piece, renderedToo, rfl⟩ := mapM_cons_eq_ok_iff.mp rendered
      exact ⟨token, tokens, first, others, tokenized, piece, renderedToo, together⟩

/-- The tokens of a prefill: all of them, or those behind a first one that begins with white
space in front of a text that does not. -/
theorem resolvePrefill_eq {grammar : GrammarSpec} {token : Token} {tokens : List Token}
    {first : Bytes} (present : grammar.grammar ≠ []) (eager : grammar.lazy = false)
    (nonempty : grammar.prefill ≠ [])
    (tokenized : tokenize llama grammar.prefill false true = .ok (token :: tokens))
    (piece : tokenToPiece llama token true = .ok first) :
    resolvePrefill llama grammar =
      .ok (if startsWithSpace first ∧ startsWithSpace grammar.prefill = false then tokens
        else token :: tokens) := by
  have asked : (!grammar.grammar.isEmpty && !grammar.lazy && !grammar.prefill.isEmpty) = true := by
    simp [present, eager, nonempty]
  rw [resolvePrefill, if_pos asked]
  refine except_bind_eq_ok_iff.mpr ⟨_, tokenized, except_bind_eq_ok_iff.mpr ⟨_, piece, ?_⟩⟩
  dsimp only [List.tail_cons]
  cases first with
  | nil => rfl
  | cons byte bytes =>
      by_cases separate : startsWithSpace (byte :: bytes) ∧ startsWithSpace grammar.prefill = false
      · simp only [separate.1, separate.2, and_self, if_true, List.isEmpty_cons, Bool.not_false,
          Bool.and_self]
        rfl
      · rw [if_neg separate, if_neg]
        · rfl
        · simp only [List.isEmpty_cons, Bool.not_false, Bool.true_and, Bool.and_eq_true,
            Bool.not_eq_true']
          exact separate

/-- Preserved texts resolve when every text has tokens. -/
theorem KeepsText.resolvePreserved (keeps : KeepsText llama) (texts : List Bytes) :
    ∃ preserved, resolvePreserved llama texts = .ok preserved := by
  cases resolved : Llamad.resolvePreserved llama texts with
  | ok preserved => exact ⟨preserved, rfl⟩
  | error error =>
      obtain ⟨text, _, preserved, failed⟩ := exists_of_foldlM_eq_error resolved
      obtain ⟨pieces, cut, _⟩ := keeps text
      obtain ⟨tokens, tokenized, _⟩ := except_bind_eq_ok_iff.mp cut
      rw [tokenized] at failed
      rcases tokens with _ | ⟨_, _ | _⟩ <;> cases failed

/-- What is resolved for an eager grammar has the prefill's tokens. -/
theorem KeepsText.resolve {params : SamplingParams} (keeps : KeepsText llama)
    (eager : params.grammar.lazy = false) {prefill : List Token}
    (resolved : resolvePrefill llama params.grammar = .ok prefill) :
    ∃ tokens, resolve llama params = .ok tokens ∧ tokens.prefill = prefill := by
  obtain ⟨preserved, resolvedToo⟩ := keeps.resolvePreserved params.preservedTokens
  refine ⟨{ preserved := preserved, prefill := prefill }, ?_, rfl⟩
  refine except_bind_eq_ok_iff.mpr ⟨_, resolvedToo, except_bind_eq_ok_iff.mpr ⟨_, resolved, ?_⟩⟩
  rw [eager]
  simp
  rfl

/-- Taking away a first piece that begins with white space leaves the text exactly when it
is the added space. -/
theorem separated_eq_iff {first rest text : Bytes} (nonempty : text ≠ [])
    (together : first ++ rest = text ∨ first ++ rest = 0x20 :: text) :
    (if startsWithSpace first ∧ startsWithSpace text = false then rest else first ++ rest) = text ↔
      first ++ rest = text ∨ first = [0x20] ∧ startsWithSpace text = false := by
  obtain same | spaced := together
  · have kept : ¬ (startsWithSpace first ∧ startsWithSpace text = false) := by
      rintro ⟨space, noSpace⟩
      cases first with
      | nil => cases space
      | cons byte bytes =>
          subst same
          rw [List.cons_append] at noSpace
          exact Bool.noConfusion (space.symm.trans noSpace)
    rw [if_neg kept]
    exact ⟨.inl, fun _ => same⟩
  · have longer : first ++ rest ≠ text := by
      rw [spaced]
      exact List.cons_ne_self _ _
    by_cases separate : startsWithSpace first ∧ startsWithSpace text = false
    · rw [if_pos separate]
      cases first with
      | nil => cases separate.1
      | cons byte bytes =>
          obtain ⟨rfl, restEq⟩ := List.cons.inj spaced
          constructor
          · intro same
            subst same
            refine .inr ⟨congrArg _ ?_, separate.2⟩
            simpa using restEq
          · rintro (same | ⟨space, _⟩)
            · exact absurd same longer
            · cases space
              exact restEq
    · rw [if_neg separate]
      refine ⟨.inl, ?_⟩
      rintro (same | ⟨rfl, noSpace⟩)
      · exact same
      · exact absurd ⟨rfl, noSpace⟩ separate

/-- For a tokenizer that keeps a text up to a space in front of it: the tokens an eager
grammar is advanced over render to the prefill exactly when that space, if there is one,
can be told and taken apart from the text. -/
theorem resolve_prefill_iff {params : SamplingParams} (keeps : KeepsText llama)
    (present : params.grammar.grammar ≠ []) (eager : params.grammar.lazy = false)
    (nonempty : params.grammar.prefill ≠ []) :
    (∃ resolved pieces, resolve llama params = .ok resolved ∧
        renderPieces llama resolved.prefill = .ok pieces ∧
        pieces.flatten = params.grammar.prefill) ↔
      SeparableSpace llama params.grammar.prefill := by
  obtain ⟨token, tokens, first, others, tokenized, piece, rendered, together⟩ :=
    keeps.first nonempty
  have renderedAll : renderPieces llama (token :: tokens) = .ok (first :: others) :=
    mapM_cons_eq_ok_iff.mpr ⟨first, others, piece, rendered, rfl⟩
  have cut : piecesOf llama params.grammar.prefill = .ok (first :: others) :=
    except_bind_eq_ok_iff.mpr ⟨_, tokenized, renderedAll⟩
  have separable : SeparableSpace llama params.grammar.prefill ↔
      first ++ others.flatten = params.grammar.prefill ∨
        first = [0x20] ∧ startsWithSpace params.grammar.prefill = false := by
    simp only [SeparableSpace, cut, Except.ok.injEq, exists_eq_left', List.flatten_cons,
      List.head?_cons, Option.some.injEq]
  rw [separable, ← separated_eq_iff nonempty together]
  obtain ⟨resolved, resolves, prefill⟩ :=
    keeps.resolve eager (resolvePrefill_eq present eager nonempty tokenized piece)
  have renders : renderPieces llama resolved.prefill = .ok
      (if startsWithSpace first ∧ startsWithSpace params.grammar.prefill = false then others
        else first :: others) := by
    rw [prefill]
    split
    · exact rendered
    · exact renderedAll
  simp only [resolves, Except.ok.injEq, exists_and_left, exists_eq_left', renders]
  split
  · rfl
  · rw [List.flatten_cons]

/-- A tokenizer over single bytes that puts a space in front of every text, as a token of
its own or fused with the first byte. -/
def Llama.spacing (fused : Bool) : Llama where
  __ := Llama.bytes fun _ => 256
  tokenize text _ _ _ :=
    if text = [] then (0, [])
    else if fused then (text.length, (text.headI.toNat + 256) :: text.tail.map UInt8.toNat)
    else (text.length + 1, 0x20 :: text.map UInt8.toNat)
  tokenToPiece token _ _ :=
    if token < 256 then (1, [UInt8.ofNat token]) else (2, [0x20, UInt8.ofNat (token - 256)])

/-- Tokens of single bytes render to those bytes. -/
theorem renderPieces_spacing (fused : Bool) (text : Bytes) :
    renderPieces (.spacing fused) (text.map UInt8.toNat) = .ok (text.map fun byte => [byte]) := by
  induction text with
  | nil => rfl
  | cons byte rest inductionHypothesis =>
      refine mapM_cons_eq_ok_iff.mpr ⟨[byte], _, ?_, inductionHypothesis, rfl⟩
      simp [tokenToPiece, Llama.spacing, byte.toNat_lt]

/-- One call of the tokenizer does when its buffer is large enough. -/
theorem tokenize_of_fits {text : Bytes} {addSpecial parseSpecial : Bool} {tokens : List Token}
    (fits : llama.tokenize text (text.length + 8) addSpecial parseSpecial =
      ((tokens.length : Int), tokens)) :
    tokenize llama text addSpecial parseSpecial = .ok tokens := by
  have counted : ¬ (tokens.length : Int) = int32Min := by
    rw [int32Min]
    omega
  have positive : ¬ (tokens.length : Int) < 0 := by omega
  simp only [tokenize, fits, counted, positive, if_false, Int.toNat_natCast, List.take_length]

theorem flatten_singletons (text : Bytes) : (text.map fun byte => [byte]).flatten = text := by
  induction text with
  | nil => rfl
  | cons byte rest inductionHypothesis =>
      rw [List.map_cons, List.flatten_cons, inductionHypothesis, List.singleton_append]

theorem keepsText_spacing (fused : Bool) : KeepsText (.spacing fused) := by
  intro text
  cases text with
  | nil => exact ⟨[], by cases fused <;> rfl, .inl rfl⟩
  | cons byte rest =>
      cases fused with
      | false =>
          refine ⟨[0x20] :: (byte :: rest).map fun byte => [byte], ?_, .inr ?_⟩
          · refine except_bind_eq_ok_iff.mpr ⟨0x20 :: (byte :: rest).map UInt8.toNat, ?_, ?_⟩
            · refine tokenize_of_fits ?_
              simp [Llama.spacing]
            · exact mapM_cons_eq_ok_iff.mpr ⟨_, _, rfl, renderPieces_spacing false _, rfl⟩
          · rw [List.flatten_cons, flatten_singletons, List.singleton_append]
      | true =>
          refine ⟨[0x20, byte] :: rest.map fun byte => [byte], ?_, .inr ?_⟩
          · refine except_bind_eq_ok_iff.mpr
              ⟨(byte.toNat + 256) :: rest.map UInt8.toNat, ?_, ?_⟩
            · refine tokenize_of_fits ?_
              simp [Llama.spacing]
            · refine mapM_cons_eq_ok_iff.mpr ⟨_, _, ?_, renderPieces_spacing true _, rfl⟩
              have fused : ¬ byte.toNat + 256 < 256 := by omega
              simp [tokenToPiece, Llama.spacing, fused]
          · rw [List.flatten_cons, flatten_singletons]
            rfl

/-- The grammar of a request that asks for an object after `Sure: `. -/
def sure : SamplingParams where
  grammar := { grammar := literal "root ::= \"Sure: \" object", prefill := literal "Sure: " }

/-- An added space that is a token of its own is taken away. -/
theorem resolve_prefill_iff_apart :
    (∃ resolved pieces, resolve (.spacing false) sure = .ok resolved ∧
        renderPieces (.spacing false) resolved.prefill = .ok pieces ∧
        pieces.flatten = sure.grammar.prefill) ↔
      SeparableSpace (.spacing false) sure.grammar.prefill :=
  resolve_prefill_iff (keepsText_spacing false) (by decide +kernel) rfl (by decide +kernel)

/-- An added space fused with the `S` of `Sure: ` takes the `S` with it: the grammar is
advanced over `ure: `. -/
theorem resolve_prefill_fused :
    KeepsText (.spacing true) ∧
      (∃ resolved, resolve (.spacing true) sure = .ok resolved ∧
        renderPieces (.spacing true) resolved.prefill =
          .ok ((literal "ure: ").map fun byte => [byte])) ∧
      ((literal "ure: ").map fun byte => [byte]).flatten ≠ sure.grammar.prefill :=
  ⟨keepsText_spacing true, ⟨_, rfl, by decide +kernel⟩, by decide +kernel⟩

end Llamad
