import Llamad.Engine.Sampler
import Llamad.Grammar.Pattern

/-!
# Trigger words

A lazy grammar is armed by its triggers. `resolve` gives each trigger word one of two
forms: a word that is one preserved token becomes that token, any other an escaped pattern
that is searched for in the text of the accepted tokens. The escaped pattern stands for the
word itself (`searches_regexEscape`), so the second form is blind to how the text was cut
into tokens, while the first one is not.
-/

namespace Llamad

open Logical Semantics Program Pattern

section Escaping

/-- A byte that has a meaning in patterns. -/
def isSyntax (byte : UInt8) : Bool := byte ∈ literal ".^$|()*+?[]\x7b\x7d\\"

/-- A byte without a meaning stands for itself. -/
theorem scanText_byte : ∀ byte, isSyntax byte = false →
    scan .text byte = some ([.set (.one byte)], .text) :=
  Utf8.forall_byte (by decide +kernel)

/-- A byte with a meaning stands for itself behind a backslash. -/
theorem scanEscape_byte : ∀ byte, isSyntax byte = true →
    scan (.escape none) byte = some ([.set (.one byte)], .text) :=
  Utf8.forall_byte (by decide +kernel)

/-- The bytes an escaped byte is written with. -/
def escapedByte (byte : UInt8) : Bytes := if isSyntax byte then [0x5C, byte] else [byte]

theorem regexEscape_cons (byte : UInt8) (rest : Bytes) :
    regexEscape (byte :: rest) = escapedByte byte ++ regexEscape rest := by
  rw [regexEscape, List.flatMap_cons]
  simp only [escapedByte, isSyntax, decide_eq_true_eq]
  rfl

/-- An escaped byte is scanned as itself. -/
theorem scanAll_escapedByte (byte : UInt8) :
    scanAll .text (escapedByte byte) = some ([.set (.one byte)], .text) := by
  have backslash : scan .text 0x5C = some ([], .escape none) := by decide +kernel
  rw [escapedByte]
  cases meaning : isSyntax byte with
  | true => simp [scanAll, backslash, scanEscape_byte byte meaning]
  | false => simp [scanAll, scanText_byte byte meaning]

/-- An escaped text is scanned as its bytes. -/
theorem scanAll_regexEscape (word : Bytes) :
    scanAll .text (regexEscape word) =
      some (word.map fun byte => .set (.one byte), .text) := by
  induction word with
  | nil => rfl
  | cons byte rest inductionHypothesis =>
      rw [regexEscape_cons]
      exact scanAll_append (scanAll_escapedByte byte) inductionHypothesis

theorem symbolsOf_regexEscape (word : Bytes) :
    symbolsOf (regexEscape word) = some (word.map fun byte => .set (.one byte)) := by
  simp [symbolsOf, scanAll_regexEscape, Mode.finish]

/-- A search for an escaped text finds that text. -/
theorem searches_regexEscape {word text : Bytes} :
    Searches (regexEscape word) text ↔ word <:+: text :=
  searches_bytes (symbolsOf_regexEscape word)

/-- An escaped text matches that text as a whole and nothing else. -/
theorem matchesWhole_regexEscape {word text : Bytes} :
    MatchesWhole (regexEscape word) text ↔ text = word :=
  matchesWhole_bytes (symbolsOf_regexEscape word)

theorem regexEscape_append (word more : Bytes) :
    regexEscape (word ++ more) = regexEscape word ++ regexEscape more :=
  List.flatMap_append

/-- A text without its escapes: each backslash gives way to the byte behind it. -/
def unescape : Bytes → Bytes
  | [] => []
  | [byte] => [byte]
  | byte :: next :: rest =>
      if byte = 0x5C then next :: unescape rest else byte :: unescape (next :: rest)

/-- A byte other than a backslash is not part of an escape. -/
theorem unescape_cons {byte : UInt8} (plain : byte ≠ 0x5C) (rest : Bytes) :
    unescape (byte :: rest) = byte :: unescape rest := by
  cases rest with
  | nil => rfl
  | cons next rest => rw [unescape, if_neg plain]

/-- An escaped byte is that byte again without the escape, and the bytes behind it are read
on their own: a backslash that was escaped escapes nothing. -/
theorem unescape_escapedByte (byte : UInt8) (rest : Bytes) :
    unescape (escapedByte byte ++ rest) = byte :: unescape rest := by
  rw [escapedByte]
  by_cases meaning : isSyntax byte = true
  · rw [if_pos meaning, List.cons_append, List.singleton_append, unescape, if_pos rfl]
  · have plain : byte ≠ 0x5C := by
      rintro rfl
      exact meaning (by decide +kernel)
    rw [if_neg meaning, List.singleton_append, unescape_cons plain]

/-- Without its escapes an escaped text is the text it was made of. -/
theorem unescape_regexEscape : Function.LeftInverse unescape regexEscape := by
  intro word
  induction word with
  | nil => rfl
  | cons byte rest inductionHypothesis =>
      rw [regexEscape_cons, unescape_escapedByte, inductionHypothesis]

/-- For every word, whatever its bytes: the escaped word is a well-formed pattern, the word
alone is what it matches whole, the word is what is left of it without the escapes, it is
escaped part by part, and no other word has the same pattern. -/
theorem regexEscape_denotes (word : Bytes) :
    (∃ branches, parse (regexEscape word) = some branches) ∧
      (∀ text, MatchesWhole (regexEscape word) text ↔ text = word) ∧
      unescape (regexEscape word) = word ∧
      (∀ more, regexEscape (word ++ more) = regexEscape word ++ regexEscape more) ∧
      ∀ other, regexEscape other = regexEscape word ↔ other = word := by
  have symbols := symbolsOf_regexEscape word
  refine ⟨⟨_, parse_bytes symbols⟩, fun text => matchesWhole_regexEscape,
    unescape_regexEscape word, regexEscape_append word, fun other => ?_⟩
  exact unescape_regexEscape.injective.eq_iff

/-- What a C string holds of an escaped text is the escaped text a C string holds. -/
theorem cString_regexEscape (word : Bytes) :
    SamplerChain.cString (regexEscape word) = regexEscape (SamplerChain.cString word) := by
  induction word with
  | nil => rfl
  | cons byte rest inductionHypothesis =>
      rw [regexEscape_cons]
      by_cases ends : byte = 0
      · subst ends
        have escaped : escapedByte 0 = [0] := by decide +kernel
        rw [escaped]
        rfl
      · have whole : ∀ part ∈ escapedByte byte, decide (part ≠ 0) = true := by
          rw [escapedByte]
          split <;> simp [ends]
        have kept : SamplerChain.cString (byte :: rest) = byte :: SamplerChain.cString rest :=
          List.takeWhile_cons_of_pos (by simpa using ends)
        rw [kept, regexEscape_cons, ← inductionHypothesis]
        exact List.takeWhile_append_of_pos whole

end Escaping

section Resolving

variable {llama : Llama}

/-- A trigger word has one of its two forms: the one preserved token it is, or an escaped
pattern. -/
def Triggers (llama : Llama) (preserved triggerTokens : List Token) (triggerPatterns : List Bytes)
    (word : Bytes) : Prop :=
  ∃ ids, tokenize llama word false true = .ok ids ∧
    ((∃ id ∈ preserved, ids = [id] ∧ id ∈ triggerTokens) ∨
      (∀ id ∈ preserved, ids ≠ [id]) ∧ regexEscape word ∈ triggerPatterns)

theorem Triggers.mono {preserved tokens moreTokens : List Token}
    {patterns morePatterns : List Bytes} {word : Bytes}
    (triggers : Triggers llama preserved tokens patterns word) (moreOf : tokens ⊆ moreTokens)
    (moreFrom : patterns ⊆ morePatterns) :
    Triggers llama preserved moreTokens morePatterns word := by
  obtain ⟨ids, tokenized, ⟨id, kept, single, among⟩ | ⟨other, among⟩⟩ := triggers
  · exact ⟨ids, tokenized, .inl ⟨id, kept, single, moreOf among⟩⟩
  · exact ⟨ids, tokenized, .inr ⟨other, moreFrom among⟩⟩

/-- One round of the loop that sorts the trigger words. -/
def resolveTrigger (llama : Llama) (preserved : List Token) (found : List Token × List Bytes)
    (word : Bytes) : Except Exception (List Token × List Bytes) := do
  let ids ← tokenize llama word false true
  match ids with
  | [id] =>
      if id ∈ preserved then return (found.1 ++ [id], found.2)
      else return (found.1, found.2 ++ [regexEscape word])
  | _ => return (found.1, found.2 ++ [regexEscape word])

theorem resolveTriggers_eq (preserved : List Token) (grammar : GrammarSpec) :
    resolveTriggers llama preserved grammar =
      grammar.triggerWords.foldlM (resolveTrigger llama preserved) ([], grammar.triggerPatterns) :=
  rfl

/-- A round keeps what was found and finds the form of its word. -/
theorem resolveTrigger_finds {preserved : List Token} {found next : List Token × List Bytes}
    {word : Bytes} (resolved : resolveTrigger llama preserved found word = .ok next) :
    (found.1 ⊆ next.1 ∧ found.2 ⊆ next.2) ∧ Triggers llama preserved next.1 next.2 word := by
  obtain ⟨ids, tokenized, returned⟩ := except_bind_eq_ok_iff.mp resolved
  have asText (other : ∀ id ∈ preserved, ids ≠ [id])
      (here : (found.1, found.2 ++ [regexEscape word]) = next) :
      (found.1 ⊆ next.1 ∧ found.2 ⊆ next.2) ∧ Triggers llama preserved next.1 next.2 word := by
    subst here
    refine ⟨⟨List.Subset.refl _, List.subset_append_left _ _⟩, ids, tokenized, .inr ⟨other, ?_⟩⟩
    exact List.mem_append_right _ (List.mem_singleton_self _)
  rcases ids with _ | ⟨id, _ | ⟨second, rest⟩⟩
  · exact asText (by simp) (Except.ok.inj returned)
  · by_cases kept : id ∈ preserved
    · simp only [if_pos kept] at returned
      cases returned
      refine ⟨⟨List.subset_append_left _ _, List.Subset.refl _⟩, [id], tokenized, .inl ?_⟩
      exact ⟨id, kept, rfl, List.mem_append_right _ (List.mem_singleton_self _)⟩
    · simp only [if_neg kept] at returned
      refine asText (fun other among same => kept ?_) (Except.ok.inj returned)
      cases same
      exact among
  · exact asText (by simp) (Except.ok.inj returned)

/-- Every trigger word is found in one of its forms. -/
theorem resolveTriggers_finds {preserved : List Token} {words : List Bytes}
    {found last : List Token × List Bytes}
    (resolved : words.foldlM (resolveTrigger llama preserved) found = .ok last) :
    (found.1 ⊆ last.1 ∧ found.2 ⊆ last.2) ∧
      ∀ word ∈ words, Triggers llama preserved last.1 last.2 word := by
  induction words generalizing found with
  | nil =>
      cases resolved
      exact ⟨⟨List.Subset.refl _, List.Subset.refl _⟩, List.forall_mem_nil _⟩
  | cons word words inductionHypothesis =>
      rw [List.foldlM_cons] at resolved
      obtain ⟨next, first, rest⟩ := except_bind_eq_ok_iff.mp resolved
      obtain ⟨⟨tokens, patterns⟩, here⟩ := resolveTrigger_finds first
      obtain ⟨⟨moreTokens, morePatterns⟩, others⟩ := inductionHypothesis rest
      refine ⟨⟨List.Subset.trans tokens moreTokens, List.Subset.trans patterns morePatterns⟩, ?_⟩
      exact List.forall_mem_cons.mpr ⟨here.mono moreTokens morePatterns, others⟩

/-- Under a lazy grammar every trigger word is resolved to one of its forms. -/
theorem resolve_triggers {params : SamplingParams} {resolved : ResolvedTokens}
    (given : params.grammar.grammar ≠ []) (lazily : params.grammar.lazy = true)
    (resolves : resolve llama params = .ok resolved) :
    resolved.prefill = [] ∧ ∀ word ∈ params.grammar.triggerWords,
      Triggers llama resolved.preserved resolved.triggerTokens resolved.triggerPatterns word := by
  obtain ⟨preserved, _, resolves⟩ := except_bind_eq_ok_iff.mp resolves
  obtain ⟨prefill, prefilled, resolves⟩ := except_bind_eq_ok_iff.mp resolves
  have waits : ¬ (params.grammar.grammar.isEmpty || !params.grammar.lazy) = true := by
    simp [given, lazily]
  rw [if_neg waits] at resolves
  obtain ⟨found, collected, returned⟩ := except_bind_eq_ok_iff.mp resolves
  cases returned
  rw [resolveTriggers_eq] at collected
  refine ⟨?_, (resolveTriggers_finds collected).2⟩
  simp only [resolvePrefill, lazily] at prefilled
  simp at prefilled
  cases prefilled
  rfl

end Resolving

section Arming

/-- When a backend's lazy grammars have fired, for tokens with the texts `piece`, those of
control tokens included: once a trigger token was accepted, or a trigger pattern was found
in the text accepted by then. -/
structure Llama.Arms (llama : Llama) (piece : Token → Bytes) (Fired : llama.Grammar → Prop) :
    Prop where
  rendered : ∀ token, Llamad.tokenToPiece llama token true = .ok (piece token)
  fires : ∀ {grammar root patterns triggers initial tokens state},
    llama.grammarInitLazyPatterns grammar root patterns triggers = some initial →
    tokens.foldlM llama.grammarAccept initial = .ok state →
    (Fired state ↔ (∃ token ∈ tokens, token ∈ triggers) ∨
      ∃ front, front <+: tokens ∧ ∃ pattern ∈ patterns, Searches pattern (front.flatMap piece))

variable {llama : Llama} {piece : Token → Bytes} {Fired : llama.Grammar → Prop}

/-- The grammar sampler of a lazy request fires as its triggers say. -/
theorem addGrammar_fires (arms : llama.Arms piece Fired) {grammar : GrammarSpec}
    {resolved : ResolvedTokens} {initial state : llama.Grammar} {tokens : List Token}
    (lazily : grammar.lazy = true) (noPrefill : resolved.prefill = [])
    (added : SamplerChain.addGrammar llama grammar resolved = .ok initial)
    (accepted : tokens.foldlM llama.grammarAccept initial = .ok state) :
    Fired state ↔ (∃ token ∈ tokens, token ∈ resolved.triggerTokens) ∨
      ∃ front, front <+: tokens ∧ ∃ pattern ∈ resolved.triggerPatterns.map SamplerChain.cString,
        Searches pattern (front.flatMap piece) := by
  rw [SamplerChain.addGrammar, noPrefill] at added
  cases initialized : SamplerChain.parseGrammar llama grammar resolved with
  | none =>
      rw [initialized] at added
      cases added
  | some parsed =>
      rw [initialized] at added
      cases added
      rw [SamplerChain.parseGrammar, if_pos lazily] at initialized
      exact arms.fires initialized accepted

/-- The grammar of a lazy request that has accepted some tokens: a trigger word that is one
preserved token has armed it when that token is among them, however any other trigger word
is cut into tokens, the grammar is armed when their text contains it. -/
theorem triggerWord_arms (arms : llama.Arms piece Fired) {params : SamplingParams}
    {resolved : ResolvedTokens} {initial state : llama.Grammar} {tokens : List Token}
    (given : params.grammar.grammar ≠ []) (lazily : params.grammar.lazy = true)
    (resolves : resolve llama params = .ok resolved)
    (added : SamplerChain.addGrammar llama params.grammar resolved = .ok initial)
    (accepted : tokens.foldlM llama.grammarAccept initial = .ok state)
    {word : Bytes} (among : word ∈ params.grammar.triggerWords) :
    ∃ ids, tokenize llama word false true = .ok ids ∧
      (∀ id ∈ resolved.preserved, ids = [id] → id ∈ tokens → Fired state) ∧
      ((∀ id ∈ resolved.preserved, ids ≠ [id]) → word <:+: tokens.flatMap piece → Fired state) := by
  obtain ⟨noPrefill, triggers⟩ := resolve_triggers given lazily resolves
  have fires := addGrammar_fires arms lazily noPrefill added accepted
  obtain ⟨ids, tokenized, form⟩ := triggers word among
  refine ⟨ids, tokenized, ?_, ?_⟩
  · rintro id kept rfl emitted
    obtain ⟨other, _, same, trigger⟩ | ⟨apart, _⟩ := form
    · cases same
      exact fires.mpr (.inl ⟨id, emitted, trigger⟩)
    · exact absurd rfl (apart id kept)
  · intro apart spelled
    obtain ⟨id, kept, same, _⟩ | ⟨_, pattern⟩ := form
    · exact absurd same (apart id kept)
    · refine fires.mpr (.inr ⟨tokens, List.prefix_refl _, _, List.mem_map_of_mem pattern, ?_⟩)
      rw [cString_regexEscape, searches_regexEscape]
      exact (List.takeWhile_prefix _).isInfix.trans spelled

end Arming

section Tagged

/-- A lazy grammar sampler that keeps what it was given and what it accepted. -/
structure Waiting where
  patterns : List Bytes
  triggers : List Token
  accepted : List Token := []

/-- The tokens of a text in which `[t]` is one token and any other byte another. -/
def tagged : Bytes → List Token
  | 0x5B :: 0x74 :: 0x5D :: rest => 257 :: tagged rest
  | byte :: rest => byte.toNat :: tagged rest
  | [] => []

/-- The text of such a token, 256 ending a generation. -/
def taggedPiece (token : Token) : Bytes :=
  if token < 256 then [UInt8.ofNat token] else if token = 257 then literal "[t]" else []

/-- One token more. -/
def Waiting.accept (waiting : Waiting) (token : Token) : Except Foreign Waiting :=
  .ok { waiting with accepted := waiting.accepted ++ [token] }

/-- A trigger has been seen. -/
def Waiting.Fired (waiting : Waiting) : Prop :=
  (∃ token ∈ waiting.accepted, token ∈ waiting.triggers) ∨
    ∃ front, front <+: waiting.accepted ∧ ∃ pattern ∈ waiting.patterns,
      Searches pattern (front.flatMap taggedPiece)

/-- A backend over single bytes and the control token `[t]`. -/
def Llama.tagged : Llama where
  __ := Llama.bytes fun _ => 256
  nVocab := 258
  tokenize text _ _ parseSpecial :=
    let tokens := if parseSpecial then Llamad.tagged text else text.map UInt8.toNat
    (tokens.length, tokens)
  tokenToPiece token _ special :=
    if 256 ≤ token ∧ !special then (0, [])
    else ((taggedPiece token).length, taggedPiece token)
  Grammar := Waiting
  grammarInit _ _ := some { patterns := [], triggers := [] }
  grammarInitLazyPatterns _ _ patterns triggers :=
    some { patterns := patterns, triggers := triggers }
  grammarApply _ array := array
  grammarAccept := Waiting.accept

/-- Accepted tokens are kept in their order. -/
theorem Waiting.foldlM_accept (tokens : List Token) (waiting : Waiting) :
    tokens.foldlM Waiting.accept waiting =
      .ok { waiting with accepted := waiting.accepted ++ tokens } := by
  induction tokens generalizing waiting with
  | nil => rw [List.append_nil]; rfl
  | cons token rest inductionHypothesis =>
      rw [List.foldlM_cons]
      refine (inductionHypothesis { waiting with accepted := waiting.accepted ++ [token] }).trans ?_
      rw [List.append_assoc, List.singleton_append]

theorem arms_tagged : Llama.tagged.Arms taggedPiece Waiting.Fired where
  rendered token := by
    simp [tokenToPiece, Llama.tagged]
  fires initialized accepted := by
    cases initialized
    have same := accepted.symm.trans (Waiting.foldlM_accept _ _)
    cases same
    rfl

/-- A lazy grammar with the trigger word `[t]`. -/
def waitsForTag (preserved : List Bytes) : SamplingParams where
  preservedTokens := preserved
  grammar := {
    grammar := literal "root ::= object"
    lazy := true
    triggerWords := [literal "[t]"] }

/-- Where `[t]` is not preserved, its three bytes arm the grammar. -/
theorem triggerWord_arms_spelled :
    Waiting.Fired { patterns := [literal "\\[t\\]"], triggers := []
                    accepted := [0x5B, 0x74, 0x5D] } := by
  obtain ⟨_, _, _, spelled⟩ := @triggerWord_arms Llama.tagged _ _ arms_tagged (waitsForTag [])
    { triggerPatterns := [literal "\\[t\\]"] }
    { patterns := [literal "\\[t\\]"], triggers := [] } _ [0x5B, 0x74, 0x5D]
    (by decide +kernel) rfl rfl rfl (Waiting.foldlM_accept _ _)
    (literal "[t]") (by decide +kernel)
  exact spelled (List.forall_mem_nil _) (by decide +kernel)

/-- Where `[t]` is preserved, its three bytes do not. -/
theorem triggerWord_spelled_apart :
    Llama.tagged.Arms taggedPiece Waiting.Fired ∧
    ∃ resolved initial state, resolve .tagged (waitsForTag [literal "[t]"]) = .ok resolved ∧
      SamplerChain.addGrammar .tagged (waitsForTag [literal "[t]"]).grammar resolved =
        .ok initial ∧
      [0x5B, 0x74, 0x5D].foldlM Llama.tagged.grammarAccept initial = .ok state ∧
      literal "[t]" ∈ (waitsForTag [literal "[t]"]).grammar.triggerWords ∧
      literal "[t]" <:+: [0x5B, 0x74, 0x5D].flatMap taggedPiece ∧ ¬ Waiting.Fired state := by
  refine ⟨arms_tagged, { preserved := [257], triggerTokens := [257] },
    { patterns := [], triggers := [257] }, _, rfl, rfl,
    Waiting.foldlM_accept _ _, by decide +kernel, by decide +kernel, ?_⟩
  rintro (⟨token, emitted, trigger⟩ | ⟨_, _, _, none, _⟩)
  · cases List.mem_singleton.mp trigger
    exact absurd emitted (by decide)
  · exact absurd none (List.not_mem_nil)

end Tagged

end Llamad
