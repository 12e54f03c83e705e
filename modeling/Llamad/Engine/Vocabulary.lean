import Llamad.Engine.Backend

/-!
# Text and tokens

The parts of the engine that look a text or a token up in the vocabulary, and the
strings of a request they turn into token ids before anything is decoded.
-/

namespace Llamad

open Logical

/-- `INT32_MIN`, with which `llama_tokenize` reports that the count does not fit. -/
def int32Min : Int := -2147483648

variable (llama : Llama)

/-- One pass unless the text needs more tokens than bytes. -/
def tokenize (text : Bytes) (addSpecial parseSpecial : Bool) :
    Except Exception (List Token) :=
  let fill (capacity : Nat) := llama.tokenize text capacity addSpecial parseSpecial
  let first := fill (text.length + 8)
  if first.1 = int32Min then .error (.engine .tokenizationOverflow)
  else
    let filled := if first.1 < 0 then fill (-first.1).toNat else first
    if filled.1 < 0 then .error (.engine .tokenizationFailed)
    else .ok (filled.2.take filled.1.toNat)

/-- The text of a token; `special` renders a control token instead of nothing. -/
def tokenToPiece (token : Token) (special : Bool) : Except Exception Bytes :=
  let first := llama.tokenToPiece token 256 special
  if 0 ≤ first.1 then .ok (first.2.take first.1.toNat)
  else
    let second := llama.tokenToPiece token (-first.1).toNat special
    if second.1 < 0 then .error (.engine .pieceFailed)
    else .ok (second.2.take second.1.toNat)

/-- Escapes the characters `std::regex` treats as syntax. -/
def regexEscape (text : Bytes) : Bytes :=
  text.flatMap fun c => if c ∈ literal ".^$|()*+?[]\x7b\x7d\\" then [0x5C, c] else [c]

/-- The string-valued parts of the sampling parameters, looked up in the vocabulary. -/
structure ResolvedTokens where
  preserved : List Token := []
  triggerTokens : List Token := []
  triggerPatterns : List Bytes := []
  prefill : List Token := []

/-- `std::isspace` in the C locale. -/
def isSpace (c : UInt8) : Bool := c == 0x20 || (0x09 ≤ c && c ≤ 0x0D)

/-- The text begins with white space. -/
def startsWithSpace (text : Bytes) : Bool := text.head?.any isSpace

/-- The tokens named by the preserved texts; a text that is not exactly one token names
none. -/
def resolvePreserved (texts : List Bytes) : Except Exception (List Token) :=
  texts.foldlM (fun preserved text => do
    let ids ← tokenize llama text false true
    match ids with
    | [id] => return preserved.insert id
    | _ => return preserved) []

/-- The tokens an eager grammar consumes before sampling, without a space the tokenizer
put in front. -/
def resolvePrefill (grammar : GrammarSpec) : Except Exception (List Token) := do
  if !grammar.grammar.isEmpty && !grammar.lazy && !grammar.prefill.isEmpty then
    let prefill ← tokenize llama grammar.prefill false true
    let first ← match prefill with
      | [] => pure []
      | token :: _ => tokenToPiece llama token true
    if !first.isEmpty && startsWithSpace first && !startsWithSpace grammar.prefill then
      return prefill.tail
    else
      return prefill
  else
    return []

/-- The triggers of a lazy grammar: a word that is one preserved token is a token trigger,
any other is matched as text. -/
def resolveTriggers (preserved : List Token) (grammar : GrammarSpec) :
    Except Exception (List Token × List Bytes) :=
  grammar.triggerWords.foldlM (fun (tokens, patterns) word => do
    let ids ← tokenize llama word false true
    match ids with
    | [id] =>
        if id ∈ preserved then return (tokens ++ [id], patterns)
        else return (tokens, patterns ++ [regexEscape word])
    | _ => return (tokens, patterns ++ [regexEscape word])) ([], grammar.triggerPatterns)

/-- Mirrors what llama-server does with preserved tokens and grammar triggers. -/
def resolve (params : SamplingParams) : Except Exception ResolvedTokens := do
  let preserved ← resolvePreserved llama params.preservedTokens
  let prefill ← resolvePrefill llama params.grammar
  if params.grammar.grammar.isEmpty || !params.grammar.lazy then
    return { preserved := preserved, prefill := prefill }
  else
    let (triggerTokens, triggerPatterns) ← resolveTriggers llama preserved params.grammar
    return { preserved := preserved, triggerTokens := triggerTokens,
             triggerPatterns := triggerPatterns, prefill := prefill }

end Llamad
