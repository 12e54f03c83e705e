import Llamad.Engine.Vocabulary

/-!
# The sampler chain

`SamplerChain` chooses a token from the logits of the last decoded position. The
grammar stays outside the chain: it is asked about the one token the chain chose,
and only a refusal runs the chain again behind it.
-/

namespace Llamad

open Logical

/-- The owned samplers of one generation. -/
structure SamplerChain (llama : Llama) where
  nSelectable : Nat
  chain : llama.Chain
  grammar : Option llama.Grammar

namespace SamplerChain

variable (llama : Llama)

/-- `LLAMA_DEFAULT_SEED`. -/
def defaultSeed : UInt32 := 0xFFFFFFFF

/-- How many of the highest logits the chain can select from. -/
def selectable (params : SamplingParams) : Nat :=
  if params.temperature ≤ 0 then 1
  else if 0 < params.topK then min params.topK.toNat llama.nVocab
  else llama.nVocab

/-- The probability filters, in the order they are added. -/
def stages (params : SamplingParams) : List Stage :=
  if params.temperature ≤ 0 then [.greedy]
  else
    (if 0 < params.topK then [.topK params.topK] else []) ++
    (if params.topP < 1 then [.topP params.topP 1] else []) ++
    (if 0 < params.minP then [.minP params.minP 1] else []) ++
    [.temp params.temperature, .dist (params.seed.getD defaultSeed)]

/-- What a C string holds of a byte string. -/
def cString (text : Bytes) : Bytes := text.takeWhile (· ≠ 0)

/-- The grammar before it has consumed its prefill. -/
def parseGrammar (grammar : GrammarSpec) (resolved : ResolvedTokens) : Option llama.Grammar :=
  if grammar.lazy then
    llama.grammarInitLazyPatterns (cString grammar.grammar) (literal "root")
      (resolved.triggerPatterns.map cString) resolved.triggerTokens
  else
    llama.grammarInit (cString grammar.grammar) (literal "root")

/-- Create the eager or triggered grammar sampler and advance it over the prefill. -/
def addGrammar (grammar : GrammarSpec) (resolved : ResolvedTokens) :
    Except Exception llama.Grammar :=
  match parseGrammar llama grammar resolved with
  | none => .error (.engine .grammarUnparsable)
  | some parsed =>
      match resolved.prefill.foldlM llama.grammarAccept parsed with
      | .ok advanced => .ok advanced
      | .error (.standard what) => .error (.engine (.prefillRejected what))
      | .error .other => .error (.foreign .other)

/-- Allocate and populate a sampler chain. -/
def build (entropy : llama.Entropy) (params : SamplingParams) (resolved : ResolvedTokens) :
    Except Exception (SamplerChain llama) :=
  match llama.chainInit with
  | none => .error (.engine .samplerChain)
  | some chain => do
      let grammar ←
        if params.grammar.grammar.isEmpty then pure none
        else some <$> addGrammar llama params.grammar resolved
      return {
        nSelectable := selectable llama params
        chain := (stages params).foldl (llama.chainAdd entropy) chain
        grammar := grammar }

variable {llama}

/-- The first of the candidates no other one exceeds. -/
def maxElement : List (Candidate llama.Logit) → Option (Candidate llama.Logit)
  | [] => none
  | first :: rest => some (rest.foldl (fun best candidate =>
      if llama.less best.logit candidate.logit then candidate else best) first)

/-- The candidates for the `count` highest logits; the whole vocabulary in token order. -/
def candidates (logits : Token → llama.Logit) (count : Nat) : Candidates llama.Logit :=
  let vocab := (List.range llama.nVocab).map fun id =>
    ({ id := id, logit := logits id, p := llama.zero } : Candidate llama.Logit)
  let data :=
    if count = llama.nVocab then vocab
    else if count = 1 then (maxElement vocab).toList
    else llama.partialSortCopy vocab count
  { data := data, selected := -1, sorted := count < llama.nVocab }

/-- Run the chain, behind the grammar when one is given, over the `count` highest logits. -/
def choose (sampler : SamplerChain llama) (logits : Token → llama.Logit) (count : Nat)
    (behind : Option llama.Grammar) : Except Exception (Token × SamplerChain llama) :=
  let array := candidates logits count
  let array :=
    match behind with
    | some grammar => llama.grammarApply grammar array
    | none => array
  let (array, chain) := llama.chainApply sampler.chain array
  if array.selected < 0 then .error (.engine .noTokenSelected)
  else
    match array.data[array.selected.toNat]? with
    | none => .error (.engine .noTokenSelected)
    | some candidate => .ok (candidate.id, { sampler with chain := chain })

/-- The grammar masks this token. -/
def refuses (grammar : llama.Grammar) (token : Token) : Bool :=
  let single : Candidate llama.Logit := { id := token, logit := llama.one, p := llama.zero }
  let array := llama.grammarApply grammar { data := [single], selected := -1, sorted := false }
  array.data.head?.any fun single => single.logit = llama.negInfinity

/-- Choose the next token and accept it into every sampler. -/
def sample (sampler : SamplerChain llama) (logits : Token → llama.Logit) :
    Except Exception (Token × SamplerChain llama) := do
  let (token, sampler) ← sampler.choose logits sampler.nSelectable none
  match sampler.grammar with
  | none => return (token, { sampler with chain := llama.chainAccept sampler.chain token })
  | some grammar =>
      let (token, sampler) ←
        if refuses grammar token then sampler.choose logits llama.nVocab (some grammar)
        else pure (token, sampler)
      match llama.grammarAccept grammar token with
      | .error error => .error (.foreign error)
      | .ok grammar =>
          return (token, { sampler with
            chain := llama.chainAccept sampler.chain token, grammar := some grammar })

end SamplerChain

end Llamad
