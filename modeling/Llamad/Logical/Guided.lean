import Llamad.Logical.History
import Mathlib.Computability.Language

/-!
# Texts guided by a language

Tokens spell a text piece by piece. A sequence of them is guided by a language when each
was allowed after those in front of it: its piece leads further into a sentence, or it
ends the text where a sentence is complete.
-/

namespace Llamad.Logical

variable {Token Symbol : Type}

/-- Some sentence of the language begins with the text. -/
def Begins (language : Language Symbol) (text : List Symbol) : Prop :=
  ∃ rest, text ++ rest ∈ language

theorem Begins.of_mem {language : Language Symbol} {text : List Symbol}
    (complete : text ∈ language) : Begins language text :=
  ⟨[], by rwa [List.append_nil]⟩

/-- What each token spells, and which tokens end a text. -/
structure Spelling (Token Symbol : Type) where
  piece : Token → List Symbol
  ends : Token → Bool

namespace Spelling

variable (spelling : Spelling Token Symbol) (language : Language Symbol)

/-- What a token adds to a text; one that ends it adds nothing. -/
def adds (token : Token) : List Symbol :=
  if spelling.ends token then [] else spelling.piece token

/-- The text some tokens spell. -/
def text (tokens : List Token) : List Symbol := tokens.flatMap spelling.adds

/-- After this text the token has a continuation; one that spells nothing has none. -/
def Allows (text : List Symbol) (token : Token) : Prop :=
  if spelling.ends token then text ∈ language
  else spelling.piece token ≠ [] ∧ Begins language (text ++ spelling.piece token)

/-- Every token was allowed after those in front of it. -/
def Guided (tokens : List Token) : Prop :=
  Throughout (fun before token => spelling.Allows language (spelling.text before) token) tokens

variable {spelling language} {tokens front : List Token} {token : Token}

@[simp] theorem text_append (tokens more : List Token) :
    spelling.text (tokens ++ more) = spelling.text tokens ++ spelling.text more :=
  List.flatMap_append

@[simp] theorem text_singleton (token : Token) : spelling.text [token] = spelling.adds token :=
  List.flatMap_singleton _ _

/-- Tokens that end a text can be left out of it. -/
theorem text_filter (tokens : List Token) :
    spelling.text (tokens.filter fun token => !spelling.ends token) = spelling.text tokens := by
  induction tokens with
  | nil => rfl
  | cons token tokens inductionHypothesis =>
      simp only [text, List.flatMap_cons] at inductionHypothesis ⊢
      cases finished : spelling.ends token <;>
        simp [finished, adds, inductionHypothesis]

/-- An allowed token leaves the beginning of a sentence. -/
theorem Allows.begins {text : List Symbol} (allows : spelling.Allows language text token) :
    Begins language (text ++ spelling.adds token) := by
  rw [Allows] at allows
  rw [adds]
  split at allows
  · rw [if_pos ‹_›, List.append_nil]
    exact .of_mem allows
  · rw [if_neg ‹_›]
    exact allows.2

/-- A token that ends a text is allowed only after a sentence. -/
theorem Allows.complete {text : List Symbol} (allows : spelling.Allows language text token)
    (finished : spelling.ends token = true) : text ∈ language := by
  rwa [Allows, if_pos finished] at allows

namespace Guided

theorem snoc (guided : spelling.Guided language tokens)
    (allows : spelling.Allows language (spelling.text tokens) token) :
    spelling.Guided language (tokens ++ [token]) :=
  Throughout.snoc guided allows

/-- What guided tokens spell is the beginning of a sentence, and so is what was spelled
before. -/
theorem begins (guided : spelling.Guided language tokens) (part : front <+: tokens)
    (nonempty : front ≠ []) : Begins language (spelling.text front) := by
  obtain ⟨after, rfl⟩ := part
  obtain ⟨before, last, rfl⟩ := (List.eq_nil_or_concat' front).resolve_left nonempty
  have allows : spelling.Allows language (spelling.text before) last :=
    guided before last after (by simp)
  rw [text_append, text_singleton]
  exact allows.begins

/-- Guided tokens of which the last ends the text spell a sentence. -/
theorem complete (guided : spelling.Guided language (tokens ++ [token]))
    (finished : spelling.ends token = true) : spelling.text (tokens ++ [token]) ∈ language := by
  have allows : spelling.Allows language (spelling.text tokens) token := guided tokens token [] rfl
  rw [text_append, text_singleton, adds, if_pos finished, List.append_nil]
  exact allows.complete finished

end Guided

end Spelling

end Llamad.Logical
