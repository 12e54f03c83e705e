import Llamad.Logical.Occurrence

/-!
# Properties of every entry of a log

A log grows at its end. `Throughout` says something of every entry and of what precedes
it, and is checked where an entry is appended.
-/

namespace Llamad.Logical

variable {Entry : Type}

/-- Every entry satisfies `holds` together with the entries in front of it. -/
def Throughout (holds : List Entry → Entry → Prop) (log : List Entry) : Prop :=
  ∀ before entry after, log = before ++ entry :: after → holds before entry

namespace Throughout

variable {holds : List Entry → Entry → Prop} {log : List Entry} {entry : Entry}

theorem nil : Throughout holds [] := by
  intro before entry after same
  cases before <;> cases same

theorem snoc (throughout : Throughout holds log) (here : holds log entry) :
    Throughout holds (log ++ [entry]) := by
  intro before other after same
  obtain ⟨rfl, rfl, rfl⟩ | ⟨earlier, rfl, rfl⟩ := append_singleton_eq_cut same
  · exact here
  · exact throughout before other earlier rfl

end Throughout

end Llamad.Logical
