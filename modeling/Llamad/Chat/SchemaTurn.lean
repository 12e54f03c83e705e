import Llamad.Chat.Format

/-!
# The schema turn

A request with a response schema has the schema spelled out in its conversation. The
instruction is meant to join the system turn the history has, or to be a new system turn
where it has none, so that the model sees one system section (`OneSection`). `render`
looks for that turn at the front of the history alone, and the results here say for which
histories this is enough.
-/

namespace Llamad

open Logical Semantics Program

/-- What the model is told about a response schema. -/
def schemaInstruction (responseJsonSchema : Bytes) : Bytes :=
  literal "Reply with a single JSON object that matches this JSON Schema:\n" ++
    responseJsonSchema

/-- A turn of the system. -/
def CommonChatMsg.isSystem (turn : CommonChatMsg) : Bool := turn.role = literal "system"

/-- A turn that contains a text. -/
def CommonChatMsg.carries (text : Bytes) (turn : CommonChatMsg) : Bool :=
  decide (text <:+: turn.content)

/-- `handed` is `history` with the instruction in exactly one turn, a system turn that is
new or that the instruction was added to, and with a new system turn only where `history`
has none. -/
structure OneSection (instruction : Bytes) (history handed : List CommonChatMsg) : Prop where
  turn : ∃ before turn after, handed = before ++ turn :: after ∧
    turn.isSystem ∧ turn.carries instruction ∧
    (∀ other ∈ before ++ after, ¬ other.carries instruction) ∧
    (history = before ++ after ∨ ∃ old more, history = before ++ old :: after ∧
      turn = { old with content := old.content ++ more })
  systems : handed.countP CommonChatMsg.isSystem =
    max 1 (history.countP CommonChatMsg.isSystem)

namespace OneSection

variable {instruction : Bytes} {history : List CommonChatMsg} {handed : List CommonChatMsg}

/-- Exactly one turn carries the instruction. -/
theorem countP_carries (section_ : OneSection instruction history handed) :
    handed.countP (CommonChatMsg.carries instruction) = 1 := by
  obtain ⟨before, turn, after, rfl, _, carries, others, _⟩ := section_.turn
  have before_ : before.countP (CommonChatMsg.carries instruction) = 0 :=
    List.countP_eq_zero.mpr fun other among => others other (List.mem_append_left _ among)
  have after_ : after.countP (CommonChatMsg.carries instruction) = 0 :=
    List.countP_eq_zero.mpr fun other among => others other (List.mem_append_right _ among)
  rw [List.countP_append, List.countP_cons_of_pos carries, before_, after_]

/-- The instruction joined to a leading system turn. -/
theorem joined {first : CommonChatMsg} {rest : List CommonChatMsg} {more : Bytes}
    (leading : first.isSystem) (carries : instruction <:+: more)
    (others : ∀ other ∈ rest, ¬ other.carries instruction) :
    OneSection instruction (first :: rest)
      ({ first with content := first.content ++ more } :: rest) where
  turn := by
    refine ⟨[], _, rest, rfl, leading, ?_, others, .inr ⟨first, more, rfl, rfl⟩⟩
    exact decide_eq_true (carries.trans (List.suffix_append _ _).isInfix)
  systems := by
    have stays : CommonChatMsg.isSystem { first with content := first.content ++ more } := leading
    rw [List.countP_cons_of_pos leading, List.countP_cons_of_pos stays]
    exact (max_eq_right (Nat.le_add_left 1 _)).symm

/-- The instruction as a system turn of its own. -/
theorem alone (others : ∀ other ∈ history, ¬ other.isSystem ∧ ¬ other.carries instruction) :
    OneSection instruction history
      ({ role := literal "system", content := instruction } :: history) where
  turn := by
    refine ⟨[], _, history, rfl, decide_eq_true rfl, decide_eq_true List.infix_rfl, ?_, .inl rfl⟩
    exact fun other among => (others other among).2
  systems := by
    have none_ : history.countP CommonChatMsg.isSystem = 0 :=
      List.countP_eq_zero.mpr fun other among => (others other among).1
    have new : CommonChatMsg.isSystem { role := literal "system", content := instruction } :=
      decide_eq_true rfl
    rw [List.countP_cons_of_pos new, none_]
    rfl

end OneSection

/-- The histories in which the instruction finds its one place at the front: those with a
leading system turn, and those without any; and no other turn carries the instruction. -/
def FrontSystem (instruction : Bytes) (history : List CommonChatMsg) : Prop :=
  (∃ first rest, history = first :: rest ∧ first.isSystem ∧
    ∀ other ∈ rest, ¬ other.carries instruction) ∨
  ∀ other ∈ history, ¬ other.isSystem ∧ ¬ other.carries instruction

/-- An item that counts, in a list in which one item counts, is the only one. -/
theorem others_of_countP {α : Type} {counts : α → Bool} {item : α} {rest : List α}
    (one : (item :: rest).countP counts = 1) (here : counts item) :
    ∀ other ∈ rest, ¬ counts other := by
  rw [List.countP_cons_of_pos here] at one
  exact List.countP_eq_zero.mp (Nat.succ.inj one)

namespace ChatFormat

/-- The leading turn of a history decides where the instruction goes. -/
theorem addInstruction_cons (schema : Bytes) (first : CommonChatMsg) (rest : List CommonChatMsg) :
    addInstruction schema (first :: rest) =
      if first.isSystem then
        { first with
          content := first.content ++ (literal "\n\n" ++ schemaInstruction schema) } :: rest
      else { role := literal "system", content := schemaInstruction schema } :: first :: rest := by
  by_cases leading : first.role = literal "system"
  · simp [addInstruction, CommonChatMsg.isSystem, leading, schemaInstruction]
  · simp [addInstruction, CommonChatMsg.isSystem, leading, schemaInstruction]

/-- The instruction is in one system section exactly for the histories that begin with
their system turn or have none. -/
theorem addInstruction_oneSection_iff (schema : Bytes) (history : List CommonChatMsg) :
    OneSection (schemaInstruction schema) history (addInstruction schema history) ↔
      FrontSystem (schemaInstruction schema) history := by
  cases history with
  | nil => exact ⟨fun _ => .inr (List.forall_mem_nil _), fun _ => .alone (List.forall_mem_nil _)⟩
  | cons first rest =>
      have joins : schemaInstruction schema <:+: literal "\n\n" ++ schemaInstruction schema :=
        (List.suffix_append _ _).isInfix
      rw [addInstruction_cons]
      by_cases leading : first.isSystem
      · rw [if_pos leading]
        constructor
        · intro section_
          refine .inl ⟨first, rest, rfl, leading, others_of_countP section_.countP_carries ?_⟩
          exact decide_eq_true (joins.trans (List.suffix_append _ _).isInfix)
        · rintro (⟨_, _, same, _, others⟩ | nowhere)
          · cases same
            exact .joined leading joins others
          · exact absurd leading (nowhere first List.mem_cons_self).1
      · rw [if_neg leading]
        constructor
        · intro section_
          have carried := others_of_countP section_.countP_carries (decide_eq_true List.infix_rfl)
          have systems := section_.systems
          have new : CommonChatMsg.isSystem
              { role := literal "system", content := schemaInstruction schema } :=
            decide_eq_true rfl
          rw [List.countP_cons_of_pos new] at systems
          have none_ : (first :: rest).countP CommonChatMsg.isSystem = 0 := by omega
          exact .inr fun other among =>
            ⟨List.countP_eq_zero.mp none_ other among, carried other among⟩
        · rintro (⟨_, _, same, isSystem, _⟩ | nowhere)
          · cases same
            exact absurd isSystem leading
          · exact .alone nowhere

/-- A history that renders is handed to the template as `inputs` has it. -/
theorem render_handed {common : Common} {format : ChatFormat common} {messages : List ChatMessage}
    {tools : List Tool} {schema : Bytes} {rendered : RenderedChat common}
    (rendersTo : format.render messages tools schema = .ok rendered) :
    ∃ commonTools params, tools.mapM (Tool.toCommon common) = .ok commonTools ∧
      format.apply (format.inputs messages commonTools schema) = .ok params ∧
      rendered.prompt = params.prompt := by
  obtain ⟨_, _, rendersTo⟩ := except_bind_eq_ok_iff.mp rendersTo
  obtain ⟨commonTools, converted, rendersTo⟩ := except_bind_eq_ok_iff.mp rendersTo
  obtain ⟨params, applied, rendersTo⟩ := except_bind_eq_ok_iff.mp rendersTo
  obtain ⟨parser, _, returned⟩ := except_bind_eq_ok_iff.mp rendersTo
  cases returned
  exact ⟨commonTools, params, converted, applied, rfl⟩

/-- The history a schema turn hands to the template has the instruction in one system
section, every other turn as it was and no second system turn, exactly when the history
it was made of begins with its system turn or has none. -/
theorem inputs_oneSection_iff {common : Common} (format : ChatFormat common)
    (messages : List ChatMessage) (tools : List CommonChatTool) {schema : Bytes}
    (asked : schema ≠ []) :
    OneSection (schemaInstruction schema) (messages.map ChatMessage.toCommon)
        (format.inputs messages tools schema).messages ↔
      FrontSystem (schemaInstruction schema) (messages.map ChatMessage.toCommon) := by
  have handed : (format.inputs messages tools schema).messages =
      addInstruction schema (messages.map ChatMessage.toCommon) := by
    simp [inputs, asked]
  rw [handed]
  exact addInstruction_oneSection_iff schema _

/-- A conversation that begins with its system turn, asked for an object. -/
theorem inputs_oneSection_iff_leading :
    OneSection (schemaInstruction (literal "\x7b\"type\":\"object\"\x7d"))
      [{ role := literal "system", content := literal "Be terse." },
        { role := literal "user", content := literal "Hi" }]
      [{ role := literal "system"
         content := literal "Be terse." ++
           (literal "\n\n" ++ schemaInstruction (literal "\x7b\"type\":\"object\"\x7d")) },
        { role := literal "user", content := literal "Hi" }] :=
  (@inputs_oneSection_iff (.parsing (fun _ => true) fun _ _ => .ok {}) ⟨(), false⟩
    [{ role := literal "system", content := literal "Be terse." },
      { role := literal "user", content := literal "Hi" }] [] _
    (by decide +kernel)).mpr
    (.inl ⟨_, _, rfl, by decide +kernel, by decide +kernel⟩)

/-- A system turn behind a user turn: the history renders, and the template is handed two
system turns. -/
theorem inputs_not_oneSection :
    ∃ format : ChatFormat (.parsing (fun _ => true) fun _ _ => .ok {}),
      (∃ rendered, format.render
        [{ role := literal "user", content := literal "Hi" },
          { role := literal "system", content := literal "Be terse." }] []
        (literal "\x7b\"type\":\"object\"\x7d") = .ok rendered) ∧
      ¬ OneSection (schemaInstruction (literal "\x7b\"type\":\"object\"\x7d"))
        ([{ role := literal "user", content := literal "Hi" },
          { role := literal "system", content := literal "Be terse." }].map ChatMessage.toCommon)
        (format.inputs
          [{ role := literal "user", content := literal "Hi" },
            { role := literal "system", content := literal "Be terse." }] []
          (literal "\x7b\"type\":\"object\"\x7d")).messages := by
  refine ⟨⟨(), false⟩, ⟨_, rfl⟩, fun section_ => ?_⟩
  have systems := section_.systems
  revert systems
  decide +kernel

end ChatFormat

end Llamad
