import Llamad.Engine.Generate

/-!
# The record agrees with the memory

After every operation on the cache, in every sequence of generations and however
each of them ends, `cached` is as long as the memory and names the token at every
position the memory holds.
-/

namespace Llamad

open Semantics Program Impl

variable {llama : Llama} {Client : Type}

/-- The record is as long as the memory and right wherever the memory holds a token. -/
structure Memory.Recorded (memory : Memory) (cached : List Token) : Prop where
  hi : memory.hi = cached.length
  held : ∀ position token, memory.Holds position token → cached[position]? = some token

/-- The step left record and memory in agreement, and a prefix it kept is what the memory
holds. -/
structure Entry.Sound (entry : Entry llama) : Prop where
  recorded : entry.memory.Recorded entry.cached
  kept : ∀ prompt count, entry.step = .keptPrefix prompt count → 0 < count →
    entry.memory.hi = count ∧ ∀ position token,
      entry.memory.Holds position token ↔ position < count ∧ prompt[position]? = some token

/-- Record and memory agree now and agreed after every step of the request. -/
structure Impl.Faithful (impl : Impl llama) : Prop where
  recorded : impl.context.memory.Recorded impl.cached
  logged : ∀ entry ∈ impl.log, entry.Sound

private theorem getElem?_take_eq_some_iff {tokens : List Token} {keep position : Nat}
    {token : Token} :
    (tokens.take keep)[position]? = some token ↔
      position < keep ∧ tokens[position]? = some token := by
  rw [List.getElem?_take]
  split <;> simp_all

namespace Memory

theorem Recorded.empty : Memory.Recorded {} [] where
  hi := rfl
  held := by simp [Holds]

theorem Recorded.extend {memory : Memory} {cached : List Token}
    (recorded : memory.Recorded cached) (batch : List Token) (evicted : Nat) :
    (memory.extend batch evicted).Recorded (cached ++ batch) where
  hi := by
    have length := recorded.hi
    simp only [Memory.hi, Memory.extend, List.length_append] at length ⊢
    omega
  held := by
    rintro position token ⟨above, found⟩
    have length := recorded.hi
    simp only [Memory.hi] at length
    simp only [Memory.extend] at above found
    by_cases inside : position < memory.tokens.length
    · rw [List.getElem?_append_left inside] at found
      rw [List.getElem?_append_left (by omega)]
      exact recorded.held position token ⟨by omega, found⟩
    · rw [List.getElem?_append_right (by omega)] at found
      rw [List.getElem?_append_right (by omega), ← length]
      exact found

theorem Recorded.truncate {memory : Memory} {cached : List Token}
    (recorded : memory.Recorded cached) (keep : Nat) :
    (memory.truncate keep).Recorded (cached.take keep) where
  hi := by
    have length := recorded.hi
    simp only [Memory.hi, Memory.truncate, List.length_take] at length ⊢
    omega
  held := by
    rintro position token ⟨above, found⟩
    simp only [Memory.truncate, getElem?_take_eq_some_iff] at above found ⊢
    exact ⟨found.1, recorded.held position token ⟨above, found.2⟩⟩

theorem lo_eq_zero_of_posMin {memory : Memory} (first : memory.posMin = 0) : memory.lo = 0 := by
  rw [posMin] at first
  split at first
  · exact_mod_cast first
  · cases first

/-- A memory that has let nothing go is its record. -/
theorem Recorded.tokens_eq {memory : Memory} {cached : List Token}
    (recorded : memory.Recorded cached) (first : memory.lo = 0) : memory.tokens = cached := by
  apply List.ext_getElem?
  intro position
  cases found : memory.tokens[position]? with
  | some token => exact (recorded.held position token ⟨by omega, found⟩).symm
  | none =>
      have length := recorded.hi
      simp only [Memory.hi] at length
      rw [List.getElem?_eq_none_iff] at found
      exact (List.getElem?_eq_none (by omega)).symm

/-- A truncated memory that still holds position 0 holds exactly the shared prefix. -/
theorem Recorded.holds_truncate_iff {memory : Memory} {cached prompt : List Token} {keep : Nat}
    (recorded : memory.Recorded cached) (first : (memory.truncate keep).posMin = 0)
    (short : keep ≤ cached.length) (same : cached.take keep = prompt.take keep)
    (position : Nat) (token : Token) :
    (memory.truncate keep).Holds position token ↔
      position < keep ∧ prompt[position]? = some token := by
  have inPrompt : ∀ token, (cached.take keep)[position]? = some token ↔
      position < keep ∧ prompt[position]? = some token := by
    intro token
    rw [same]
    exact getElem?_take_eq_some_iff
  have fromZero := lo_eq_zero_of_posMin first
  constructor
  · intro holds
    exact (inPrompt token).mp ((recorded.truncate keep).held position token holds)
  · rintro ⟨inside, found⟩
    have length := recorded.hi
    simp only [Memory.hi] at length
    obtain ⟨other, stored⟩ : ∃ other, (memory.truncate keep).tokens[position]? = some other := by
      have bound : position < (memory.truncate keep).tokens.length := by
        simp only [Memory.truncate, List.length_take]
        omega
      exact ⟨_, List.getElem?_eq_getElem bound⟩
    have holds : (memory.truncate keep).Holds position other := ⟨by omega, stored⟩
    have recordedOther := (recorded.truncate keep).held position other holds
    rw [(inPrompt token).mpr ⟨inside, found⟩] at recordedOther
    cases recordedOther
    exact holds

end Memory

namespace Impl

/-- A step that leaves agreement behind keeps it for the whole log. -/
theorem Faithful.record {impl : Impl llama} {step : Step llama}
    (recorded : impl.context.memory.Recorded impl.cached)
    (logged : ∀ entry ∈ impl.log, entry.Sound)
    (kept : ∀ prompt count, step = .keptPrefix prompt count → 0 < count →
      impl.context.memory.hi = count ∧ ∀ position token,
        impl.context.memory.Holds position token ↔
          position < count ∧ prompt[position]? = some token) :
    Faithful (Impl.record step impl) where
  recorded := recorded
  logged := by
    intro entry member
    obtain member | member := List.mem_append.mp member
    · exact logged entry member
    · rw [List.mem_singleton.mp member]
      exact ⟨recorded, kept⟩

theorem Faithful.emptied {impl : Impl llama} (faithful : Faithful impl) (host : llama.Host) :
    Faithful (Impl.emptied host impl) :=
  .record .empty faithful.logged (by rintro _ _ ⟨⟩)

/-- Every operation of a generation keeps record and memory in agreement. -/
theorem Faithful.invariant : @Impl.Invariant llama Faithful where
  keepPrefix := by
    intro prompt impl faithful
    obtain ⟨host, ran⟩ | ⟨host, positive, first, ran⟩ := keepPrefix_cases prompt impl
    · rw [ran]
      refine .record .empty (faithful.emptied host).logged ?_
      rintro _ _ ⟨⟩ positive
      exact absurd positive (Nat.lt_irrefl 0)
    · rw [ran]
      obtain ⟨short, _, same⟩ := reusablePrefix_spec impl.cached prompt
      refine .record (faithful.recorded.truncate _) faithful.logged ?_
      rintro _ _ ⟨⟩ _
      refine ⟨?_, faithful.recorded.holds_truncate_iff first short same⟩
      have length := faithful.recorded.hi
      simp only [Memory.hi, Memory.truncate, List.length_take] at length ⊢
      omega
  decode := by
    intro batch impl faithful
    obtain ⟨host, evicted, logits, _, ran⟩ | ⟨host, ret, nonzero, leftover, _, ran⟩ |
      ⟨host, error, leftover, _, ran⟩ := decode_cases batch impl
    · rw [ran]
      exact .record (faithful.recorded.extend batch evicted) faithful.logged (by rintro _ _ ⟨⟩)
    · rw [ran]
      exact .record .empty (faithful.emptied host).logged (by rintro _ _ ⟨⟩)
    · rw [ran]
      exact .record .empty (faithful.emptied host).logged (by rintro _ _ ⟨⟩)
  sampled := by
    intro logits token impl faithful
    exact .record faithful.recorded faithful.logged (by rintro _ _ ⟨⟩)

end Impl

variable (config : EngineConfig)

end Llamad
