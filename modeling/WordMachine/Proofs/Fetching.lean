-- What a step fetches. The instruction that the machine shows at its program counter is
-- the one that the next step executes, read on its own way and wrapped around the end of
-- memory at the same places.
import WordMachine.Proofs.Outcomes
import WordMachine.Proofs.Relocation
import WordMachine.Proofs.Steps

namespace WordMachine

namespace Machine

variable {δ : Type}

/-! ## The word and its immediate -/

theorem dispatched?_eq_none_iff {m : Machine δ} :
    m.dispatched? = none ↔ m.pendingInterrupt = none ∨ m.interruptsEnabled = false := by
  unfold dispatched?
  split
  · rename_i he
    simp [he]
  · rename_i he
    simp [he]

/-- Without an interrupt to execute, the word at the program counter is fetched. -/
theorem fetch_of_not_dispatched {m : Machine δ} (hd : m.dispatched? = none) :
    m.fetch = (m.memory.readWord m.pc, m.jump (m.pc + 2)) := by
  unfold fetch
  rw [hd]
  rfl

/-- The machine shows no instruction just if the word at its program counter is none. -/
theorem current_eq_error_iff {m : Machine δ} {e : InvalidOpcode} :
    m.current = .error e ↔ Instruction.decode (m.memory.readWord m.pc) = .error e := by
  unfold current
  cases Instruction.decode (m.memory.readWord m.pc) with
  | error d => simp [bind, Except.bind]
  | ok i =>
    simp only [bind, Except.bind, reduceCtorEq, iff_false]
    split
    · simp [pure, Except.pure]
    · simp [pure, Except.pure]

/-- The instruction that the machine shows is decoded from the word at its program counter
and gets its immediate from the word behind it, if it takes one. The machine then stands
behind all its bytes. -/
theorem fetchImmediate_of_current {m : Machine δ} {i : Instruction UInt16}
    (h : m.current = .ok i) :
    ∃ j, Instruction.decode (m.memory.readWord m.pc) = .ok j ∧
      (m.jump (m.pc + 2)).fetchImmediate j = (i, m.jump (m.pc + UInt16.ofNat i.byteLength)) := by
  unfold current at h
  obtain ⟨j, hj, hi⟩ := bind_eq_ok_iff.1 h
  refine ⟨j, hj, ?_⟩
  unfold fetchImmediate
  -- Both ways of reading ask the operation whether a second word belongs to it.
  split at hi
  · rename_i ht
    rw [pure_eq_ok_iff] at hi
    subst hi
    have hlen : UInt16.ofNat
        ({ j with immediate := some (m.memory.readWord (m.pc + 2)) } : Instruction UInt16).byteLength
          = 2 + 2 := by
      simp only [Instruction.byteLength, Opcode.byteLength, Shape.byteLength, ht, if_true]
      rfl
    rw [if_pos ht, hlen, ← UInt16.add_assoc]
    rfl
  · rename_i ht
    rw [pure_eq_ok_iff] at hi
    subst hi
    have hlen : UInt16.ofNat i.byteLength = 2 := by
      simp only [Instruction.byteLength, Opcode.byteLength, Shape.byteLength, ht]
      rfl
    rw [if_neg ht, hlen]

/-! ## The step -/

variable [Device δ]

/-- A step without an interrupt to execute. -/
theorem step_of_not_dispatched {m : Machine δ} (hr : m.halted = false)
    (hd : m.dispatched? = none) :
    m.step = (m.jump (m.pc + 2)).executeWord (m.memory.readWord m.pc) m.pc := by
  rw [step_of_running hr, fetch_of_not_dispatched hd]

/-- The next step of a machine is what its current instruction says, which is looked at
without a change to the machine. -/
structure StepsAsShown (m : Machine δ) : Prop where
  /-- The step executes the instruction, with the program counter behind its bytes, and
  takes its cycles. -/
  success : ∀ i after, m.current = .ok i →
    (m.jump (m.pc + UInt16.ofNat i.byteLength)).execute i m.pc = (.ok (), after) →
    m.step = (.ok i.opcode.cycles, after)
  /-- If the instruction fails, its fault stops the machine. -/
  failure : ∀ i e after, m.current = .ok i →
    (m.jump (m.pc + UInt16.ofNat i.byteLength)).execute i m.pc = (.error e, after) →
    m.step = (.error e, { after with halted := true })
  /-- A word that is no instruction stops the machine behind it. -/
  invalid : ∀ e, m.current = .error e → e.word = m.memory.readWord m.pc ∧
    m.step = (.error (.invalidOpcode e.word m.pc), { m with pc := m.pc + 2, halted := true })

end Machine

/-- A running machine without an interrupt to execute steps as its current instruction
says, wherever in memory that stands. -/
theorem a_step_executes_the_current_instruction {δ : Type} [Device δ] (m : Machine δ)
    (hr : m.halted = false) (hd : m.pendingInterrupt = none ∨ m.interruptsEnabled = false) :
    m.StepsAsShown := by
  have hs := Machine.step_of_not_dispatched hr (Machine.dispatched?_eq_none_iff.2 hd)
  refine ⟨?_, ?_, ?_⟩
  · intro i after hi hx
    obtain ⟨j, hj, hf⟩ := Machine.fetchImmediate_of_current hi
    rw [hs]
    unfold Machine.executeWord
    simp only [hj, hf, hx]
  · intro i e after hi hx
    obtain ⟨j, hj, hf⟩ := Machine.fetchImmediate_of_current hi
    rw [hs]
    unfold Machine.executeWord
    simp only [hj, hf, hx]
    rfl
  · intro e he
    have hj := Machine.current_eq_error_iff.1 he
    have hw := Instruction.word_of_decode_error hj
    refine ⟨hw, ?_⟩
    rw [hs, hw]
    unfold Machine.executeWord
    simp only [hj]
    rfl

/-- A jump that begins at the last address goes on at address zero, with its immediate
there. -/
theorem a_jump_around_the_end_of_memory_is_executed :
    let i : Instruction UInt16 := ⟨.jump, none, none, some 0x1234⟩
    let m := (Machine.boot .zeroed NoDevice.mk).loaded ([] ++ i.toBytes ++ []) 0xFFFF 0
    m.halted = false ∧ m.pendingInterrupt = none ∧
      m.step = (.ok 2, { m with pc := 0x1234 }) := by
  intro i m
  have hi : m.current = .ok i := Machine.current_loaded (by decide) (by decide) _ _
  refine ⟨rfl, rfl, ?_⟩
  exact (a_step_executes_the_current_instruction m rfl (.inl rfl)).success i _ hi rfl

end WordMachine
