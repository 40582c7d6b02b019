-- Runs. A bounded run can be cut in two, a fault or a halt ends it for good, and the
-- unbounded run is what the bounded ones come to.
import WordMachine.Proofs.Outcomes
import WordMachine.Proofs.Steps

namespace WordMachine

namespace Machine

variable {δ : Type} [Device δ]

/-! ## One step and the rest -/

/-- The cycles before a run only add to its own. -/
theorem runFrom_eq (cycles limit : Nat) (m : Machine δ) :
    m.runFrom cycles limit = ((m.runFor limit).1.map (cycles + ·), (m.runFor limit).2) := by
  unfold runFor
  induction limit generalizing cycles m with
  | zero => simp [runFrom, Except.map]
  | succ limit ih =>
    simp only [runFrom]
    split
    · simp [Except.map]
    · generalize m.step = r
      obtain ⟨e | c, m'⟩ := r
      · rfl
      · simp only
        rw [ih (cycles + c), ih (0 + c)]
        cases (m'.runFrom 0 limit).1 with
        | error e => rfl
        | ok d => simp [Except.map, Nat.add_assoc]

theorem runFor_of_halted {m : Machine δ} (h : m.halted = true) (limit : Nat) :
    m.runFor limit = (.ok 0, m) := by
  unfold runFor
  cases limit with
  | zero => rfl
  | succ limit => rw [runFrom, if_pos h]

theorem runFor_succ_of_ok {m next : Machine δ} {c : Nat} (h : m.halted = false)
    (hs : m.step = (.ok c, next)) (limit : Nat) :
    m.runFor (limit + 1) = ((next.runFor limit).1.map (c + ·), (next.runFor limit).2) := by
  unfold runFor
  rw [runFrom, h, hs]
  simp only [Bool.false_eq_true, if_false, Nat.zero_add]
  exact runFrom_eq c limit next

theorem runFor_succ_of_error {m next : Machine δ} {e : Fault} (h : m.halted = false)
    (hs : m.step = (.error e, next)) (limit : Nat) :
    m.runFor (limit + 1) = (.error e, next) := by
  unfold runFor
  rw [runFrom, h, hs]
  rfl

/-- A run that ended well began in a stopped machine, or with a step that succeeded. -/
theorem runFor_succ_eq_ok {m after : Machine δ} {limit c : Nat}
    (h : m.runFor (limit + 1) = (.ok c, after)) :
    (m.halted = true ∧ c = 0 ∧ after = m) ∨
      ∃ d k next, m.halted = false ∧ m.step = (.ok d, next) ∧
        next.runFor limit = (.ok k, after) ∧ c = d + k := by
  cases hm : m.halted with
  | true =>
    rw [runFor_of_halted hm] at h
    cases h
    exact .inl ⟨rfl, rfl, rfl⟩
  | false =>
    cases hs : m.step with
    | mk result next =>
      cases result with
      | error e =>
        rw [runFor_succ_of_error hm hs] at h
        cases h
      | ok d =>
        rw [runFor_succ_of_ok hm hs, Prod.mk.injEq, map_eq_ok_iff] at h
        obtain ⟨⟨k, hk, hc⟩, ha⟩ := h
        exact .inr ⟨d, k, next, rfl, rfl, Prod.ext hk ha, hc⟩

/-- A run that ended in a fault has it from its first step or from the run behind that. -/
theorem runFor_succ_eq_error {m stopped : Machine δ} {limit : Nat} {e : Fault}
    (h : m.runFor (limit + 1) = (.error e, stopped)) :
    m.halted = false ∧ (m.step = (.error e, stopped) ∨
      ∃ d next, m.step = (.ok d, next) ∧ next.runFor limit = (.error e, stopped)) := by
  cases hm : m.halted with
  | true =>
    rw [runFor_of_halted hm] at h
    cases h
  | false =>
    refine ⟨rfl, ?_⟩
    cases hs : m.step with
    | mk result next =>
      cases result with
      | error f =>
        rw [runFor_succ_of_error hm hs] at h
        exact .inl h
      | ok d =>
        rw [runFor_succ_of_ok hm hs, Prod.mk.injEq, map_eq_error_iff] at h
        exact .inr ⟨d, next, rfl, Prod.ext h.1 h.2⟩

theorem halted_of_step_eq_error {m stopped : Machine δ} {e : Fault}
    (h : m.step = (.error e, stopped)) : stopped.halted = true := by
  have hn := halted_of_step_error (m := m) (e := e) (by rw [h])
  unfold Machine.next at hn
  rwa [h] at hn

/-! ## Runs in two parts -/

/-- A run that ended well is taken up where it was left. -/
theorem runFor_add_of_ok {m middle : Machine δ} {a c : Nat} (h : m.runFor a = (.ok c, middle))
    (b : Nat) :
    m.runFor (a + b) = ((middle.runFor b).1.map (c + ·), (middle.runFor b).2) := by
  induction a generalizing m c with
  | zero =>
    cases h
    rw [Nat.zero_add]
    exact runFrom_eq 0 b middle
  | succ a ih =>
    rcases runFor_succ_eq_ok h with ⟨hm, rfl, rfl⟩ | ⟨d, k, next, hm, hs, hn, rfl⟩
    · rw [runFor_of_halted hm, runFor_of_halted hm]
      rfl
    · rw [Nat.succ_add, runFor_succ_of_ok hm hs, ih hn]
      cases (middle.runFor b).1 with
      | error e => rfl
      | ok j => simp [Except.map, Nat.add_assoc]

/-- A run that ended in a fault is not longer than that. -/
theorem runFor_add_of_error {m stopped : Machine δ} {a : Nat} {e : Fault}
    (h : m.runFor a = (.error e, stopped)) (b : Nat) :
    m.runFor (a + b) = (.error e, stopped) := by
  induction a generalizing m with
  | zero => cases h
  | succ a ih =>
    obtain ⟨hm, hs | ⟨d, next, hs, hn⟩⟩ := runFor_succ_eq_error h
    · rw [Nat.succ_add, runFor_succ_of_error hm hs]
    · rw [Nat.succ_add, runFor_succ_of_ok hm hs, ih hn]
      rfl

/-- A fault leaves the machine stopped. -/
theorem halted_of_runFor_error {m stopped : Machine δ} {a : Nat} {e : Fault}
    (h : m.runFor a = (.error e, stopped)) : stopped.halted = true := by
  induction a generalizing m with
  | zero => cases h
  | succ a ih =>
    obtain ⟨-, hs | ⟨d, next, -, hn⟩⟩ := runFor_succ_eq_error h
    · exact halted_of_step_eq_error hs
    · exact ih hn

/-! ## The unbounded run -/

theorem runOn_of_halted {m : Machine δ} (h : m.halted = true) (cycles : Nat) :
    m.runOn cycles = some (.ok cycles, m) := by
  rw [runOn, if_pos h]

/-- The unbounded run ends just if a bounded one leaves the machine stopped, and then as
that one does. -/
theorem runOn_eq_some_iff {m : Machine δ} {cycles : Nat} {r : Except Fault Nat × Machine δ} :
    m.runOn cycles = some r ↔ ∃ limit, m.runFrom cycles limit = r ∧ r.2.halted = true := by
  constructor
  · -- By induction on the recursion of the run, whose results are those of one step more.
    intro h
    refine runOn.partial_correctness
      (fun cycles (m : Machine δ) r => ∃ limit, m.runFrom cycles limit = r ∧ r.2.halted = true)
      ?_ cycles m r h
    intro run ih cycles m r h
    split at h
    · rename_i hm
      cases h
      exact ⟨0, rfl, hm⟩
    · rename_i hm
      split at h
      · rename_i c next hs
        obtain ⟨limit, hr, hh⟩ := ih _ _ _ h
        refine ⟨limit + 1, ?_, hh⟩
        rw [runFrom, if_neg hm, hs]
        exact hr
      · rename_i e next hs
        cases h
        exact ⟨1, by rw [runFrom, if_neg hm, hs], halted_of_step_eq_error hs⟩
  · rintro ⟨limit, hr, hh⟩
    induction limit generalizing cycles m with
    | zero =>
      cases hr
      exact runOn_of_halted hh cycles
    | succ limit ih =>
      rw [runFrom] at hr
      rw [runOn]
      split at hr
      · rename_i hm
        rw [if_pos hm, hr]
      · rename_i hm
        rw [if_neg hm]
        generalize m.step = s at hr ⊢
        obtain ⟨e | c, next⟩ := s
        · simp only at hr ⊢
          rw [hr]
        · exact ih hr

theorem run_eq_some_iff {m : Machine δ} {r : Except Fault Nat × Machine δ} :
    m.run = some r ↔ ∃ limit, m.runFor limit = r ∧ r.2.halted = true :=
  runOn_eq_some_iff

/-- How the runs of a machine fit together. -/
structure RunsCompose (m : Machine δ) : Prop where
  /-- A run that ended well goes on where it was left: it ends in the same state as both
  parts, with the cycles of both or the fault of the second. -/
  resumed : ∀ a b c middle, m.runFor a = (.ok c, middle) →
    m.runFor (a + b) = ((middle.runFor b).1.map (c + ·), (middle.runFor b).2)
  /-- A run that ended in a fault does so however long it may be. -/
  failed : ∀ a b e stopped, m.runFor a = (.error e, stopped) →
    m.runFor (a + b) = (.error e, stopped)
  /-- After a fault nothing happens any more. -/
  still : ∀ a e stopped, m.runFor a = (.error e, stopped) →
    stopped.step = (.ok 0, stopped) ∧ stopped.run = some (.ok 0, stopped) ∧
      ∀ limit, stopped.runFor limit = (.ok 0, stopped)
  /-- The unbounded run ends well just if a bounded one does that stops the machine. -/
  run_eq_ok_iff : ∀ c stopped, m.run = some (.ok c, stopped) ↔
    ∃ limit, m.runFor limit = (.ok c, stopped) ∧ stopped.halted = true
  /-- It ends in a fault just if a bounded one does. -/
  run_eq_error_iff : ∀ e stopped, m.run = some (.error e, stopped) ↔
    ∃ limit, m.runFor limit = (.error e, stopped)

end Machine

/-- Whatever its program and its state, the bounded runs of a machine compose, and the
unbounded run agrees with them. -/
theorem runs_compose {δ : Type} [Device δ] (m : Machine δ) : m.RunsCompose := by
  refine ⟨?_, ?_, ?_, ?_, ?_⟩
  · intro a b c middle h
    exact Machine.runFor_add_of_ok h b
  · intro a b e stopped h
    exact Machine.runFor_add_of_error h b
  · intro a e stopped h
    have hh := Machine.halted_of_runFor_error h
    exact ⟨Machine.step_of_halted hh, Machine.runOn_of_halted hh 0, Machine.runFor_of_halted hh⟩
  · intro c stopped
    exact Machine.run_eq_some_iff
  · intro e stopped
    rw [Machine.run_eq_some_iff]
    constructor
    · rintro ⟨limit, h, -⟩
      exact ⟨limit, h⟩
    · rintro ⟨limit, h⟩
      exact ⟨limit, h, Machine.halted_of_runFor_error h⟩

/-- A jump over two bytes, cut off from the instruction before it. Behind the instruction that
it leads to there is none. -/
example :
    let m := Machine.boot (.ofProgram [0xFF, 0xF0, 0xDE, 0xAA, 0, 8, 0, 0, 0xDE, 0xAE]) NoDevice.mk
    let middle := (m.runFor 1).2
    (m.runFor 1).1 = .ok 1 ∧ (middle.runFor 2).1 = .ok 3 ∧ (m.runFor 3).1 = .ok 4 ∧
      (middle.runFor 3).1 = .error (.invalidOpcode 0 10) ∧
      (m.runFor 4).1 = .error (.invalidOpcode 0 10) :=
  ⟨rfl, rfl, rfl, rfl, rfl⟩

end WordMachine
