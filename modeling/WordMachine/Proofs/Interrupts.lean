-- Interrupts. Whatever is asked of a machine, an interrupt waits only while the machine
-- runs and takes interrupts, and the next instruction that it executes is that of the
-- request it accepted last.
import Mathlib.Data.List.Basic
import Mathlib.Data.List.Induction
import WordMachine.Proofs.Steps

namespace WordMachine

/-! ## What happens to a machine -/

/-- One thing that happens to a machine. -/
inductive Happening
  /-- A request of which the machine took notice. -/
  | accepted (vector : UInt16)
  /-- A request while the machine was stopped or took no interrupts. -/
  | refused (vector : UInt16)
  /-- The machine executed an instruction word, that of an interrupt or one from memory. -/
  | executed (word : UInt16) (interrupt : Bool)
  deriving DecidableEq, Repr

/-- A request has been accepted, and since then neither another one, nor has an instruction
been executed. -/
def Waits (vector : UInt16) (hs : List Happening) : Prop :=
  ∃ before after, hs = before ++ .accepted vector :: after ∧ ∀ h ∈ after, ∃ v, h = .refused v

/-- Each instruction word that is executed is that of the request that waits, if one waits,
and else it is not that of an interrupt. -/
def InOrder (hs : List Happening) : Prop :=
  ∀ before word interrupt after, hs = before ++ .executed word interrupt :: after →
    ∀ vector, Waits vector before ↔ interrupt = true ∧ vector = word

/-- What stands in a history is the last thing that happened or stands in the history before
it. -/
theorem snoc_eq_append_cons {hs before after : List Happening} {h g : Happening} :
    hs ++ [h] = before ++ g :: after ↔
      (hs = before ∧ h = g ∧ after = []) ∨
        ∃ rest, after = rest ++ [h] ∧ hs = before ++ g :: rest := by
  constructor
  · intro he
    rcases List.eq_nil_or_concat' after with rfl | ⟨rest, last, rfl⟩
    · obtain ⟨hhs, hlast⟩ := List.append_inj' he rfl
      exact .inl ⟨hhs, List.singleton_inj.1 hlast, rfl⟩
    · rw [← List.cons_append, ← List.append_assoc] at he
      obtain ⟨hhs, hlast⟩ := List.append_inj' he rfl
      exact .inr ⟨rest, by rw [hlast], hhs⟩
  · rintro (⟨rfl, rfl, rfl⟩ | ⟨rest, rfl, rfl⟩)
    · rfl
    · simp

theorem waits_snoc {vector : UInt16} {hs : List Happening} {h : Happening} :
    Waits vector (hs ++ [h]) ↔ h = .accepted vector ∨ (∃ v, h = .refused v) ∧ Waits vector hs := by
  unfold Waits
  simp only [snoc_eq_append_cons]
  constructor
  · rintro ⟨before, after, ⟨-, rfl, -⟩ | ⟨rest, rfl, rfl⟩, hafter⟩
    · exact .inl rfl
    · refine .inr ⟨hafter h (by simp), before, rest, rfl, ?_⟩
      intro g hg
      exact hafter g (List.mem_append_left _ hg)
  · rintro (rfl | ⟨⟨v, rfl⟩, before, after, rfl, hafter⟩)
    · exact ⟨hs, [], .inl ⟨rfl, rfl, rfl⟩, by simp⟩
    · refine ⟨before, after ++ [.refused v], .inr ⟨after, rfl, rfl⟩, ?_⟩
      intro g hg
      rcases List.mem_append.1 hg with hg | hg
      · exact hafter g hg
      · exact ⟨v, List.mem_singleton.1 hg⟩

theorem not_waits_nil (vector : UInt16) : ¬ Waits vector [] := by
  rintro ⟨before, after, he, -⟩
  simp at he

theorem inOrder_nil : InOrder [] := by
  intro before word interrupt after he
  simp at he

theorem inOrder_snoc {hs : List Happening} {g : Happening} : InOrder (hs ++ [g]) ↔
    InOrder hs ∧ ∀ word interrupt, g = .executed word interrupt →
      ∀ vector, Waits vector hs ↔ interrupt = true ∧ vector = word := by
  unfold InOrder
  simp only [snoc_eq_append_cons]
  constructor
  · intro h
    refine ⟨fun before word interrupt after he => ?_, fun word interrupt hg => ?_⟩
    · exact h before word interrupt (after ++ [g]) (.inr ⟨after, rfl, he⟩)
    · exact h hs word interrupt [] (.inl ⟨rfl, hg, rfl⟩)
  · rintro ⟨hinit, hlast⟩ before word interrupt after (⟨rfl, hg, -⟩ | ⟨rest, -, he⟩)
    · exact hlast word interrupt hg
    · exact hinit before word interrupt rest he

/-- No request is served twice: there are no more interrupts with an instruction word than
there are accepted requests for it, one fewer while such a request waits. -/
theorem InOrder.count_le {hs : List Happening} (h : InOrder hs) (vector : UInt16) :
    hs.count (.executed vector true) ≤ hs.count (.accepted vector) ∧
      (Waits vector hs →
        hs.count (.executed vector true) < hs.count (.accepted vector)) := by
  induction hs using List.reverseRecOn with
  | nil => exact ⟨Nat.le_refl 0, fun hw => absurd hw (not_waits_nil vector)⟩
  | append_singleton hs g ih =>
    obtain ⟨hinit, hlast⟩ := inOrder_snoc.1 h
    obtain ⟨hle, hlt⟩ := ih hinit
    rw [waits_snoc, List.count_append, List.count_append]
    cases g with
    | accepted v =>
      by_cases hv : v = vector
      · subst hv
        simp
        omega
      · simpa [hv] using hle
    | refused v => simpa using ⟨hle, hlt⟩
    | executed word interrupt =>
      by_cases hw : word = vector ∧ interrupt = true
      · obtain ⟨rfl, rfl⟩ := hw
        have := hlt ((hlast word true rfl word).2 ⟨rfl, rfl⟩)
        simp
        omega
      · have hne : Happening.executed word interrupt ≠ .executed vector true := by
          simpa using hw
        simpa [hne] using hle

namespace Machine

variable {δ : Type}

/-! ## Histories -/

/-- What can be asked of a machine. -/
inductive Call
  | step
  | runFor (limit : Nat)
  | request (vector : UInt16)

/-- What happens in the next step. -/
def stepHappenings (m : Machine δ) : List Happening :=
  if m.halted then [] else [.executed m.fetch.1 m.dispatched?.isSome]

/-- What happens when an interrupt is asked for. -/
def requestHappening (m : Machine δ) (vector : UInt16) : Happening :=
  if m.halted = false ∧ m.interruptsEnabled = true then .accepted vector else .refused vector

section

variable [Device δ]

/-- The machine after a call. -/
def after (m : Machine δ) : Call → Machine δ
  | .step => m.step.2
  | .runFor limit => (m.runFor limit).2
  | .request vector => m.requestInterrupt vector

/-- What happens in a run of at most `limit` steps. -/
def runHappenings : Nat → Machine δ → List Happening
  | 0, _ => []
  | limit + 1, m => m.stepHappenings ++ runHappenings limit m.next

/-- What happens in a call. -/
def happenings (m : Machine δ) : Call → List Happening
  | .step => m.stepHappenings
  | .runFor limit => m.runHappenings limit
  | .request vector => [m.requestHappening vector]

/-- What happens in some calls, and the machine after them. -/
def history (m : Machine δ) : List Call → List Happening × Machine δ
  | [] => ([], m)
  | call :: calls =>
    let rest := history (m.after call) calls
    (m.happenings call ++ rest.1, rest.2)

end

theorem requestInterrupt_of_accepted {m : Machine δ}
    (h : m.halted = false ∧ m.interruptsEnabled = true) (vector : UInt16) :
    m.requestInterrupt vector = { m with pendingInterrupt := some vector } := by
  simp [requestInterrupt, h]

theorem requestInterrupt_of_refused {m : Machine δ}
    (h : m.halted = true ∨ m.interruptsEnabled = false) (vector : UInt16) :
    m.requestInterrupt vector = m := by
  rcases h with h | h <;> simp [requestInterrupt, h]

/-! ## The invariant -/

/-- The machine is what its history makes of it: an interrupt waits if its request does,
and only while the machine runs and takes interrupts. -/
structure Follows (m : Machine δ) (hs : List Happening) : Prop where
  enabled : m.pendingInterrupt.isSome → m.interruptsEnabled = true
  running : m.pendingInterrupt.isSome → m.halted = false
  pending_iff : ∀ vector, m.pendingInterrupt = some vector ↔ Waits vector hs
  inOrder : InOrder hs

namespace Follows

theorem boot (memory : Memory) (device : δ) : (Machine.boot memory device).Follows [] := by
  refine ⟨by simp [Machine.boot], by simp [Machine.boot], ?_, inOrder_nil⟩
  intro vector
  simp [Machine.boot, not_waits_nil]

variable {m : Machine δ} {hs : List Happening} (h : m.Follows hs)
include h

/-- What waits is dispatched. -/
theorem dispatched?_eq : m.dispatched? = m.pendingInterrupt := by
  unfold dispatched?
  split
  · rfl
  · rename_i hi
    cases hp : m.pendingInterrupt with
    | none => rfl
    | some vector => exact absurd (h.enabled (by simp [hp])) hi

theorem request (vector : UInt16) :
    (m.requestInterrupt vector).Follows (hs ++ [m.requestHappening vector]) := by
  unfold requestHappening
  by_cases hm : m.halted = false ∧ m.interruptsEnabled = true
  · rw [if_pos hm, requestInterrupt_of_accepted hm]
    refine ⟨fun _ => hm.2, fun _ => hm.1, ?_, inOrder_snoc.2 ⟨h.inOrder, by simp⟩⟩
    intro v
    rw [waits_snoc]
    simp
  · have hr : m.halted = true ∨ m.interruptsEnabled = false := by
      rw [not_and_or] at hm
      simpa using hm
    rw [if_neg hm, requestInterrupt_of_refused hr]
    refine ⟨h.enabled, h.running, ?_, inOrder_snoc.2 ⟨h.inOrder, by simp⟩⟩
    intro v
    rw [waits_snoc, h.pending_iff]
    simp

/-- An interrupt is pending after a request just if the machine says so. -/
theorem awaitsInterrupt_iff : m.awaitsInterrupt = true ↔ m.pendingInterrupt.isSome := by
  unfold awaitsInterrupt
  rw [Bool.and_eq_true, and_iff_right_iff_imp]
  intro hp
  simp [h.running hp]

variable [Device δ]

/-- After a step nothing waits: no instruction asks for an interrupt. -/
theorem pendingInterrupt_next (hr : m.halted = false) : m.next.pendingInterrupt = none := by
  unfold next
  rw [step_of_running hr, pendingInterrupt_executeWord]
  unfold fetch
  rw [h.dispatched?_eq]
  split
  · rfl
  · assumption

theorem step : m.next.Follows (hs ++ m.stepHappenings) := by
  unfold stepHappenings
  by_cases hm : m.halted = true
  · rw [if_pos hm, List.append_nil, next_of_halted hm]
    exact h
  · have hr : m.halted = false := by simpa using hm
    have hp := h.pendingInterrupt_next hr
    rw [if_neg hm]
    refine ⟨by simp [hp], by simp [hp], ?_, inOrder_snoc.2 ⟨h.inOrder, ?_⟩⟩
    · intro vector
      rw [hp, waits_snoc]
      simp
    · intro word interrupt he vector
      cases he
      rw [← h.pending_iff, ← h.dispatched?_eq]
      unfold fetch
      cases m.dispatched? with
      | some other => simp [eq_comm]
      | none => simp

theorem run (limit : Nat) : (next^[limit] m).Follows (hs ++ m.runHappenings limit) := by
  induction limit generalizing m hs with
  | zero =>
    rw [runHappenings, List.append_nil]
    exact h
  | succ limit ih =>
    rw [runHappenings, ← List.append_assoc, Function.iterate_succ_apply]
    exact ih h.step

theorem after (call : Call) : (m.after call).Follows (hs ++ m.happenings call) := by
  cases call with
  | step => exact h.step
  | runFor limit =>
    have hrun := h.run limit
    rw [← runFor_state] at hrun
    exact hrun
  | request vector => exact h.request vector

theorem history (calls : List Call) :
    (m.history calls).2.Follows (hs ++ (m.history calls).1) := by
  induction calls generalizing m hs with
  | nil =>
    rw [Machine.history, List.append_nil]
    exact h
  | cons call calls ih =>
    rw [Machine.history, ← List.append_assoc]
    exact ih (h.after call)

end Follows

end Machine

/-- How a machine with a history stands to the interrupts that were asked for. -/
structure Machine.Serves {δ : Type} [Device δ] (m : Machine δ) (hs : List Happening) : Prop where
  /-- An interrupt waits only while the machine takes interrupts. -/
  enabled : m.pendingInterrupt.isSome → m.interruptsEnabled = true
  /-- An interrupt waits only while the machine runs. -/
  running : m.pendingInterrupt.isSome → m.halted = false
  /-- It is the one that was accepted last, if no instruction has been executed since. -/
  pending_iff : ∀ vector, m.pendingInterrupt = some vector ↔ Waits vector hs
  /-- The next step executes its word, where the machine stands. -/
  step_eq : ∀ vector, m.pendingInterrupt = some vector →
    m.step = { m with pendingInterrupt := none }.executeWord vector m.pc
  /-- Each accepted request is served by the next step, unless a later one replaces it, and
  no other word is executed as that of an interrupt. -/
  inOrder : InOrder hs
  /-- No request is served twice. -/
  count_le : ∀ vector, hs.count (.executed vector true) ≤ hs.count (.accepted vector)
  /-- A request to a machine that has stopped or takes no interrupts changes nothing. -/
  refused : ∀ vector, m.halted = true ∨ m.interruptsEnabled = false → m.requestInterrupt vector = m
  /-- The answer to a request says whether an interrupt waits after it. -/
  answer : ∀ vector, (m.requestInterrupt vector).awaitsInterrupt = true ↔
    (m.requestInterrupt vector).pendingInterrupt.isSome

/-- Whatever is asked of a machine after it was booted, it serves the interrupts that it
has accepted, in their order and once each, and no others. -/
theorem interrupts_are_served_in_order {δ : Type} [Device δ] (memory : Memory) (device : δ)
    (calls : List Machine.Call) :
    ((Machine.boot memory device).history calls).2.Serves
      ((Machine.boot memory device).history calls).1 := by
  have h := (Machine.Follows.boot memory device).history calls
  rw [List.nil_append] at h
  refine ⟨h.enabled, h.running, h.pending_iff, ?_, h.inOrder, ?_, ?_, ?_⟩
  · intro vector hp
    apply Machine.step_of_dispatched (h.running (by simp [hp]))
    rw [h.dispatched?_eq, hp]
  · intro vector
    exact (h.inOrder.count_le vector).1
  · intro vector hm
    exact Machine.requestInterrupt_of_refused hm vector
  · intro vector
    exact (h.request vector).awaitsInterrupt_iff

/-- A program that takes interrupts and then stops. The first request comes too early, the
third one replaces the second and is executed, and the last one comes too late. -/
example : ((Machine.boot (.ofProgram [0xDE, 0xAE, 0xDE, 0xAD]) NoDevice.mk).history
      [.request 0xFFF0, .step, .request 0xDEA3, .request 0xFFF0, .runFor 9, .request 0xDEA3]).1 =
    [.refused 0xFFF0, .executed 0xDEAE false, .accepted 0xDEA3, .accepted 0xFFF0,
      .executed 0xFFF0 true, .executed 0xDEAD false, .refused 0xDEA3] :=
  rfl

end WordMachine
