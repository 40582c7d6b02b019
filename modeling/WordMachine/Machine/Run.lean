-- Runs of the machine.
import WordMachine.Machine.Step

namespace WordMachine.Machine

variable {δ : Type} [Device δ]

/-- Runs at most the given number of steps and adds up the cycles. -/
def runFrom (cycles : Nat) : Nat → Machine δ → Except Fault Nat × Machine δ
  | 0, m => (.ok cycles, m)
  | limit + 1, m =>
    if m.halted then (.ok cycles, m)
    else
      match m.step with
      | (.ok c, m) => runFrom (cycles + c) limit m
      | (.error e, m) => (.error e, m)

/-- Runs until the machine stops, but at most `limit` steps. The result is the
number of cycles, or the fault that stopped the machine. -/
def runFor (limit : Nat) (m : Machine δ) : Except Fault Nat × Machine δ := runFrom 0 limit m

/-- Runs until the machine stops and adds up the cycles. -/
def runOn (cycles : Nat) (m : Machine δ) : Option (Except Fault Nat × Machine δ) :=
  if m.halted then some (.ok cycles, m)
  else
    match m.step with
    | (.ok c, m) => m |>.runOn (cycles + c)
    | (.error e, m) => some (.error e, m)
partial_fixpoint

/-- Runs until the machine stops; there is no result if it never does. -/
def run (m : Machine δ) : Option (Except Fault Nat × Machine δ) := runOn 0 m

/-- The events of a run, behind those of `done`, of which the last one comes
first. -/
def eventsFrom (done : List Event) : Nat → Machine δ → List Event
  | 0, _ => done.reverse
  | limit + 1, m =>
    if m.halted then done.reverse
    else
      match m.step with
      | (.ok _, after) => eventsFrom (m.stepEvents.reverse ++ done) limit after
      | (.error _, _) => (m.stepEvents.reverse ++ done).reverse

/-- The events of a run of at most `limit` steps. -/
def events (limit : Nat) (m : Machine δ) : List Event := eventsFrom [] limit m

end WordMachine.Machine
