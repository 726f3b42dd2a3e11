import LoopTape.Machine.Basic

/-! Runs of many steps.

A run stops when it is cancelled, when it has used up its steps, when the machine is halted or when a
step fails. Cancelling counts before all else, and a machine that is halted when the steps are used up
has finished.
-/

set_option autoImplicit false

namespace LoopTape

variable {σ : Type}

inductive Ending where
  | finished | stepLimit | cancelled
  deriving Repr, DecidableEq

structure Run (σ : Type) where
  ending : Except MachineError Ending
  steps : Nat
  config : Config σ

namespace Config

/-- Runs for at most `left` steps more; `steps` were made before. -/
def runFrom (host : HostTable σ) (tape : Tape) (steps left : Nat) (c : Config σ) : Run σ :=
  if c.world.cancelled then ⟨.ok .cancelled, steps, c⟩
  else
    match left with
    | 0 => ⟨.ok (if c.machine.halted tape then .finished else .stepLimit), steps, c⟩
    | left + 1 =>
      match c.step host tape with
      | (.ok .moved, next) => runFrom host tape (steps + 1) left next
      | (.ok .halted, next) => ⟨.ok .finished, steps, next⟩
      | (.error e, next) => ⟨.error e, steps, next⟩

/-- Steps made before only add to the count. -/
theorem runFrom_steps (host : HostTable σ) (tape : Tape) (steps left : Nat) (c : Config σ) :
    c.runFrom host tape steps left =
      { c.runFrom host tape 0 left with steps := steps + (c.runFrom host tape 0 left).steps } := by
  induction left generalizing steps c with
  | zero =>
    unfold runFrom
    split <;> rfl
  | succ left ih =>
    unfold runFrom
    split
    · rfl
    · dsimp only
      split
      · next next _ =>
        rw [ih (steps + 1) next, ih (0 + 1) next]
        simp only [Nat.add_assoc, Nat.zero_add]
      · rfl
      · rfl

def runFor (host : HostTable σ) (tape : Tape) (limit : Nat) (c : Config σ) : Run σ :=
  c.runFrom host tape 0 limit

/-- Runs under a limit, or without one. A run without a limit is looked at after `patience` steps;
there is no answer if it still goes on then. -/
def run? (host : HostTable σ) (tape : Tape) (patience : Nat) (limit : Option Nat) (c : Config σ) :
    Option (Run σ) :=
  match limit with
  | some limit => some (c.runFor host tape limit)
  | none =>
    let run := c.runFor host tape patience
    if run.ending matches .ok .stepLimit then none else some run

end Config

end LoopTape
