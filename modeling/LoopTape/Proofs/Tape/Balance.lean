import LoopTape.Proofs.Symbolic.Counting
import LoopTape.Proofs.Tape.Sound

/-! Every generated tape allocates and frees its slots in balance, on every way through it.

The slots written in the tree may be any, also ones that no scope gives. Only the numbers of slots of
blocks nested in each other have to fit into a word of 32 bits together; then no count of the lowering
leaves its range either.
-/

set_option autoImplicit false

namespace LoopTape

/-- A lowering that counts slots in 32 bits does the same as one that hands their number down, so
none of its subtractions goes below zero. On the tape, jumps stay inside, and there is a number of
slots for each index that all instructions respect, those that nothing leads to included. -/
theorem Block.generate_balanced {root : Block} (bounded : root.reach < Nat.pow 2 32) :
    root.tallied (Nat.pow 2 32) .start = Surroundings.empty.tally (root.lower .empty 0) ∧
      ∀ tape, root.generate = .ok tape →
        tape.targetsValid = true ∧ ∃ depth, tape.Balanced depth := by
  constructor
  · exact Block.tallied_root_eq root bounded
  · intro tape generated
    exact ⟨Block.targetsValid_of_generate generated,
      root.depthAt, Block.balanced_of_generate generated⟩

def earlyExit : Block :=
  .mk [.loop (some "outer") (.mk [.block (.mk [.leave (some "outer") .unknown,
    .call none "f" [] .unknown] 2)] 1) .unknown] 3

theorem earlyExit_balanced :
    earlyExit.reach < Nat.pow 2 32 ∧
      earlyExit.tallied (Nat.pow 2 32) .start = Surroundings.empty.tally (earlyExit.lower .empty 0) ∧
      ∃ tape : Tape, earlyExit.generate = .ok tape ∧ tape.length = 10 ∧
        tape.targetsValid = true ∧ ∃ depth, tape.Balanced depth := by
  have bounded : earlyExit.reach < Nat.pow 2 32 := by decide
  have generated : earlyExit.generate = .ok [.grow 3, .grow 1, .grow 2, .shrink 2, .jump 0 8,
      .call "f" [] none, .shrink 2, .jump 0 2, .shrink 1, .shrink 3] := rfl
  obtain ⟨counted, balanced⟩ := Block.generate_balanced bounded
  exact ⟨bounded, counted, _, generated, rfl, balanced _ generated⟩

end LoopTape
