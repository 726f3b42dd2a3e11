/-! Code whose jumps name labels.

A label marks the place that jumps to it go to, and does nothing itself. Slot 0 is no variable's: as the
condition of a jump it means that the jump is always taken.
-/

set_option autoImplicit false

namespace LoopTape

inductive Symbolic where
  | call (name : String) (inputs : List Nat) (output : Option Nat)
  | jump (condition : Nat) (label : Nat)
  | label (id : Nat)
  | grow (count : Nat)
  | shrink (count : Nat)
  deriving Repr, DecidableEq

end LoopTape
