/-! The code that the machine runs.

A tape is a list of instructions; a jump names the index of the instruction to go on with. Slot 0 is
no variable's: as the condition of a jump it means that the jump is always taken.
-/

set_option autoImplicit false

namespace LoopTape

inductive Instr where
  | call (name : String) (inputs : List Nat) (output : Option Nat)
  | jump (condition : Nat) (target : Nat)
  | grow (count : Nat)
  | shrink (count : Nat)
  deriving Repr, DecidableEq

abbrev Tape := List Instr

def Instr.target? : Instr → Option Nat
  | .jump _ target => some target
  | _ => none

def Tape.targetsValid (tape : Tape) : Bool :=
  tape.all fun instr => instr.target?.all (· ≤ tape.length)

end LoopTape
