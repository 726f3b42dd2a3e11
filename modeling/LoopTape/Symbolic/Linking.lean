import LoopTape.Scope.Binding
import LoopTape.Symbolic.Lowering
import LoopTape.Tape.Basic

/-! From labels to instruction indices.

A label stands for the index of the instruction after it. Where a label is set more than once, the
last time counts.
-/

set_option autoImplicit false

namespace LoopTape

/-- The number of instructions in front of the last label `id`. -/
def labelIndex? (id : Nat) : List Symbolic → Option Nat
  | [] => none
  | .label other :: rest =>
    match labelIndex? id rest with
    | some index => some index
    | none => if other = id then some 0 else none
  | _ :: rest => (labelIndex? id rest).map (· + 1)

/-- The instructions of a part of `code`, with labels looked up in all of it. -/
def linkPart (code : List Symbolic) : List Symbolic → Except CompileError Tape
  | [] => .ok []
  | .label _ :: rest => linkPart code rest
  | .call name inputs output :: rest => (.call name inputs output :: ·) <$> linkPart code rest
  | .grow count :: rest => (.grow count :: ·) <$> linkPart code rest
  | .shrink count :: rest => (.shrink count :: ·) <$> linkPart code rest
  | .jump condition label :: rest =>
    match labelIndex? label code with
    | some target => (.jump condition target :: ·) <$> linkPart code rest
    | none => .error (.undefinedLabel label)

def link (code : List Symbolic) : Except CompileError Tape := linkPart code code

def Block.generate (root : Block) : Except CompileError Tape := do
  link (← root.symbolic)

def Block.compile (root : Block) : Except CompileError Tape := root.resolve.generate

end LoopTape
