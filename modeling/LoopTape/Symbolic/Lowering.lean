import LoopTape.Symbolic.Basic
import LoopTape.Symbolic.Fault
import LoopTape.Tree.Basic

/-! From trees with slots to code with labels.

A block allocates its slots when it is entered and frees them when it is left. A loop allocates the
slots of its body once, before the first round, and frees them after the last. A break frees what the
blocks between it and the loop's body allocated and goes to the end of the loop.
-/

set_option autoImplicit false

namespace LoopTape

/-- A loop around the point reached; `depth` counts the slots allocated in its body itself. -/
structure OpenLoop where
  label : Option String
  span : Span
  depth : Nat
  exit : Nat
  deriving Repr, DecidableEq

/-- What surrounds the point reached: the loops, the innermost first, and the number of slots
allocated. -/
structure Surroundings where
  loops : List OpenLoop
  depth : Nat
  deriving Repr, DecidableEq

namespace Surroundings

def empty : Surroundings := ⟨[], 0⟩

def grow (s : Surroundings) (count : Nat) : Surroundings := { s with depth := s.depth + count }

def target? (s : Surroundings) : Option String → Option OpenLoop
  | none => s.loops.head?
  | some label => s.loops.find? (·.label = some label)

def clash? (s : Surroundings) : Option String → Option OpenLoop
  | none => none
  | some label => s.loops.find? (·.label = some label)

end Surroundings

def Symbolic.growBy (count : Nat) : List Symbolic := if count = 0 then [] else [.grow count]

def Symbolic.shrinkBy (count : Nat) : List Symbolic := if count = 0 then [] else [.shrink count]

def Variable.boundSlot (v : Variable) : Except CompileError Nat :=
  match v.slot with
  | some slot => .ok slot
  | none => .error (.unresolvedVariable v.name)

/-- The slot of an argument or condition, which must be a variable. A call whose own place is not
known is reported at `context`. -/
def Expr.slot (context : Span) : Expr → Except CompileError Nat
  | .variable v => v.boundSlot
  | .paren inner => inner.slot context
  | .call name _ span =>
    .error (.unsupportedExpression name (if span = .unknown then context else span))

def Expr.slots (context : Span) : List Expr → Except CompileError (List Nat)
  | [] => .ok []
  | e :: rest => do
    let slot ← e.slot context
    let slots ← Expr.slots context rest
    return slot :: slots

def resultSlot : Option Variable → Except CompileError (Option Nat)
  | none => .ok none
  | some v => v.boundSlot.map some

mutual

/-- The code of a block, and the number of labels in use after it; `used` is that before it. -/
def Block.lower (around : Surroundings) (used : Nat) :
    Block → Except CompileError (List Symbolic × Nat)
  | .mk stmts localSlots => do
    let (code, used) ← Stmt.lowerAll (around.grow localSlots) used stmts
    return (Symbolic.growBy localSlots ++ code ++ Symbolic.shrinkBy localSlots, used)

def Stmt.lowerAll (around : Surroundings) (used : Nat) :
    List Stmt → Except CompileError (List Symbolic × Nat)
  | [] => .ok ([], used)
  | s :: rest => do
    let (first, used) ← s.lower around used
    let (others, used) ← Stmt.lowerAll around used rest
    return (first ++ others, used)

def Stmt.lower (around : Surroundings) (used : Nat) :
    Stmt → Except CompileError (List Symbolic × Nat)
  | .call result name args span => do
    let inputs ← Expr.slots span args
    let output ← resultSlot result
    return ([.call name inputs output], used)
  | .cond condition thenBlock none => do
    let slot ← condition.slot .unknown
    let (whenTrue, after) ← thenBlock.lower around (used + 2)
    return (.jump slot (used + 1) :: .jump 0 (used + 2) :: .label (used + 1) ::
      whenTrue ++ [.label (used + 2)], after)
  | .cond condition thenBlock (some elseBlock) => do
    let slot ← condition.slot .unknown
    let (whenFalse, between) ← elseBlock.lower around (used + 2)
    let (whenTrue, after) ← thenBlock.lower around between
    return (.jump slot (used + 1) :: whenFalse ++ .jump 0 (used + 2) :: .label (used + 1) ::
      whenTrue ++ [.label (used + 2)], after)
  | .loop label (.mk stmts localSlots) span =>
    match around.clash? label with
    | some outer => .error (.duplicateLoopLabel (label.getD "") span outer.span)
    | none => do
      let depth := around.depth + localSlots
      let opened : OpenLoop := ⟨label, span, depth, used + 2⟩
      let (body, after) ← Stmt.lowerAll ⟨opened :: around.loops, depth⟩ (used + 2) stmts
      return (Symbolic.growBy localSlots ++ .label (used + 1) :: body ++
        .jump 0 (used + 1) :: .label (used + 2) :: Symbolic.shrinkBy localSlots, after)
  | .leave label span =>
    match around.target? label with
    | some target =>
      .ok (Symbolic.shrinkBy (around.depth - target.depth) ++ [.jump 0 target.exit], used)
    | none =>
      match label with
      | none => .error (.breakOutsideLoop span)
      | some label => .error (.unknownLoopLabel label span)
  | .block inner => inner.lower around used

end

def Block.symbolic (root : Block) : Except CompileError (List Symbolic) :=
  (root.lower .empty 0).map Prod.fst

end LoopTape
