import LoopTape.Scope.Binding

/-! Scope binding in two walks over the tree, with the frames of all blocks in an arena.

The first walk opens a frame for each block it enters, looks every name up through the frames of the
open blocks and declares it in the innermost one if none has it. It notes for each occurrence where the
name stands. How many slots lie below a frame is known only when the frames around it have all their
names, so the bases are laid out after that. The second walk comes to the same occurrences in the same
order, and gives each the slot of what was noted for it.
-/

set_option autoImplicit false

namespace LoopTape

structure NestedFrame extends Frame where
  parent : Option Nat
  deriving Repr, DecidableEq

/-- The frames of the blocks entered so far, each at the number of its block. -/
abbrev Arena := List NestedFrame

/-- What an occurrence of a variable stands for: a place among the names of a frame. -/
structure Binding where
  frame : Nat
  index : Nat
  deriving Repr, DecidableEq

def NestedFrame.declare (names : List String) (frame : NestedFrame) : NestedFrame :=
  { frame with names := frame.names ++ names }

namespace Arena

def names (arena : Arena) (id : Nat) : List String := (arena[id]?.map (·.names)).getD []

def binding? (arena : Arena) (name : String) (id : Nat) : Option Binding :=
  match arena[id]? with
  | none => none
  | some frame =>
    match frame.names.idxOf? name with
    | some index => some ⟨id, index⟩
    | none =>
      match frame.parent with
      | some outer => if outer < id then arena.binding? name outer else none
      | none => none
termination_by id

def slotOf? (arena : Arena) (binding : Binding) : Option Nat :=
  arena[binding.frame]?.map (·.base + binding.index + 1)

def topOf (arena : Arena) (id : Option Nat) : Nat :=
  match id.bind (arena[·]?) with
  | some frame => frame.top
  | none => 0

/-- The arena with every frame right above the one around it, which comes before it. -/
def layout (arena : Arena) : Arena :=
  (List.range arena.length).foldl
    (fun laid id => laid.modify id fun frame => { frame with base := laid.topOf frame.parent }) arena

def peakSlot (arena : Arena) : Nat := (arena.map (·.top)).foldl max 0

end Arena

/-- What a walk does at a block that it enters, at a block that it leaves, which may get another number
of slots, and at a variable, which may be replaced. -/
structure Visitor (σ : Type) where
  enter : StateM σ Unit
  leave : Nat → StateM σ Nat
  visit : Variable → StateM σ Variable

section

variable {σ : Type}

mutual

def Expr.walk (visitor : Visitor σ) : Expr → StateM σ Expr
  | .variable v => return .variable (← visitor.visit v)
  | .paren inner => return .paren (← inner.walk visitor)
  | .call name args span => return .call name (← Expr.walkAll visitor args) span

def Expr.walkAll (visitor : Visitor σ) : List Expr → StateM σ (List Expr)
  | [] => return []
  | e :: rest => return (← e.walk visitor) :: (← Expr.walkAll visitor rest)

end

mutual

def Block.walk (visitor : Visitor σ) : Block → StateM σ Block
  | .mk stmts localSlots => do
    visitor.enter
    let stmts ← Stmt.walkAll visitor stmts
    return .mk stmts (← visitor.leave localSlots)

def Stmt.walkAll (visitor : Visitor σ) : List Stmt → StateM σ (List Stmt)
  | [] => return []
  | s :: rest => return (← s.walk visitor) :: (← Stmt.walkAll visitor rest)

def Stmt.walk (visitor : Visitor σ) : Stmt → StateM σ Stmt
  | .cond condition thenBlock none =>
    return .cond (← condition.walk visitor) (← thenBlock.walk visitor) none
  | .cond condition thenBlock (some elseBlock) =>
    return .cond (← condition.walk visitor) (← thenBlock.walk visitor)
      (some (← elseBlock.walk visitor))
  | .loop label body span => return .loop label (← body.walk visitor) span
  | .leave label span => return .leave label span
  | .call none name args span => return .call none name (← Expr.walkAll visitor args) span
  | .call (some result) name args span =>
    return .call (some (← visitor.visit result)) name (← Expr.walkAll visitor args) span
  | .block inner => return .block (← inner.walk visitor)

end

end

/-- The state of the first walk: the arena, the open blocks with the innermost first, and the bindings
of the occurrences so far. -/
structure Binder where
  arena : Arena
  stack : List Nat
  bindings : List Binding
  deriving Repr, DecidableEq

namespace Binder

def empty : Binder := ⟨[], [], []⟩

def enter (binder : Binder) : Binder :=
  { binder with
    arena := binder.arena ++ [⟨⟨[], 0⟩, binder.stack.head?⟩]
    stack := binder.arena.length :: binder.stack }

def visit (binder : Binder) (name : String) : Binder :=
  match binder.stack with
  | [] => binder
  | id :: _ =>
    match binder.arena.binding? name id with
    | some found => { binder with bindings := binder.bindings ++ [found] }
    | none =>
      { binder with
        arena := binder.arena.modify id (·.declare [name])
        bindings := binder.bindings ++ [⟨id, (binder.arena.names id).length⟩] }

def leave (binder : Binder) (localSlots : Nat) : Nat × Binder :=
  match binder.stack with
  | [] => (localSlots, binder)
  | id :: outer => ((binder.arena.names id).length, { binder with stack := outer })

def visitor : Visitor Binder where
  enter := modify Binder.enter
  leave localSlots := modifyGet (·.leave localSlots)
  visit v := do
    modify (·.visit v.name)
    return v

end Binder

def Arena.assigner (arena : Arena) : Visitor (List Binding) where
  enter := return
  leave localSlots := return localSlots
  visit v := modifyGet fun
    | [] => (v, [])
    | binding :: rest => (⟨v.name, arena.slotOf? binding⟩, rest)

/-- The root block with slots chosen for all its variables, and the frames of all its blocks. -/
def Block.resolveInArena (root : Block) : Block × Arena :=
  let (counted, bound) := (root.walk Binder.visitor).run .empty
  let arena := bound.arena.layout
  (((counted.walk arena.assigner).run bound.bindings).1, arena)

end LoopTape
