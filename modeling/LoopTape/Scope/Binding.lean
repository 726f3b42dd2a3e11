import LoopTape.Tree.Traversal

/-! Which block a variable belongs to, and which memory slot that gives it.

A block declares the names that occur directly in it and that no block around it has declared by then.
Its variables take the slots right above those of the blocks around it, in the order in which the
names first occur. A variable means the innermost enclosing block that declares its name anywhere.
-/

set_option autoImplicit false

namespace LoopTape

/-- The names a block declares, and how many slots the blocks around it take. -/
structure Frame where
  names : List String
  base : Nat
  deriving Repr, DecidableEq

/-- Slot 0 is no variable's, so slots count from one above the base. -/
def Frame.slot? (frame : Frame) (name : String) : Option Nat :=
  (frame.names.idxOf? name).map (frame.base + · + 1)

def Frame.top (frame : Frame) : Nat := frame.base + frame.names.length

/-- A frame's own slots lie above its base, one for each name. -/
theorem Frame.slot?_bounds {frame : Frame} {name : String} {slot : Nat}
    (found : frame.slot? name = some slot) : frame.base < slot ∧ slot ≤ frame.top := by
  obtain ⟨index, position, rfl⟩ := Option.map_eq_some_iff.mp found
  have inside := (List.idxOf?_eq_some_iff.mp position).choose
  exact ⟨by omega, by unfold Frame.top; omega⟩

/-- The frames of the blocks around a point, the innermost first. -/
abbrev Frames := List Frame

def Frames.slot? (frames : Frames) (name : String) : Option Nat :=
  frames.findSome? (·.slot? name)

def Frames.top : Frames → Nat
  | [] => 0
  | frame :: _ => frame.top

/-- The names that occur in the statements themselves, in order, with repetitions. -/
def ownNames (stmts : List Stmt) : List String :=
  (stmts.flatMap Stmt.ownVariables).map Variable.name

/-- The names that a block of these statements declares, when those in `seen` occurred in the blocks
around it before. -/
def declaredNames (seen : List String) (stmts : List Stmt) : List String :=
  (ownNames stmts).eraseDups.filter (!seen.contains ·)

mutual

/-- The frames of a block and of the blocks nested in it, outer blocks first; `base` is the number
of slots taken around it. -/
def Block.frames (base : Nat) (seen : List String) : Block → List Frame
  | .mk stmts _ =>
    let frame : Frame := ⟨declaredNames seen stmts, base⟩
    frame :: Stmt.framesAll frame.top seen stmts

def Stmt.framesAll (base : Nat) (seen : List String) : List Stmt → List Frame
  | [] => []
  | s :: rest =>
    let seen := seen ++ ownNames [s]
    s.frames base seen ++ Stmt.framesAll base seen rest

def Stmt.frames (base : Nat) (seen : List String) : Stmt → List Frame
  | .cond _ thenBlock none => thenBlock.frames base seen
  | .cond _ thenBlock (some elseBlock) => thenBlock.frames base seen ++ elseBlock.frames base seen
  | .loop _ body _ => body.frames base seen
  | .leave .. | .call .. => []
  | .block inner => inner.frames base seen

end

def Variable.bind (frames : Frames) (v : Variable) : Variable := ⟨v.name, frames.slot? v.name⟩

mutual

def Expr.bind (frames : Frames) : Expr → Expr
  | .variable v => .variable (v.bind frames)
  | .paren inner => .paren (inner.bind frames)
  | .call name args span => .call name (Expr.bindAll frames args) span

def Expr.bindAll (frames : Frames) : List Expr → List Expr
  | [] => []
  | e :: rest => e.bind frames :: Expr.bindAll frames rest

end

mutual

/-- The block with the slot of every variable and the number of names of every block; `frames` are
those of the blocks around it. -/
def Block.bind (frames : Frames) (seen : List String) : Block → Block
  | .mk stmts _ =>
    let frame : Frame := ⟨declaredNames seen stmts, frames.top⟩
    .mk (Stmt.bindAll (frame :: frames) seen stmts) frame.names.length

def Stmt.bindAll (frames : Frames) (seen : List String) : List Stmt → List Stmt
  | [] => []
  | s :: rest =>
    let seen := seen ++ ownNames [s]
    s.bind frames seen :: Stmt.bindAll frames seen rest

def Stmt.bind (frames : Frames) (seen : List String) : Stmt → Stmt
  | .cond condition thenBlock none =>
    .cond (condition.bind frames) (thenBlock.bind frames seen) none
  | .cond condition thenBlock (some elseBlock) =>
    .cond (condition.bind frames) (thenBlock.bind frames seen) (some (elseBlock.bind frames seen))
  | .loop label body span => .loop label (body.bind frames seen) span
  | .leave label span => .leave label span
  | .call result name args span =>
    .call (result.map (·.bind frames)) name (Expr.bindAll frames args) span
  | .block inner => .block (inner.bind frames seen)

end

def Block.resolve (root : Block) : Block := root.bind [] []

def Block.allFrames (root : Block) : List Frame := root.frames 0 []

def Block.peakSlot (root : Block) : Nat := (root.allFrames.map Frame.top).foldl max 0

end LoopTape
