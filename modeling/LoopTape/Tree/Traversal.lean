import LoopTape.Tree.Basic

/-! What stands in a tree, in the order of its text.

The result of a call comes before its arguments, an outer call before the calls in its arguments, a
condition before the blocks it chooses between, and the first block before the second.
-/

set_option autoImplicit false

namespace LoopTape

mutual

def Expr.variables : Expr → List Variable
  | .variable v => [v]
  | .paren inner => inner.variables
  | .call _ args _ => Expr.variablesAll args

def Expr.variablesAll : List Expr → List Variable
  | [] => []
  | e :: rest => e.variables ++ Expr.variablesAll rest

end

/-- The variables that stand in a statement itself, and not in a block inside it. -/
def Stmt.ownVariables : Stmt → List Variable
  | .cond condition _ _ => condition.variables
  | .call result _ args _ => result.toList ++ Expr.variablesAll args
  | .loop .. | .leave .. | .block .. => []

mutual

def Block.variables : Block → List Variable
  | .mk stmts _ => Stmt.variablesAll stmts

def Stmt.variablesAll : List Stmt → List Variable
  | [] => []
  | s :: rest => s.variables ++ Stmt.variablesAll rest

def Stmt.variables : Stmt → List Variable
  | .cond condition thenBlock none => condition.variables ++ thenBlock.variables
  | .cond condition thenBlock (some elseBlock) =>
    condition.variables ++ thenBlock.variables ++ elseBlock.variables
  | .loop _ body _ => body.variables
  | .leave .. => []
  | .call result _ args _ => result.toList ++ Expr.variablesAll args
  | .block inner => inner.variables

end

mutual

def Block.blocks : Block → List Block
  | .mk stmts localSlots => .mk stmts localSlots :: Stmt.blocksAll stmts

def Stmt.blocksAll : List Stmt → List Block
  | [] => []
  | s :: rest => s.blocks ++ Stmt.blocksAll rest

def Stmt.blocks : Stmt → List Block
  | .cond _ thenBlock none => thenBlock.blocks
  | .cond _ thenBlock (some elseBlock) => thenBlock.blocks ++ elseBlock.blocks
  | .loop _ body _ => body.blocks
  | .leave .. | .call .. => []
  | .block inner => inner.blocks

end

inductive Mark where
  | loop | leave | call
  deriving Repr, DecidableEq

mutual

def Expr.marks : Expr → List (Mark × Span)
  | .variable _ => []
  | .paren inner => inner.marks
  | .call _ args span => (.call, span) :: Expr.marksAll args

def Expr.marksAll : List Expr → List (Mark × Span)
  | [] => []
  | e :: rest => e.marks ++ Expr.marksAll rest

end

mutual

def Block.marks : Block → List (Mark × Span)
  | .mk stmts _ => Stmt.marksAll stmts

def Stmt.marksAll : List Stmt → List (Mark × Span)
  | [] => []
  | s :: rest => s.marks ++ Stmt.marksAll rest

def Stmt.marks : Stmt → List (Mark × Span)
  | .cond condition thenBlock none => condition.marks ++ thenBlock.marks
  | .cond condition thenBlock (some elseBlock) =>
    condition.marks ++ thenBlock.marks ++ elseBlock.marks
  | .loop _ body span => (.loop, span) :: body.marks
  | .leave _ span => [(.leave, span)]
  | .call _ _ args span => (.call, span) :: Expr.marksAll args
  | .block inner => inner.marks

end

end LoopTape
