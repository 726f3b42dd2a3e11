import LoopTape.Text.Span

/-! The tree of a program: blocks of statements, and the expressions in them.

A block may carry the number of variables it declares, and a variable the memory slot it was given;
both are unset in a tree that was just read. Spans tell where calls, loops and breaks were read from.
-/

set_option autoImplicit false

namespace LoopTape

structure Variable where
  name : String
  slot : Option Nat
  deriving Repr, DecidableEq

def Variable.unbound (name : String) : Variable := ⟨name, none⟩

inductive Expr where
  | variable (v : Variable)
  | paren (inner : Expr)
  | call (name : String) (args : List Expr) (span : Span)
  deriving Repr

mutual

inductive Stmt where
  | cond (condition : Expr) (thenBlock : Block) (elseBlock : Option Block)
  | loop (label : Option String) (body : Block) (span : Span)
  | leave (label : Option String) (span : Span)
  | call (result : Option Variable) (name : String) (args : List Expr) (span : Span)
  | block (inner : Block)
  deriving Repr

inductive Block where
  | mk (stmts : List Stmt) (localSlots : Nat)
  deriving Repr

end

def Block.stmts : Block → List Stmt
  | .mk stmts _ => stmts

def Block.localSlots : Block → Nat
  | .mk _ localSlots => localSlots

def Block.unscoped (stmts : List Stmt) : Block := .mk stmts 0

end LoopTape
