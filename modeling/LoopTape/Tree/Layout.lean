import LoopTape.Token.Basic
import LoopTape.Tree.Basic

/-! The written form of a tree.

A tree is laid out as a sequence of words and gaps: one statement on a line, two spaces for each
enclosing block, one space between words where the grammar asks for a gap or a reader expects one. An
argument that is a call is put into parentheses unless it is the last one, because a call takes every
expression that follows it.
-/

set_option autoImplicit false

namespace LoopTape

inductive Piece where
  | word (text : String)
  | gap (text : String)
  deriving Repr, DecidableEq

def Piece.text : Piece → String
  | .word text => text
  | .gap text => text

inductive Detail where
  | plain | slots
  deriving Repr, DecidableEq

def Piece.space : Piece := .gap " "

def Piece.newLine (level : Nat) : Piece :=
  .gap (String.ofList ('\n' :: List.replicate (2 * level) ' '))

def Variable.written (detail : Detail) (v : Variable) : String :=
  match detail, v.slot with
  | .slots, some slot => "$" ++ v.name ++ ":" ++ toString slot
  | _, _ => "$" ++ v.name

def Expr.isCall : Expr → Bool
  | .call .. => true
  | _ => false

mutual

def Expr.layout (detail : Detail) : Expr → List Piece
  | .variable v => [.word (v.written detail)]
  | .paren inner => .word "(" :: inner.layout detail ++ [.word ")"]
  | .call name args _ => .word name :: Expr.layoutArgs detail args

def Expr.layoutArgs (detail : Detail) : List Expr → List Piece
  | [] => []
  | e :: rest =>
    let written :=
      if e.isCall && !rest.isEmpty then .word "(" :: e.layout detail ++ [.word ")"]
      else e.layout detail
    .space :: written ++ Expr.layoutArgs detail rest

end

mutual

def Block.layout (detail : Detail) (level : Nat) : Block → List Piece
  | .mk [] _ => [.word "\x7b", .word "\x7d"]
  | .mk stmts _ =>
    .word "\x7b" :: Stmt.layoutAll detail (level + 1) stmts ++ [.newLine level, .word "\x7d"]

def Stmt.layoutAll (detail : Detail) (level : Nat) : List Stmt → List Piece
  | [] => []
  | s :: rest => .newLine level :: s.layout detail level ++ Stmt.layoutAll detail level rest

def Stmt.layout (detail : Detail) (level : Nat) : Stmt → List Piece
  | .cond condition thenBlock none =>
    .word "cond" :: .space :: condition.layout detail ++ .space :: thenBlock.layout detail level
  | .cond condition thenBlock (some elseBlock) =>
    .word "cond" :: .space :: condition.layout detail ++ .space :: thenBlock.layout detail level ++
      .space :: .word "else" :: .space :: elseBlock.layout detail level
  | .loop none body _ => .word "loop" :: .space :: body.layout detail level
  | .loop (some label) body _ =>
    .word "loop" :: .space :: .word label :: .space :: body.layout detail level
  | .leave none _ => [.word "break", .word ";"]
  | .leave (some label) _ => [.word "break", .space, .word label, .word ";"]
  | .call none name args _ => .word name :: Expr.layoutArgs detail args ++ [.word ";"]
  | .call (some result) name args _ =>
    .word (result.written detail) :: .space :: .word "=" :: .space :: .word name ::
      Expr.layoutArgs detail args ++ [.word ";"]
  | .block inner => inner.layout detail level

end

def Block.format (detail : Detail) (root : Block) : String :=
  String.join ((root.layout detail 0).map Piece.text) ++ "\n"

end LoopTape
