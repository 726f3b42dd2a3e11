import LoopTape.Text.Span
import LoopTape.Text.Quoted

/-! The words of the language: four keywords, six marks, variables and identifiers. -/

set_option autoImplicit false

namespace LoopTape

inductive Token where
  | condWord | elseWord | loopWord | breakWord
  | openBrace | closeBrace | openParen | closeParen
  | assign | semicolon
  | variable (name : String)
  | identifier (name : String)
  deriving Repr, DecidableEq

namespace Token

def describe : Token → String
  | .condWord => "Cond"
  | .elseWord => "Else"
  | .loopWord => "Loop"
  | .breakWord => "Break"
  | .openBrace => "LBrace"
  | .closeBrace => "RBrace"
  | .openParen => "LParen"
  | .closeParen => "RParen"
  | .assign => "Assign"
  | .semicolon => "Semi"
  | .variable name => "Var(" ++ quoted name ++ ")"
  | .identifier name => "Ident(" ++ quoted name ++ ")"

def ofWord (word : List Char) : Token :=
  if word = ['c', 'o', 'n', 'd'] then .condWord
  else if word = ['e', 'l', 's', 'e'] then .elseWord
  else if word = ['l', 'o', 'o', 'p'] then .loopWord
  else if word = ['b', 'r', 'e', 'a', 'k'] then .breakWord
  else .identifier (String.ofList word)

end Token

structure Placed where
  token : Token
  span : Span
  deriving Repr, DecidableEq

end LoopTape
