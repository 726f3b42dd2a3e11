import LoopTape.Text.Span

/-! Why a tree has no code. -/

set_option autoImplicit false

namespace LoopTape

inductive CompileError where
  | unsupportedExpression (callee : String) (span : Span)
  | breakOutsideLoop (span : Span)
  | unknownLoopLabel (label : String) (span : Span)
  | duplicateLoopLabel (label : String) (span previous : Span)
  | unresolvedVariable (name : String)
  | undefinedLabel (id : Nat)
  deriving Repr, DecidableEq

namespace CompileError

def message : CompileError → String
  | .unsupportedExpression callee _ =>
    "unsupported expression: call to '" ++ callee ++ "' as a value cannot be used here"
  | .breakOutsideLoop _ => "break outside loop"
  | .unknownLoopLabel label _ => "unknown loop label: " ++ label
  | .duplicateLoopLabel label _ _ =>
    "loop label '" ++ label ++ "' is already used by an enclosing loop"
  | .unresolvedVariable name =>
    "variable $" ++ name ++ " has no slot; resolve scopes before generating code"
  | .undefinedLabel id => "jump to undefined label L" ++ toString id

def code : CompileError → String
  | .unsupportedExpression .. => "LL-C001"
  | .breakOutsideLoop .. => "LL-C002"
  | .unknownLoopLabel .. => "LL-C003"
  | .duplicateLoopLabel .. => "LL-C004"
  | .unresolvedVariable .. => "LL-C005"
  | .undefinedLabel .. => "LL-C006"

def span? : CompileError → Option Span
  | .unsupportedExpression _ span | .breakOutsideLoop span | .unknownLoopLabel _ span
  | .duplicateLoopLabel _ span _ => some span
  | .unresolvedVariable _ | .undefinedLabel _ => none

end CompileError

end LoopTape
