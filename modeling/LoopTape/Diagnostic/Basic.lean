import LoopTape.Machine.Basic
import LoopTape.Symbolic.Fault
import LoopTape.Token.Lexing
import LoopTape.Tree.Reading

/-! Reports of failures, ready to be shown.

A diagnostic says what is wrong, where, and what may help. Every kind of failure has a code of its own.
-/

set_option autoImplicit false

namespace LoopTape

/-- A place with something to say about it. A primary label marks the fault itself. -/
structure Label where
  span : Span
  message : String
  primary : Bool
  deriving Repr, DecidableEq

structure Diagnostic where
  code : Option String
  message : String
  labels : List Label
  notes : List String
  suggestion : Option String
  source : Option String
  deriving Repr, DecidableEq

namespace Diagnostic

def error (message : String) : Diagnostic := ⟨none, message, [], [], none, none⟩

def withCode (d : Diagnostic) (code : String) : Diagnostic := { d with code := some code }

def withLabel (d : Diagnostic) (label : Label) : Diagnostic :=
  { d with labels := d.labels ++ [label] }

def pointAt (d : Diagnostic) (span : Span) : Diagnostic := d.withLabel ⟨span, "here", true⟩

def withNote (d : Diagnostic) (note : String) : Diagnostic := { d with notes := d.notes ++ [note] }

def withSuggestion (d : Diagnostic) (suggestion : String) : Diagnostic :=
  { d with suggestion := some suggestion }

def withSource (d : Diagnostic) (source : String) : Diagnostic := { d with source := some source }

def primary? (d : Diagnostic) : Option Label := d.labels.find? (·.primary)

end Diagnostic

def LexError.diagnostic (e : LexError) : Diagnostic :=
  ((Diagnostic.error ("unexpected input '" ++ e.snippet ++ "'")).withCode "LL-L001").pointAt e.span
    |>.withSuggestion e.suggestion

def ParseError.diagnostic (e : ParseError) : Diagnostic :=
  ((Diagnostic.error e.text).withCode e.code).pointAt e.span

def CompileError.diagnostic (e : CompileError) : Diagnostic :=
  let d := (Diagnostic.error e.message).withCode e.code
  match e with
  | .unsupportedExpression _ span =>
    (d.pointAt span).withSuggestion "bind the call to a variable first: `$tmp = f ...;`"
  | .breakOutsideLoop span =>
    (d.pointAt span).withNote "`break` only exits an enclosing `loop`"
  | .unknownLoopLabel _ span => d.pointAt span
  | .duplicateLoopLabel _ span previous =>
    (d.pointAt span).withLabel ⟨previous, "enclosing loop uses the same label", false⟩
  | .unresolvedVariable _ | .undefinedLabel _ => d

def MachineError.diagnostic (e : MachineError) : Diagnostic :=
  (Diagnostic.error e.message).withCode e.code

end LoopTape
