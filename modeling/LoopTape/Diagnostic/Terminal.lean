import LoopTape.Diagnostic.Basic
import LoopTape.Text.Position

/-! Diagnostics for terminals.

The first primary label is shown with its line of the source and carets under the marked bytes; the
other labels, the notes and the suggestion follow, one on a line. Colours are escape sequences around
pieces of the text and change nothing else.
-/

set_option autoImplicit false

namespace LoopTape

inductive Style where
  | bold | red | blue
  deriving Repr, DecidableEq

def Style.parameters : Style → String
  | .bold => "1"
  | .red => "1;31"
  | .blue => "1;34"

structure Painted where
  style : Option Style
  text : String
  deriving Repr, DecidableEq

namespace Painted

def plain (text : String) : Painted := ⟨none, text⟩

def bold (text : String) : Painted := ⟨some .bold, text⟩

def red (text : String) : Painted := ⟨some .red, text⟩

def blue (text : String) : Painted := ⟨some .blue, text⟩

/-- A styled piece stands between the sequence for its style and the one that resets all styles. -/
def write (color : Bool) (piece : Painted) : String :=
  match color, piece.style with
  | true, some style => "\x1b[" ++ style.parameters ++ "m" ++ piece.text ++ "\x1b[0m"
  | _, _ => piece.text

def writeAll (color : Bool) (pieces : List Painted) : String := String.join (pieces.map (write color))

@[simp] theorem writeAll_nil (color : Bool) : writeAll color [] = "" := rfl

@[simp] theorem writeAll_cons (color : Bool) (piece : Painted) (rest : List Painted) :
    writeAll color (piece :: rest) = piece.write color ++ writeAll color rest := String.join_cons

end Painted

/-- The bytes of a text are counted by signed words. -/
def maxTextLength : Nat := Nat.pow 2 63 - 1

def spaces (count : Nat) : String := String.ofList (List.replicate count ' ')

def clamp (n low high : Nat) (_ : low ≤ high) : Nat := min (max n low) high

def Position.indent (position : Position) : Nat := (position.column + (wordSize - 1)) % wordSize

def caretRoom (indent length : Nat) : Nat := max (length - indent) 1

theorem one_le_caretRoom (indent length : Nat) : 1 ≤ caretRoom indent length := Nat.le_max_right _ _

/-- How many carets mark a span in a line of `length` bytes, behind an indentation: they stop at the
end of the line, and there is always one. -/
def caretCount (span : Span) (indent length : Nat) : Nat :=
  clamp (span.stop - span.start) 1 (caretRoom indent length) (one_le_caretRoom indent length)

namespace Diagnostic

def headline (d : Diagnostic) : List Painted :=
  let head :=
    match d.code with
    | some code => "error[" ++ code ++ "]"
    | none => "error"
  [.red head, .plain ": ", .bold d.message, .plain "\n"]

def snippet (source : List Char) (label : Label) : List Painted :=
  let position := locate source label.span.start
  let text := lineText source position.line
  let number := toString position.line
  let pad := spaces number.length
  let carets := String.ofList
    (List.replicate (caretCount label.span position.indent (byteLength text)) '^')
  let remark := if label.message = "" then [] else [.plain " ", .red label.message]
  [.plain pad, .blue "-->",
    .plain (" " ++ toString position.line ++ ":" ++ toString position.column ++ "\n"),
    .plain (pad ++ " "), .blue "|", .plain "\n",
    .blue number, .plain " ", .blue "|", .plain (" " ++ String.ofList text ++ "\n"),
    .plain (pad ++ " "), .blue "|", .plain (" " ++ spaces position.indent), .red carets]
    ++ remark ++ [.plain "\n"]

def remark (text : String) : List Painted := [.plain "  ", .blue "=", .plain (" " ++ text ++ "\n")]

def aside (source : Option String) (label : Label) : List Painted :=
  match source with
  | some source =>
    let position := locate source.toList label.span.start
    remark (toString position.line ++ ":" ++ toString position.column ++ ": " ++ label.message)
  | none => remark label.message

def shown (d : Diagnostic) : List Painted :=
  match d.primary?, d.source with
  | some label, some source => snippet source.toList label
  | _, _ => []

def additions (d : Diagnostic) : List Painted :=
  let asides := d.labels.filter fun label => !label.primary && label.message ≠ ""
  asides.flatMap (aside d.source) ++ d.notes.flatMap (fun note => remark ("note: " ++ note)) ++
    d.suggestion.toList.flatMap fun suggestion => remark ("help: " ++ suggestion)

def pieces (d : Diagnostic) : List Painted := d.headline ++ d.shown ++ d.additions

def render (color : Bool) (d : Diagnostic) : String := Painted.writeAll color d.pieces

def indentation (d : Diagnostic) : Nat :=
  match d.primary?, d.source with
  | some label, some source => (locate source.toList label.span.start).indent
  | _, _ => 0

/-- The rendering if it is no longer than a text can be. The blanks in front of the carets, which are
made before anything is put together, may be too many on their own. -/
def render? (color : Bool) (d : Diagnostic) : Option String :=
  if d.indentation ≤ maxTextLength then
    let text := d.render color
    if text.utf8ByteSize ≤ maxTextLength then some text else none
  else none

end Diagnostic

end LoopTape
