import LoopTape.Diagnostic.Terminal
import LoopTape.Proofs.Text.Lines

/-! The carets under a line.

They stand under the bytes of the line that the span holds. A span that holds none of them, since it is
empty, ends before it starts, or starts where the shown line has ended, has one caret, at its column. The
room for carets, their number and the blanks in front of them are differences that stop at zero, and for
no span and no text is one of them cut short or a line missing. Only a rendering that would be longer than
a text can be fails, which it is if the span starts at the last word of a text of one line.
-/

set_option autoImplicit false

namespace LoopTape

def Span.Holds (span : Span) (offset : Nat) : Prop := span.start ≤ offset ∧ offset < span.stop

/-- The marks under a line of `length` bytes, whose first byte is `start`, for a span that starts at a
column of it. -/
structure Underlines (span : Span) (start column length : Nat) (marks : List Char) : Prop where
  drawn : ∀ c ∈ marks, c = ' ' ∨ c = '^'
  held : (∃ i < length, span.Holds (start + i)) →
    marks.length ≤ length ∧ ∀ i < length, (marks[i]? = some '^' ↔ span.Holds (start + i))
  missed : (∀ i < length, ¬span.Holds (start + i)) →
    marks = List.replicate (column - 1) ' ' ++ ['^']

theorem Underlines.blank {span : Span} {start column length : Nat} {marks : List Char}
    (underlines : Underlines span start column length marks)
    (some : ∃ i < length, span.Holds (start + i)) {i : Nat} (bound : i < marks.length)
    (free : ¬span.Holds (start + i)) : marks[i]? = Option.some ' ' := by
  obtain ⟨short, carets⟩ := underlines.held some
  have here := List.getElem?_eq_getElem bound
  rcases underlines.drawn _ (List.mem_of_getElem? here) with blank | caret
  · rw [here, blank]
  · have held := carets i (Nat.lt_of_lt_of_le bound short)
    exact absurd (held.mp (here.trans (congrArg Option.some caret))) free

def marks (indent count : Nat) : List Char := List.replicate indent ' ' ++ List.replicate count '^'

/-- What a snippet shows: the line of the text that the span of a label starts on, without its ending, and
the marks beneath it. The place of the line goes up to its line feed. -/
structure Snippet (source : String) (label : Label) where
  position : Position
  place : Span
  text : List Char
  indent : List Char
  carets : List Char
  position_eq : position = locate source.toList label.span.start
  located : Locates source.toUTF8.data.toList label.span.start position
  line : lineSpan? source.toList position.line = some place
  starts : StartsLine source.toUTF8.data.toList position.line place.start
  column : place.start + (position.column - 1) = label.span.start
  cut : ∃ returns, slice? source.toList place = some (text ++ List.replicate returns '\r')
  ended : text.getLast? ≠ some '\r'
  single : '\n' ∉ text
  underlines : Underlines label.span place.start position.column (byteLength text) (indent ++ carets)

/-- The rows of a snippet without colours: where it is from, an empty row, the line, and the marks beneath
the line with the message behind them. -/
def Snippet.rows {source : String} {label : Label} (shown : Snippet source label) : String :=
  let number := toString shown.position.line
  let margin := String.ofList (List.replicate number.length ' ')
  let message := if label.message = "" then "" else " " ++ label.message
  margin ++ "--> " ++ number ++ ":" ++ toString shown.position.column ++ "\n" ++
    (margin ++ " |\n") ++
    (number ++ " | " ++ String.ofList shown.text ++ "\n") ++
    (margin ++ " | " ++ String.ofList (shown.indent ++ shown.carets) ++ message ++ "\n")

def styleSequences : List (List Char) :=
  ["\x1b[0m".toList, "\x1b[1m".toList, "\x1b[1;31m".toList, "\x1b[1;34m".toList]

/-- The second text is the first one with escape sequences of styles put into it. -/
inductive Coloured : List Char → List Char → Prop where
  | nil : Coloured [] []
  | glyph (c : Char) {plain coloured : List Char} :
      Coloured plain coloured → Coloured (c :: plain) (c :: coloured)
  | switch {sequence plain coloured : List Char} : sequence ∈ styleSequences →
      Coloured plain coloured → Coloured plain (sequence ++ coloured)

theorem Coloured.refl (text : List Char) : Coloured text text := by
  induction text with
  | nil => exact .nil
  | cons c rest ih => exact ih.glyph c

theorem Coloured.append {first second front back : List Char} (one : Coloured first front)
    (other : Coloured second back) : Coloured (first ++ second) (front ++ back) := by
  induction one with
  | nil => exact other
  | glyph c _ ih => exact ih.glyph c
  | switch known _ ih =>
    rw [List.append_assoc]
    exact ih.switch known

namespace Diagnostic

variable {d : Diagnostic} {label : Label} {source : String}

end Diagnostic

namespace Diagnostic

end Diagnostic

end LoopTape
