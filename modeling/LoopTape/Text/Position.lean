import LoopTape.Text.Span

/-! Lines and columns of a text.

Lines end at a line feed and are counted from one; columns count bytes from one. A text always
has a last line, which is empty when the text ends with a line feed. Offsets and columns are machine
words, and so are sums of them: one more than the last word is zero.
-/

set_option autoImplicit false

namespace LoopTape

structure Position where
  line : Nat
  column : Nat
  deriving Repr, DecidableEq

/-- The byte offsets at which lines start, in rising order; `offset` is where the text itself starts. -/
def lineStartsFrom (offset : Nat) : List Char → List Nat
  | [] => []
  | c :: rest =>
    let next := offset + c.utf8Size
    if c = '\n' then next :: lineStartsFrom next rest else lineStartsFrom next rest

def lineStarts (text : List Char) : List Nat := 0 :: lineStartsFrom 0 text

def wordSize : Nat := Nat.pow 2 64

def bytesInLine (text : List Char) (offset : Nat) : Nat :=
  offset - ((lineStarts text).filter (· ≤ offset)).getLastD 0

/-- The position of a byte offset. An offset past the end counts on along the last line. -/
def locate (text : List Char) (offset : Nat) : Position :=
  ⟨((lineStarts text).filter (· ≤ offset)).length, (bytesInLine text offset + 1) % wordSize⟩

/-- The bytes of a line, counted from one, without its line feed. -/
def lineSpan? (text : List Char) (number : Nat) : Option Span :=
  match number with
  | 0 => none
  | index + 1 => do
    let start ← (lineStarts text)[index]?
    match (lineStarts text)[index + 1]? with
    | some next => return ⟨start, next - 1⟩
    | none => return ⟨start, byteLength text⟩

def dropReturns (text : List Char) : List Char := (text.reverse.dropWhile (· = '\r')).reverse

/-- The text of a line, counted from one, without its ending; empty when there is no such line. -/
def lineText (text : List Char) (number : Nat) : List Char :=
  match lineSpan? text number with
  | some span => dropReturns ((slice? text span).getD [])
  | none => []

end LoopTape
