/-! Regions of a text, counted in bytes of its encoded form.

A span is half open: it holds the bytes from `start` up to, and without, `stop`.
-/

set_option autoImplicit false

namespace LoopTape

structure Span where
  start : Nat
  stop : Nat
  deriving Repr, DecidableEq, Inhabited

namespace Span

def unknown : Span := ⟨0, 0⟩

def merge (a b : Span) : Span := ⟨min a.start b.start, max a.stop b.stop⟩

def shift (s : Span) (offset : Nat) : Span := ⟨s.start + offset, s.stop + offset⟩

end Span

def byteLength : List Char → Nat
  | [] => 0
  | c :: rest => c.utf8Size + byteLength rest

@[simp] theorem byteLength_nil : byteLength [] = 0 := rfl

@[simp] theorem byteLength_cons (c : Char) (text : List Char) :
    byteLength (c :: text) = c.utf8Size + byteLength text := rfl

@[simp] theorem byteLength_append (a b : List Char) :
    byteLength (a ++ b) = byteLength a + byteLength b := by
  induction a with
  | nil => simp
  | cons c rest ih => simp [ih, Nat.add_assoc]

theorem length_le_byteLength (text : List Char) : text.length ≤ byteLength text := by
  induction text with
  | nil => exact Nat.le_refl 0
  | cons c rest ih =>
    have positive := c.utf8Size_pos
    simp only [List.length_cons, byteLength_cons]
    omega

theorem eq_nil_of_byteLength {text : List Char} (none : byteLength text = 0) : text = [] :=
  List.length_eq_zero_iff.mp (Nat.le_zero.mp (none ▸ length_le_byteLength text))

/-- A text cut in two behind a number of bytes. Nothing is cut past the end or inside a character. -/
def splitBytes? : Nat → List Char → Option (List Char × List Char)
  | 0, text => some ([], text)
  | _ + 1, [] => none
  | n + 1, c :: rest =>
    if c.utf8Size ≤ n + 1 then
      (splitBytes? (n + 1 - c.utf8Size) rest).map fun (front, back) => (c :: front, back)
    else none

/-- The characters of a span, which must start and stop between characters of the text. -/
def slice? (text : List Char) (span : Span) : Option (List Char) := do
  guard (span.start ≤ span.stop)
  let (_, back) ← splitBytes? span.start text
  let (piece, _) ← splitBytes? (span.stop - span.start) back
  return piece

end LoopTape
