import LoopTape.Token.Basic

/-! From text to tokens.

A text is cut into tokens, blanks and comments from left to right; each token is the longest word of
the language that starts where it starts. The text is refused at the first character where neither a
token, a blank nor a comment starts.
-/

set_option autoImplicit false

namespace LoopTape

def isBlank (c : Char) : Bool := c = ' ' || c = '\t' || c = '\r' || c = '\n'

def isNameStart (c : Char) : Bool := c.isAlpha || c = '_'

def isNameChar (c : Char) : Bool := isNameStart c || c.isDigit

/-- How many characters after a variable's name belong to its slot annotation: a colon and digits,
or nothing. -/
def annotationLength : List Char → Nat
  | ':' :: rest =>
    let digits := (rest.takeWhile Char.isDigit).length
    if digits = 0 then 0 else digits + 1
  | _ => 0

/-- The token that starts with `c`, and how many characters of what follows `c` it takes as well. -/
def Token.scan (c : Char) (rest : List Char) : Option (Token × Nat) :=
  if c = '\x7b' then some (.openBrace, 0)
  else if c = '\x7d' then some (.closeBrace, 0)
  else if c = '(' then some (.openParen, 0)
  else if c = ')' then some (.closeParen, 0)
  else if c = '=' then some (.assign, 0)
  else if c = ';' then some (.semicolon, 0)
  else if c = '$' then
    match rest with
    | first :: _ =>
      if isNameStart first then
        let name := rest.takeWhile isNameChar
        some (.variable (String.ofList name),
          name.length + annotationLength (rest.drop name.length))
      else none
    | [] => none
  else if isNameStart c then
    let more := rest.takeWhile isNameChar
    some (.ofWord (c :: more), more.length)
  else none

/-- How many characters after `c` belong to the blank or comment that `c` starts. -/
def triviaLength? (c : Char) (rest : List Char) : Option Nat :=
  if isBlank c then some 0
  else if c = '/' ∧ rest.head? = some '/' then some (rest.takeWhile (· ≠ '\n')).length
  else none

theorem annotationLength_le (text : List Char) : annotationLength text ≤ text.length := by
  unfold annotationLength
  split
  · next rest =>
    have shorter := (List.takeWhile_sublist (p := Char.isDigit) (l := rest)).length_le
    simp only [List.length_cons]
    split <;> omega
  · exact Nat.zero_le _

theorem Token.scan_le {c : Char} {rest : List Char} {token : Token} {n : Nat}
    (scanned : Token.scan c rest = some (token, n)) : n ≤ rest.length := by
  have shorter := (List.takeWhile_sublist (p := isNameChar) (l := rest)).length_le
  have annotated := annotationLength_le (rest.drop (rest.takeWhile isNameChar).length)
  rw [List.length_drop] at annotated
  unfold Token.scan at scanned
  grind

/-- A text in which no token starts at `position`; `found` is the character there. -/
structure LexError where
  position : Nat
  found : Char
  deriving Repr, DecidableEq

namespace LexError

def snippet (e : LexError) : String := String.singleton e.found

def suggestion (e : LexError) : String :=
  if e.found = '$' then "A variable needs a name after '$', e.g. '$count'"
  else if e.found = '/' then "Comments start with '//'"
  else "Unexpected character(s): '" ++ e.snippet ++
    "'. Only calls, 'cond', 'loop', 'break' and blocks are allowed."

def message (e : LexError) : String :=
  "Lex error at position " ++ toString e.position ++ ": '" ++ e.snippet ++ "'. " ++ e.suggestion

def span (e : LexError) : Span := ⟨e.position, e.position + e.found.utf8Size⟩

end LexError

/-- The tokens of a text that starts at byte `offset`. -/
def lexFrom (offset : Nat) : List Char → Except LexError (List Placed)
  | [] => .ok []
  | c :: rest =>
    match triviaLength? c rest with
    | some n => lexFrom (offset + byteLength (c :: rest.take n)) (rest.drop n)
    | none =>
      match Token.scan c rest with
      | none => .error ⟨offset, c⟩
      | some (token, n) =>
        let stop := offset + byteLength (c :: rest.take n)
        (lexFrom stop (rest.drop n)).map (⟨token, offset, stop⟩ :: ·)
termination_by text => text.length
decreasing_by all_goals simp only [List.length_drop, List.length_cons]; omega

def lex (source : String) : Except LexError (List Placed) := lexFrom 0 source.toList

end LoopTape
