import LoopTape.Json.Basic

/-! The words of a JSON text.

The text is read one character at a time; the mode says what the characters read so far are the
beginning of.
-/

set_option autoImplicit false

namespace LoopTape.Json

inductive Lexeme where
  | openArray | closeArray | openObject | closeObject | comma | colon
  | text (value : String)
  | scalar (value : Json)

/-- What is being read. Characters read so far are kept with the last one first. An escape by number has
digits still to come, and behind the first half of a surrogate pair the other half must come. -/
inductive Mode where
  | between
  | word (read : List Char)
  | text (read : List Char)
  | escape (read : List Char)
  | unit (read : List Char) (high : Option Nat) (missing : Nat) (value : Nat)
  | half (read : List Char) (high : Nat)
  | halfEscape (read : List Char) (high : Nat)

def isBlank (c : Char) : Bool := c = ' ' || c = '\t' || c = '\n' || c = '\r'

def isWordChar (c : Char) : Bool := c.isAlphanum || c = '-' || c = '+' || c = '.'

def digitsValue (digits : List Char) : Nat :=
  digits.foldl (fun n c => n * 10 + (c.toNat - 48)) 0

/-- Digits that stand for a whole number: not empty, and without a zero in front. -/
def isWhole (digits : List Char) : Bool :=
  !digits.isEmpty && digits.all Char.isDigit && (digits.head? ≠ some '0' || digits.length = 1)

def isExponent (read : List Char) : Bool :=
  let digits :=
    match read with
    | '+' :: rest => rest
    | '-' :: rest => rest
    | _ => read
  !digits.isEmpty && digits.all Char.isDigit

def isScale (read : List Char) : Bool :=
  match read with
  | [] => true
  | c :: rest => (c = 'e' || c = 'E') && isExponent rest

def isTail (read : List Char) : Bool :=
  match read with
  | '.' :: rest =>
    let digits := rest.takeWhile Char.isDigit
    !digits.isEmpty && isScale (rest.drop digits.length)
  | _ => isScale read

def number? (word : List Char) : Option Json :=
  let (negative, unsigned) :=
    match word with
    | '-' :: rest => (true, rest)
    | _ => (false, word)
  let whole := unsigned.takeWhile Char.isDigit
  let tail := unsigned.drop whole.length
  if isWhole whole && isTail tail then
    if tail.isEmpty then
      let value : Int := digitsValue whole
      some (.int (if negative then -value else value))
    else some (.real (String.ofList word))
  else none

def word? (word : List Char) : Option Json :=
  if word = ['n', 'u', 'l', 'l'] then some .null
  else if word = ['t', 'r', 'u', 'e'] then some (.bool true)
  else if word = ['f', 'a', 'l', 's', 'e'] then some (.bool false)
  else number? word

def escapeLetter? (c : Char) : Option Char :=
  if c = '"' then some '"'
  else if c = '\\' then some '\\'
  else if c = '/' then some '/'
  else if c = 'b' then some '\x08'
  else if c = 'f' then some '\x0c'
  else if c = 'n' then some '\n'
  else if c = 'r' then some '\r'
  else if c = 't' then some '\t'
  else none

def hexDigit? (c : Char) : Option Nat :=
  if c.isDigit then some (c.toNat - 48)
  else if 'a' ≤ c ∧ c ≤ 'f' then some (c.toNat - 87)
  else if 'A' ≤ c ∧ c ≤ 'F' then some (c.toNat - 55)
  else none

/-- The mode after a whole escape by number. Two halves of a surrogate pair make one character, and
neither may stand alone. -/
def closeUnit (read : List Char) (high : Option Nat) (value : Nat) : Option Mode :=
  let isLow := 0xDC00 ≤ value && value < 0xE000
  match high with
  | some first =>
    if isLow then
      some (.text (Char.ofNat (0x10000 + (first - 0xD800) * 0x400 + (value - 0xDC00)) :: read))
    else none
  | none =>
    if 0xD800 ≤ value && value < 0xDC00 then some (.half read value)
    else if isLow then none
    else some (.text (Char.ofNat value :: read))

def mark? (c : Char) : Option Lexeme :=
  if c = '[' then some .openArray
  else if c = ']' then some .closeArray
  else if c = '\x7b' then some .openObject
  else if c = '\x7d' then some .closeObject
  else if c = ',' then some .comma
  else if c = ':' then some .colon
  else none

def Mode.start (c : Char) : Option (List Lexeme × Mode) :=
  if isBlank c then some ([], .between)
  else if c = '"' then some ([], .text [])
  else if isWordChar c then some ([], .word [c])
  else (mark? c).map fun mark => ([mark], .between)

/-- The lexemes that are complete after one more character, and the mode after it. -/
def Mode.next (c : Char) : Mode → Option (List Lexeme × Mode)
  | .between => Mode.start c
  | .word read =>
    if isWordChar c then some ([], .word (c :: read))
    else do
      let value ← word? read.reverse
      let (lexemes, mode) ← Mode.start c
      return (.scalar value :: lexemes, mode)
  | .text read =>
    if c = '"' then some ([.text (String.ofList read.reverse)], .between)
    else if c = '\\' then some ([], .escape read)
    else if c.toNat < 32 then none
    else some ([], .text (c :: read))
  | .escape read =>
    if c = 'u' then some ([], .unit read none 4 0)
    else (escapeLetter? c).map fun char => ([], .text (char :: read))
  | .unit read high missing value => do
    let value := value * 16 + (← hexDigit? c)
    if missing ≤ 1 then (closeUnit read high value).map (([], ·))
    else return ([], .unit read high (missing - 1) value)
  | .half read high => if c = '\\' then some ([], .halfEscape read high) else none
  | .halfEscape read high => if c = 'u' then some ([], .unit read (some high) 4 0) else none

def Mode.finish : Mode → Option (List Lexeme)
  | .between => some []
  | .word read => (word? read.reverse).map ([.scalar ·])
  | _ => none

/-- The lexemes of a text, of which `done` holds those complete so far, the last one first, and the
mode tells what was read of the next one. -/
def lexemesFrom (done : List Lexeme) (mode : Mode) : List Char → Option (List Lexeme)
  | [] => mode.finish.map fun last => done.reverse ++ last
  | c :: rest => do
    let (complete, next) ← mode.next c
    lexemesFrom (complete.reverse ++ done) next rest

def lexemes (text : String) : Option (List Lexeme) := lexemesFrom [] .between text.toList

end LoopTape.Json
