import LoopTape.Json.Lexeme

/-! From text to JSON values.

Lexemes are read from left to right; the arrays and objects that are open around the point reached are
kept on a stack, the innermost first. A text in which too many of them are open at once is not read.
-/

set_option autoImplicit false

namespace LoopTape.Json

/-- An array or object that is being read, with its items or members so far, the last one first, and the
name of the member that is being read. -/
inductive Open where
  | array (items : List Json)
  | object (members : List (String × Json)) (name : String)

/-- What may come next. At the first item or name the array or object was just opened, and may end. -/
inductive Reading where
  | atValue (around : List Open)
  | atFirstItem (around : List Open)
  | atFirstName (around : List Open)
  | atName (members : List (String × Json)) (around : List Open)
  | atColon (members : List (String × Json)) (name : String) (around : List Open)
  | after (value : Json) (around : List Open)

/-- How many arrays and objects can be open at once. -/
def depthLimit : Nat := 127

namespace Reading

def opened (state : List Open → Reading) (around : List Open) : Option Reading :=
  if around.length < depthLimit then some (state around) else none

def startValue (lexeme : Lexeme) (around : List Open) : Option Reading :=
  match lexeme with
  | .scalar value => some (.after value around)
  | .text value => some (.after (.str value) around)
  | .openArray => opened .atFirstItem around
  | .openObject => opened .atFirstName around
  | _ => none

def feed (lexeme : Lexeme) : Reading → Option Reading
  | .atValue around => startValue lexeme around
  | .atFirstItem around =>
    match lexeme with
    | .closeArray => some (.after (.arr []) around)
    | _ => startValue lexeme (.array [] :: around)
  | .atFirstName around =>
    match lexeme with
    | .closeObject => some (.after (.obj []) around)
    | .text name => some (.atColon [] name around)
    | _ => none
  | .atName members around =>
    match lexeme with
    | .text name => some (.atColon members name around)
    | _ => none
  | .atColon members name around =>
    match lexeme with
    | .colon => some (.atValue (.object members name :: around))
    | _ => none
  | .after value (.array items :: around) =>
    match lexeme with
    | .comma => some (.atValue (.array (value :: items) :: around))
    | .closeArray => some (.after (.arr (value :: items).reverse) around)
    | _ => none
  | .after value (.object members name :: around) =>
    match lexeme with
    | .comma => some (.atName ((name, value) :: members) around)
    | .closeObject => some (.after (.obj ((name, value) :: members).reverse) around)
    | _ => none
  | .after _ [] => none

def finish : Reading → Option Json
  | .after value [] => some value
  | _ => none

def run (state : Reading) : List Lexeme → Option Json
  | [] => state.finish
  | lexeme :: rest => do (← state.feed lexeme).run rest

end Reading

def parse (text : String) : Option Json := do
  (Reading.atValue []).run (← lexemes text)

end LoopTape.Json
