import LoopTape.Json.Basic

/-! JSON values as text.

The compact form has no blanks. The indented form puts each item and member on a line of its own, two
spaces deeper than what holds it; empty arrays and objects stay on one line. Strings escape the
quotation mark, the backslash and the controls, and hold all other characters as they are.
-/

set_option autoImplicit false

namespace LoopTape.Json

def controlEscape (n : Nat) : List Char :=
  ['\\', 'u', '0', '0', Nat.digitChar (n / 16), Nat.digitChar (n % 16)]

def escapeChar (c : Char) : List Char :=
  if c = '"' then ['\\', '"']
  else if c = '\\' then ['\\', '\\']
  else if c = '\x08' then ['\\', 'b']
  else if c = '\x0c' then ['\\', 'f']
  else if c = '\n' then ['\\', 'n']
  else if c = '\r' then ['\\', 'r']
  else if c = '\t' then ['\\', 't']
  else if c.toNat < 32 then controlEscape c.toNat
  else [c]

def quote (s : String) : String := String.ofList ('"' :: s.toList.flatMap escapeChar ++ ['"'])

mutual

def compact : Json → String
  | .null => "null"
  | .bool true => "true"
  | .bool false => "false"
  | .int value => toString value
  | .real text => text
  | .str value => quote value
  | .arr [] => "[]"
  | .arr (item :: rest) => "[" ++ item.compact ++ compactItems rest ++ "]"
  | .obj [] => "\x7b\x7d"
  | .obj ((name, value) :: rest) =>
    "\x7b" ++ quote name ++ ":" ++ value.compact ++ compactMembers rest ++ "\x7d"

def compactItems : List Json → String
  | [] => ""
  | item :: rest => "," ++ item.compact ++ compactItems rest

def compactMembers : List (String × Json) → String
  | [] => ""
  | (name, value) :: rest => "," ++ quote name ++ ":" ++ value.compact ++ compactMembers rest

end

def newLine (depth : Nat) : String := String.ofList ('\n' :: List.replicate (2 * depth) ' ')

mutual

/-- The indented form; lines after the first one stand inside `depth` arrays and objects. -/
def indented (depth : Nat) : Json → String
  | .null => "null"
  | .bool true => "true"
  | .bool false => "false"
  | .int value => toString value
  | .real text => text
  | .str value => quote value
  | .arr [] => "[]"
  | .arr (item :: rest) =>
    "[" ++ newLine (depth + 1) ++ item.indented (depth + 1) ++ indentedItems (depth + 1) rest ++
      newLine depth ++ "]"
  | .obj [] => "\x7b\x7d"
  | .obj ((name, value) :: rest) =>
    "\x7b" ++ newLine (depth + 1) ++ quote name ++ ": " ++ value.indented (depth + 1) ++
      indentedMembers (depth + 1) rest ++ newLine depth ++ "\x7d"

def indentedItems (depth : Nat) : List Json → String
  | [] => ""
  | item :: rest => "," ++ newLine depth ++ item.indented depth ++ indentedItems depth rest

def indentedMembers (depth : Nat) : List (String × Json) → String
  | [] => ""
  | (name, value) :: rest =>
    "," ++ newLine depth ++ quote name ++ ": " ++ value.indented depth ++ indentedMembers depth rest

end

def pretty (value : Json) : String := value.indented 0

end LoopTape.Json
