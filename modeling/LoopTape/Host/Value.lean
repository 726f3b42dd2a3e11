import LoopTape.Number.Shortest

/-! Values that programs hold and host functions work on. -/

set_option autoImplicit false

namespace LoopTape

inductive Value where
  | nil
  | bool (value : Bool)
  | number (value : Binary64)
  | text (value : String)
  deriving Repr, DecidableEq

namespace Value

def typeName : Value → String
  | .nil => "nil"
  | .bool _ => "bool"
  | .number _ => "number"
  | .text _ => "text"

def display : Value → String
  | .nil => "nil"
  | .bool true => "true"
  | .bool false => "false"
  | .number value => value.text
  | .text value => value

def equal : Value → Value → Bool
  | .nil, .nil => true
  | .bool a, .bool b => a = b
  | .number a, .number b => a.equal b
  | .text a, .text b => a = b
  | _, _ => false

def join (separator : String) (values : List Value) : String :=
  separator.intercalate (values.map display)

end Value

end LoopTape
