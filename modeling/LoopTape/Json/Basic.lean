/-! Values of the JSON data format.

Objects keep their members in order. A number that is not written as an integer keeps its text.
-/

set_option autoImplicit false

namespace LoopTape

inductive Json where
  | null
  | bool (value : Bool)
  | int (value : Int)
  | real (text : String)
  | str (value : String)
  | arr (items : List Json)
  | obj (members : List (String × Json))
  deriving Repr, Inhabited

namespace Json

def ofOption {α : Type} (encode : α → Json) : Option α → Json
  | none => .null
  | some value => encode value

def ofNat (n : Nat) : Json := .int n

def get? (name : String) : Json → Option Json
  | .obj members => members.lookup name
  | _ => none

end Json

end LoopTape
