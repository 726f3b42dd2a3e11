import LoopTape.Symbolic.Basic
import LoopTape.Tape.Basic

/-! Code as people read it: one instruction on a line. -/

set_option autoImplicit false

namespace LoopTape

def slotText (slot : Nat) : String := "$" ++ toString slot

def callText (name : String) (inputs : List Nat) (output : Option Nat) : String :=
  "call " ++ name ++ " [" ++ " ".intercalate (inputs.map slotText) ++ "]" ++
    match output with
    | some slot => " -> " ++ slotText slot
    | none => ""

/-- A jump; one that is always taken does not show its condition. -/
def jumpText (condition : Nat) (target : String) : String :=
  if condition = 0 then "jump " ++ target else "jump-if " ++ slotText condition ++ " " ++ target

def growText (count : Nat) : String := "grow " ++ toString count

def shrinkText (count : Nat) : String := "shrink " ++ toString count

def labelText (id : Nat) : String := "L" ++ toString id

def Instr.text : Instr → String
  | .call name inputs output => callText name inputs output
  | .jump condition target => jumpText condition (toString target)
  | .grow count => growText count
  | .shrink count => shrinkText count

def Symbolic.text : Symbolic → String
  | .call name inputs output => callText name inputs output
  | .jump condition id => jumpText condition (labelText id)
  | .label id => labelText id ++ ":"
  | .grow count => growText count
  | .shrink count => shrinkText count

def indexText (index : Nat) : String :=
  let digits := Nat.toDigits 10 index
  String.ofList (List.replicate (4 - digits.length) '0' ++ digits)

def listingFrom (index : Nat) : Tape → String
  | [] => ""
  | instr :: rest => indexText index ++ "  " ++ instr.text ++ "\n" ++ listingFrom (index + 1) rest

def Tape.listing (tape : Tape) : String := listingFrom 0 tape

end LoopTape
