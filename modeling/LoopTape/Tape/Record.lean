import LoopTape.Json.Member
import LoopTape.Tape.Basic

/-! Tapes as JSON values.

A tape is a record. An instruction is an object of one member, named for its kind; the operands of a
call or a jump are always held by name. Slots and counts are below 2^32 and jump targets below 2^64.
-/

set_option autoImplicit false

namespace LoopTape

def Instr.toJson : Instr → Json
  | .call name inputs output =>
    .obj [("Call", .obj [("name", .str name), ("inputs", .arr (inputs.map .ofNat)),
      ("output", .ofOption .ofNat output)])]
  | .jump condition target =>
    .obj [("JumpIf", .obj [("cond", .ofNat condition), ("target", .ofNat target)])]
  | .grow count => .obj [("Grow", .ofNat count)]
  | .shrink count => .obj [("Shrink", .ofNat count)]

def Tape.toJson (tape : Tape) : Json := .obj [("code", .arr (tape.map Instr.toJson))]

def slotOfJson? : Json → Option Nat := Json.nat? (Nat.pow 2 32)

def Instr.ofJson? : Json → Option Instr
  | .obj [("Call", .obj members)] =>
    match Json.memberOrNull "name" members, Json.memberOrNull "inputs" members with
    | .str name, .arr items => do
      let inputs ← items.mapM slotOfJson?
      let output ← (Json.memberOrNull "output" members).orNull? slotOfJson?
      return .call name inputs output
    | _, _ => none
  | .obj [("JumpIf", .obj members)] => do
    let condition ← slotOfJson? (Json.memberOrNull "cond" members)
    let target ← Json.nat? (Nat.pow 2 64) (Json.memberOrNull "target" members)
    return .jump condition target
  | .obj [("Grow", value)] => (slotOfJson? value).map .grow
  | .obj [("Shrink", value)] => (slotOfJson? value).map .shrink
  | _ => none

def Tape.ofJson? (json : Json) : Option Tape :=
  match json.fields ["code"] with
  | some [⟨.arr items, _⟩] => items.mapM Instr.ofJson?
  | _ => none

end LoopTape
