import LoopTape.Json.Member
import LoopTape.Tree.Basic

/-! Trees as JSON values.

A statement or expression is an object of one member, named for its kind; everything else is a record.
Slots and spans are no fields of it, so a tree that was read has none.
-/

set_option autoImplicit false

namespace LoopTape

def Variable.toJson (v : Variable) : Json := .obj [("name", .str v.name)]

def callRecord (name : String) (args : List Json) : Json :=
  .obj [("name", .str name), ("args", .arr args)]

mutual

def Expr.toJson : Expr → Json
  | .variable v => .obj [("Var", v.toJson)]
  | .paren inner => .obj [("Paren", inner.toJson)]
  | .call name args _ => .obj [("Call", callRecord name (Expr.toJsonAll args))]

def Expr.toJsonAll : List Expr → List Json
  | [] => []
  | e :: rest => e.toJson :: Expr.toJsonAll rest

end

def labelRecord (label : Option String) : Json := .ofOption .str label

mutual

def Block.toJson : Block → Json
  | .mk stmts _ => .obj [("stmts", .arr (Stmt.toJsonAll stmts))]

def Stmt.toJsonAll : List Stmt → List Json
  | [] => []
  | s :: rest => s.toJson :: Stmt.toJsonAll rest

def Stmt.toJson : Stmt → Json
  | .cond condition thenBlock none =>
    .obj [("Cond", .obj [("condition", condition.toJson), ("then_block", thenBlock.toJson),
      ("else_block", .null)])]
  | .cond condition thenBlock (some elseBlock) =>
    .obj [("Cond", .obj [("condition", condition.toJson), ("then_block", thenBlock.toJson),
      ("else_block", elseBlock.toJson)])]
  | .loop label body _ =>
    .obj [("Loop", .obj [("label", labelRecord label), ("body", body.toJson)])]
  | .leave label _ => .obj [("Break", .obj [("label", labelRecord label)])]
  | .call result name args _ =>
    .obj [("Call", .obj [("result", .ofOption Variable.toJson result),
      ("call", callRecord name (Expr.toJsonAll args))])]
  | .block inner => .obj [("Block", inner.toJson)]

end

def Variable.ofJson? (json : Json) : Option Variable :=
  match json.fields ["name"] with
  | some [⟨.str name, _⟩] => some (.unbound name)
  | _ => none

mutual

def Expr.ofJson? (json : Json) : Option Expr :=
  match json with
  | .obj [("Var", value)] => (Variable.ofJson? value).map .variable
  | .obj [("Paren", value)] => (Expr.ofJson? value).map .paren
  | .obj [("Call", value)] => do
    let (name, args) ← callOfJson? value
    return .call name args .unknown
  | _ => none
termination_by sizeOf json

def callOfJson? (json : Json) : Option (String × List Expr) :=
  match json.fields ["name", "args"] with
  | some [⟨.str name, _⟩, ⟨.arr items, _⟩] => do
    let args ← Expr.listOfJson? items
    return (name, args)
  | _ => none
termination_by sizeOf json
decreasing_by rename_i smaller; simp at smaller; omega

def Expr.listOfJson? (items : List Json) : Option (List Expr) :=
  match items with
  | [] => some []
  | item :: rest => do
    let first ← Expr.ofJson? item
    let others ← Expr.listOfJson? rest
    return first :: others
termination_by sizeOf items

end

mutual

def Block.ofJson? (json : Json) : Option Block :=
  match json.fields ["stmts"] with
  | some [⟨.arr items, _⟩] => (Stmt.listOfJson? items).map .unscoped
  | _ => none
termination_by sizeOf json
decreasing_by rename_i smaller; simp at smaller; omega

def Stmt.listOfJson? (items : List Json) : Option (List Stmt) :=
  match items with
  | [] => some []
  | item :: rest => do
    let first ← Stmt.ofJson? item
    let others ← Stmt.listOfJson? rest
    return first :: others
termination_by sizeOf items

def Stmt.ofJson? (json : Json) : Option Stmt :=
  match json with
  | .obj [("Cond", value)] =>
    match value.fields ["condition", "then_block", "else_block"] with
    | some [⟨condition, _⟩, ⟨thenRecord, _⟩, ⟨.null, _⟩] => do
      let condition ← Expr.ofJson? condition
      let thenBlock ← Block.ofJson? thenRecord
      return .cond condition thenBlock none
    | some [⟨condition, _⟩, ⟨thenRecord, _⟩, ⟨elseRecord, _⟩] => do
      let condition ← Expr.ofJson? condition
      let thenBlock ← Block.ofJson? thenRecord
      let elseBlock ← Block.ofJson? elseRecord
      return .cond condition thenBlock (some elseBlock)
    | _ => none
  | .obj [("Loop", value)] =>
    match value.fields ["label", "body"] with
    | some [⟨label, _⟩, ⟨bodyRecord, _⟩] => do
      let label ← label.orNull? Json.text?
      let body ← Block.ofJson? bodyRecord
      return .loop label body .unknown
    | _ => none
  | .obj [("Break", value)] =>
    match value.fields ["label"] with
    | some [⟨label, _⟩] => do
      let label ← label.orNull? Json.text?
      return .leave label .unknown
    | _ => none
  | .obj [("Call", value)] =>
    match value.fields ["result", "call"] with
    | some [⟨result, _⟩, ⟨call, _⟩] => do
      let result ← result.orNull? Variable.ofJson?
      let (name, args) ← callOfJson? call
      return .call result name args .unknown
    | _ => none
  | .obj [("Block", value)] => (Block.ofJson? value).map .block
  | _ => none
termination_by sizeOf json

end

end LoopTape
