import LoopTape.Proofs.Json.ReadBack
import LoopTape.Proofs.Tree.Relabelling
import LoopTape.Tree.Record

/-! What the record of a tree keeps.

It keeps the words and nothing else: trees that differ in slots and spans have the same record, and the
tree that is read from it has none of them.
-/

set_option autoImplicit false

namespace LoopTape

mutual

theorem Expr.toJson_relabel (r : Relabelling) (e : Expr) : (e.relabel r).toJson = e.toJson := by
  match e with
  | .variable v => rfl
  | .paren inner => rw [Expr.relabel, Expr.toJson, Expr.toJson_relabel r inner, Expr.toJson]
  | .call name args span =>
    rw [Expr.relabel, Expr.toJson, Expr.toJsonAll_relabelAll r args, Expr.toJson]

theorem Expr.toJsonAll_relabelAll (r : Relabelling) (args : List Expr) :
    Expr.toJsonAll (Expr.relabelAll r args) = Expr.toJsonAll args := by
  cases args with
  | nil => rfl
  | cons e rest =>
    rw [Expr.relabelAll, Expr.toJsonAll, Expr.toJson_relabel r e, Expr.toJsonAll_relabelAll r rest,
      Expr.toJsonAll]

end

mutual

theorem Block.toJson_relabel (r : Relabelling) (block : Block) :
    (block.relabel r).toJson = block.toJson := by
  cases block with
  | mk stmts slots =>
    rw [Block.relabel, Block.toJson, Stmt.toJsonAll_relabelAll r stmts, Block.toJson]

theorem Stmt.toJsonAll_relabelAll (r : Relabelling) (stmts : List Stmt) :
    Stmt.toJsonAll (Stmt.relabelAll r stmts) = Stmt.toJsonAll stmts := by
  cases stmts with
  | nil => rfl
  | cons s rest =>
    rw [Stmt.relabelAll, Stmt.toJsonAll, Stmt.toJson_relabel r s, Stmt.toJsonAll_relabelAll r rest,
      Stmt.toJsonAll]

theorem Stmt.toJson_relabel (r : Relabelling) (s : Stmt) : (s.relabel r).toJson = s.toJson := by
  match s with
  | .cond condition thenBlock none =>
    simp only [Stmt.relabel, Stmt.toJson, Expr.toJson_relabel, Block.toJson_relabel r thenBlock]
  | .cond condition thenBlock (some elseBlock) =>
    simp only [Stmt.relabel, Stmt.toJson, Expr.toJson_relabel, Block.toJson_relabel r thenBlock,
      Block.toJson_relabel r elseBlock]
  | .loop label body span => simp only [Stmt.relabel, Stmt.toJson, Block.toJson_relabel r body]
  | .leave label span => rfl
  | .call result name args span =>
    simp only [Stmt.relabel, Stmt.toJson, Expr.toJsonAll_relabelAll]
    cases result <;> rfl
  | .block inner => simp only [Stmt.relabel, Stmt.toJson, Block.toJson_relabel r inner]

end

theorem Block.toJson_resolve (root : Block) : root.resolve.toJson = root.toJson := by
  have same : root.resolve.relabel .bare = root.relabel .bare := Block.bare_bind root [] []
  rw [← Block.toJson_relabel .bare, same, Block.toJson_relabel]

mutual

theorem Expr.whole_toJson (e : Expr) : e.toJson.Whole := by
  match e with
  | .variable v => exact ⟨⟨trivial, trivial⟩, trivial⟩
  | .paren inner => exact ⟨Expr.whole_toJson inner, trivial⟩
  | .call name args span => exact ⟨⟨trivial, Expr.whole_toJsonAll args, trivial⟩, trivial⟩

theorem Expr.whole_toJsonAll (args : List Expr) : Json.WholeItems (Expr.toJsonAll args) := by
  cases args with
  | nil => trivial
  | cons e rest => exact ⟨Expr.whole_toJson e, Expr.whole_toJsonAll rest⟩

end

theorem whole_labelRecord (label : Option String) : (labelRecord label).Whole := by
  cases label <;> trivial

mutual

theorem Block.whole_toJson (block : Block) : block.toJson.Whole := by
  cases block with
  | mk stmts slots => exact ⟨Stmt.whole_toJsonAll stmts, trivial⟩

theorem Stmt.whole_toJsonAll (stmts : List Stmt) : Json.WholeItems (Stmt.toJsonAll stmts) := by
  cases stmts with
  | nil => trivial
  | cons s rest => exact ⟨Stmt.whole_toJson s, Stmt.whole_toJsonAll rest⟩

theorem Stmt.whole_toJson (s : Stmt) : s.toJson.Whole := by
  match s with
  | .cond condition thenBlock none =>
    exact ⟨⟨Expr.whole_toJson condition, Block.whole_toJson thenBlock, trivial, trivial⟩, trivial⟩
  | .cond condition thenBlock (some elseBlock) =>
    exact ⟨⟨Expr.whole_toJson condition, Block.whole_toJson thenBlock, Block.whole_toJson elseBlock,
      trivial⟩, trivial⟩
  | .loop label body span =>
    exact ⟨⟨whole_labelRecord label, Block.whole_toJson body, trivial⟩, trivial⟩
  | .leave label span => exact ⟨⟨whole_labelRecord label, trivial⟩, trivial⟩
  | .call result name args span =>
    have call : (callRecord name (Expr.toJsonAll args)).Whole :=
      ⟨trivial, Expr.whole_toJsonAll args, trivial⟩
    cases result with
    | none => exact ⟨⟨trivial, call, trivial⟩, trivial⟩
    | some v => exact ⟨⟨⟨trivial, trivial⟩, call, trivial⟩, trivial⟩
  | .block inner => exact ⟨Block.whole_toJson inner, trivial⟩

end

theorem callOfJson?_callRecord (name : String) (args : List Json) :
    callOfJson? (callRecord name args) = (Expr.listOfJson? args).map (name, ·) := by
  rw [callOfJson?, callRecord]
  show (Expr.listOfJson? args >>= fun args => some (name, args)) = _
  cases Expr.listOfJson? args <;> rfl

mutual

theorem Expr.ofJson?_toJson (e : Expr) : Expr.ofJson? e.toJson = some (e.relabel .bare) := by
  match e with
  | .variable v =>
    rw [Expr.toJson, Expr.ofJson?]
    rfl
  | .paren inner =>
    rw [Expr.toJson, Expr.ofJson?, Expr.ofJson?_toJson inner]
    rfl
  | .call name args span =>
    rw [Expr.toJson, Expr.ofJson?, callOfJson?_callRecord, Expr.listOfJson?_toJsonAll args]
    rfl

theorem Expr.listOfJson?_toJsonAll (args : List Expr) :
    Expr.listOfJson? (Expr.toJsonAll args) = some (Expr.relabelAll .bare args) := by
  cases args with
  | nil =>
    rw [Expr.toJsonAll, Expr.listOfJson?]
    rfl
  | cons e rest =>
    rw [Expr.toJsonAll, Expr.listOfJson?, Expr.ofJson?_toJson e, Expr.listOfJson?_toJsonAll rest]
    rfl

end

mutual

theorem Block.ofJson?_toJson (block : Block) :
    Block.ofJson? block.toJson = some (block.relabel .bare) := by
  cases block with
  | mk stmts slots =>
    rw [Block.toJson, Block.ofJson?]
    show (Stmt.listOfJson? (Stmt.toJsonAll stmts)).map Block.unscoped = _
    rw [Stmt.listOfJson?_toJsonAll stmts]
    rfl

theorem Stmt.listOfJson?_toJsonAll (stmts : List Stmt) :
    Stmt.listOfJson? (Stmt.toJsonAll stmts) = some (Stmt.relabelAll .bare stmts) := by
  cases stmts with
  | nil =>
    rw [Stmt.toJsonAll, Stmt.listOfJson?]
    rfl
  | cons s rest =>
    rw [Stmt.toJsonAll, Stmt.listOfJson?, Stmt.ofJson?_toJson s, Stmt.listOfJson?_toJsonAll rest]
    rfl

theorem Stmt.ofJson?_toJson (s : Stmt) : Stmt.ofJson? s.toJson = some (s.relabel .bare) := by
  match s with
  | .cond condition thenBlock none =>
    rw [Stmt.toJson, Stmt.ofJson?]
    show (Expr.ofJson? condition.toJson >>= fun condition => Block.ofJson? thenBlock.toJson >>=
      fun thenBlock => some (Stmt.cond condition thenBlock none)) = _
    rw [Expr.ofJson?_toJson, Block.ofJson?_toJson thenBlock]
    rfl
  | .cond condition thenBlock (some (.mk stmts slots)) =>
    -- The block is taken apart for its record to be seen not to be null.
    rw [Stmt.toJson, Stmt.ofJson?]
    show (Expr.ofJson? condition.toJson >>= fun condition => Block.ofJson? thenBlock.toJson >>=
      fun thenBlock => Block.ofJson? (Block.mk stmts slots).toJson >>=
      fun elseBlock => some (Stmt.cond condition thenBlock (some elseBlock))) = _
    rw [Expr.ofJson?_toJson, Block.ofJson?_toJson thenBlock, Block.ofJson?_toJson (.mk stmts slots)]
    rfl
  | .loop label body span =>
    rw [Stmt.toJson, Stmt.ofJson?]
    show ((labelRecord label).orNull? Json.text? >>= fun label => Block.ofJson? body.toJson >>=
      fun body => some (Stmt.loop label body .unknown)) = _
    rw [Block.ofJson?_toJson body]
    cases label <;> rfl
  | .leave label span =>
    rw [Stmt.toJson, Stmt.ofJson?]
    cases label <;> rfl
  | .call result name args span =>
    rw [Stmt.toJson, Stmt.ofJson?]
    show ((Json.ofOption Variable.toJson result).orNull? Variable.ofJson? >>= fun result =>
      callOfJson? (callRecord name (Expr.toJsonAll args)) >>=
      fun call => some (Stmt.call result call.1 call.2 .unknown)) = _
    rw [callOfJson?_callRecord, Expr.listOfJson?_toJsonAll]
    cases result <;> rfl
  | .block inner =>
    rw [Stmt.toJson, Stmt.ofJson?, Block.ofJson?_toJson inner]
    rfl

end

end LoopTape
