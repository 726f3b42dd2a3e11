import LoopTape.Proofs.Tree.Relabelling
import LoopTape.Symbolic.Lowering

/-! The parentheses that writing puts around arguments.

A call that is an argument and not the last one is written in parentheses, so it is read back with
them. The grouped form of a tree has them already. It has the same variables, blocks and slots, it is
written alike and gives the same code.
-/

set_option autoImplicit false

namespace LoopTape

mutual

/-- The expression as it is read back after it was written. -/
def Expr.grouped : Expr → Expr
  | .variable v => .variable v
  | .paren inner => .paren inner.grouped
  | .call name args span => .call name (Expr.groupedArgs args) span

def Expr.groupedArgs : List Expr → List Expr
  | [] => []
  | e :: rest =>
    (if e.isCall && !rest.isEmpty then .paren e.grouped else e.grouped) :: Expr.groupedArgs rest

end

mutual

def Block.grouped : Block → Block
  | .mk stmts localSlots => .mk (Stmt.groupedAll stmts) localSlots

def Stmt.groupedAll : List Stmt → List Stmt
  | [] => []
  | s :: rest => s.grouped :: Stmt.groupedAll rest

def Stmt.grouped : Stmt → Stmt
  | .cond condition thenBlock none => .cond condition.grouped thenBlock.grouped none
  | .cond condition thenBlock (some elseBlock) =>
    .cond condition.grouped thenBlock.grouped (some elseBlock.grouped)
  | .loop label body span => .loop label body.grouped span
  | .leave label span => .leave label span
  | .call result name args span => .call result name (Expr.groupedArgs args) span
  | .block inner => .block inner.grouped

end

theorem Expr.isCall_paren (inner : Expr) : (Expr.paren inner).isCall = false := rfl

@[simp] theorem Expr.isCall_grouped (e : Expr) : e.grouped.isCall = e.isCall := by
  cases e <;> rfl

@[simp] theorem Expr.isEmpty_groupedArgs (args : List Expr) :
    (Expr.groupedArgs args).isEmpty = args.isEmpty := by
  cases args <;> rfl

mutual

theorem Expr.grouped_relabel (r : Relabelling) (e : Expr) :
    (e.relabel r).grouped = e.grouped.relabel r := by
  match e with
  | .variable v => rfl
  | .paren inner => exact congrArg Expr.paren (Expr.grouped_relabel r inner)
  | .call name args span =>
    simp only [Expr.relabel, Expr.grouped, Expr.groupedArgs_relabelAll r args]

theorem Expr.groupedArgs_relabelAll (r : Relabelling) (args : List Expr) :
    Expr.groupedArgs (Expr.relabelAll r args) = Expr.relabelAll r (Expr.groupedArgs args) := by
  cases args with
  | nil => rfl
  | cons e rest =>
    simp only [Expr.relabelAll, Expr.groupedArgs, Expr.isCall_relabel, Expr.isEmpty_relabelAll,
      Expr.grouped_relabel r e, Expr.groupedArgs_relabelAll r rest]
    split <;> rfl

end

mutual

theorem Block.grouped_relabel (r : Relabelling) (block : Block) :
    (block.relabel r).grouped = block.grouped.relabel r := by
  cases block with
  | mk stmts slots =>
    simp only [Block.relabel, Block.grouped]
    rw [Stmt.groupedAll_relabelAll r stmts]

theorem Stmt.groupedAll_relabelAll (r : Relabelling) (stmts : List Stmt) :
    Stmt.groupedAll (Stmt.relabelAll r stmts) = Stmt.relabelAll r (Stmt.groupedAll stmts) := by
  cases stmts with
  | nil => rfl
  | cons s rest =>
    simp only [Stmt.relabelAll, Stmt.groupedAll]
    rw [Stmt.grouped_relabel r s, Stmt.groupedAll_relabelAll r rest]

theorem Stmt.grouped_relabel (r : Relabelling) (s : Stmt) :
    (s.relabel r).grouped = s.grouped.relabel r := by
  match s with
  | .cond condition thenBlock none =>
    simp only [Stmt.relabel, Stmt.grouped, Expr.grouped_relabel, Block.grouped_relabel r thenBlock]
  | .cond condition thenBlock (some elseBlock) =>
    simp only [Stmt.relabel, Stmt.grouped, Expr.grouped_relabel, Block.grouped_relabel r thenBlock,
      Block.grouped_relabel r elseBlock]
  | .loop label body span =>
    simp only [Stmt.relabel, Stmt.grouped, Block.grouped_relabel r body]
  | .leave label span => rfl
  | .call result name args span =>
    simp only [Stmt.relabel, Stmt.grouped, Expr.groupedArgs_relabelAll]
  | .block inner => simp only [Stmt.relabel, Stmt.grouped, Block.grouped_relabel r inner]

end

mutual

theorem Expr.variables_grouped (e : Expr) : e.grouped.variables = e.variables := by
  match e with
  | .variable v => rfl
  | .paren inner => exact Expr.variables_grouped inner
  | .call name args span => exact Expr.variablesAll_groupedArgs args

theorem Expr.variablesAll_groupedArgs (args : List Expr) :
    Expr.variablesAll (Expr.groupedArgs args) = Expr.variablesAll args := by
  cases args with
  | nil => rfl
  | cons e rest =>
    have head : (if e.isCall && !rest.isEmpty then Expr.paren e.grouped
        else e.grouped).variables = e.variables := by
      split
      · exact Expr.variables_grouped e
      · exact Expr.variables_grouped e
    rw [Expr.groupedArgs, Expr.variablesAll, Expr.variablesAll, head,
      Expr.variablesAll_groupedArgs rest]

end

theorem Stmt.ownVariables_grouped (s : Stmt) : s.grouped.ownVariables = s.ownVariables := by
  match s with
  | .cond condition thenBlock none => exact Expr.variables_grouped condition
  | .cond condition thenBlock (some elseBlock) => exact Expr.variables_grouped condition
  | .call result name args span =>
    simp only [Stmt.grouped, Stmt.ownVariables, Expr.variablesAll_groupedArgs]
  | .loop .. => rfl
  | .leave .. => rfl
  | .block _ => rfl

mutual

theorem Block.variables_grouped (block : Block) : block.grouped.variables = block.variables := by
  cases block with
  | mk stmts slots => exact Stmt.variablesAll_groupedAll stmts

theorem Stmt.variablesAll_groupedAll (stmts : List Stmt) :
    Stmt.variablesAll (Stmt.groupedAll stmts) = Stmt.variablesAll stmts := by
  cases stmts with
  | nil => rfl
  | cons s rest =>
    simp only [Stmt.groupedAll, Stmt.variablesAll]
    rw [Stmt.variables_grouped s, Stmt.variablesAll_groupedAll rest]

theorem Stmt.variables_grouped (s : Stmt) : s.grouped.variables = s.variables := by
  match s with
  | .cond condition thenBlock none =>
    simp only [Stmt.grouped, Stmt.variables, Expr.variables_grouped,
      Block.variables_grouped thenBlock]
  | .cond condition thenBlock (some elseBlock) =>
    simp only [Stmt.grouped, Stmt.variables, Expr.variables_grouped,
      Block.variables_grouped thenBlock, Block.variables_grouped elseBlock]
  | .loop label body span => exact Block.variables_grouped body
  | .leave label span => rfl
  | .call result name args span => exact Stmt.ownVariables_grouped (.call result name args span)
  | .block inner => exact Block.variables_grouped inner

end

mutual

theorem Block.blocks_grouped (block : Block) :
    block.grouped.blocks = block.blocks.map Block.grouped := by
  cases block with
  | mk stmts slots =>
    simp only [Block.grouped, Block.blocks, List.map_cons]
    rw [Stmt.blocksAll_groupedAll stmts]

theorem Stmt.blocksAll_groupedAll (stmts : List Stmt) :
    Stmt.blocksAll (Stmt.groupedAll stmts) = (Stmt.blocksAll stmts).map Block.grouped := by
  cases stmts with
  | nil => rfl
  | cons s rest =>
    simp only [Stmt.groupedAll, Stmt.blocksAll, List.map_append]
    rw [Stmt.blocks_grouped s, Stmt.blocksAll_groupedAll rest]

theorem Stmt.blocks_grouped (s : Stmt) : s.grouped.blocks = s.blocks.map Block.grouped := by
  match s with
  | .cond condition thenBlock none => exact Block.blocks_grouped thenBlock
  | .cond condition thenBlock (some elseBlock) =>
    simp only [Stmt.grouped, Stmt.blocks, List.map_append, Block.blocks_grouped thenBlock,
      Block.blocks_grouped elseBlock]
  | .loop label body span => exact Block.blocks_grouped body
  | .leave label span => rfl
  | .call result name args span => rfl
  | .block inner => exact Block.blocks_grouped inner

end

theorem ownNames_groupedAll (stmts : List Stmt) : ownNames (Stmt.groupedAll stmts) = ownNames stmts := by
  induction stmts with
  | nil => rfl
  | cons s rest ih => rw [Stmt.groupedAll, ownNames_cons, ownNames_cons, Stmt.ownVariables_grouped, ih]

theorem ownNames_grouped (s : Stmt) : ownNames [s.grouped] = ownNames [s] := ownNames_groupedAll [s]

theorem declaredNames_groupedAll (seen : List String) (stmts : List Stmt) :
    declaredNames seen (Stmt.groupedAll stmts) = declaredNames seen stmts := by
  rw [declaredNames, ownNames_groupedAll, declaredNames]

@[simp] theorem Expr.isCall_bind (frames : Frames) (e : Expr) : (e.bind frames).isCall = e.isCall := by
  cases e <;> rfl

@[simp] theorem Expr.isEmpty_bindAll (frames : Frames) (args : List Expr) :
    (Expr.bindAll frames args).isEmpty = args.isEmpty := by
  cases args <;> rfl

mutual

theorem Expr.bind_grouped (frames : Frames) (e : Expr) :
    e.grouped.bind frames = (e.bind frames).grouped := by
  match e with
  | .variable v => rfl
  | .paren inner => exact congrArg Expr.paren (Expr.bind_grouped frames inner)
  | .call name args span =>
    simp only [Expr.grouped, Expr.bind, Expr.bindAll_groupedArgs frames args]

theorem Expr.bindAll_groupedArgs (frames : Frames) (args : List Expr) :
    Expr.bindAll frames (Expr.groupedArgs args) = Expr.groupedArgs (Expr.bindAll frames args) := by
  cases args with
  | nil => rfl
  | cons e rest =>
    simp only [Expr.groupedArgs, Expr.bindAll, Expr.isCall_bind, Expr.isEmpty_bindAll,
      ← Expr.bind_grouped frames e, Expr.bindAll_groupedArgs frames rest]
    split <;> rfl

end

mutual

theorem Block.bind_grouped (block : Block) (frames : Frames) (seen : List String) :
    block.grouped.bind frames seen = (block.bind frames seen).grouped := by
  cases block with
  | mk stmts slots =>
    simp only [Block.grouped, Block.bind, declaredNames_groupedAll]
    rw [Stmt.bindAll_groupedAll stmts]

theorem Stmt.bindAll_groupedAll (stmts : List Stmt) (frames : Frames) (seen : List String) :
    Stmt.bindAll frames seen (Stmt.groupedAll stmts) =
      Stmt.groupedAll (Stmt.bindAll frames seen stmts) := by
  cases stmts with
  | nil => rfl
  | cons s rest =>
    simp only [Stmt.groupedAll, Stmt.bindAll, ownNames_grouped]
    rw [Stmt.bind_grouped s, Stmt.bindAll_groupedAll rest]

theorem Stmt.bind_grouped (s : Stmt) (frames : Frames) (seen : List String) :
    s.grouped.bind frames seen = (s.bind frames seen).grouped := by
  match s with
  | .cond condition thenBlock none =>
    simp only [Stmt.grouped, Stmt.bind, Expr.bind_grouped, Block.bind_grouped thenBlock]
  | .cond condition thenBlock (some elseBlock) =>
    simp only [Stmt.grouped, Stmt.bind, Expr.bind_grouped, Block.bind_grouped thenBlock,
      Block.bind_grouped elseBlock]
  | .loop label body span => simp only [Stmt.grouped, Stmt.bind, Block.bind_grouped body]
  | .leave label span => rfl
  | .call result name args span =>
    simp only [Stmt.grouped, Stmt.bind, Expr.bindAll_groupedArgs]
  | .block inner => simp only [Stmt.grouped, Stmt.bind, Block.bind_grouped inner]

end

mutual

theorem Expr.layout_grouped (detail : Detail) (e : Expr) :
    e.grouped.layout detail = e.layout detail := by
  match e with
  | .variable v => rfl
  | .paren inner => simp only [Expr.grouped, Expr.layout, Expr.layout_grouped detail inner]
  | .call name args span =>
    simp only [Expr.grouped, Expr.layout, Expr.layoutArgs_groupedArgs detail args]

theorem Expr.layoutArgs_groupedArgs (detail : Detail) (args : List Expr) :
    Expr.layoutArgs detail (Expr.groupedArgs args) = Expr.layoutArgs detail args := by
  cases args with
  | nil => rfl
  | cons e rest =>
    have head := Expr.layout_grouped detail e
    have tail := Expr.layoutArgs_groupedArgs detail rest
    simp only [Expr.groupedArgs, Expr.layoutArgs, Expr.isEmpty_groupedArgs, tail]
    by_cases wrapped : (e.isCall && !rest.isEmpty) = true
    · simp only [wrapped, if_true, Expr.isCall_paren, Bool.false_and, Bool.false_eq_true, if_false,
        Expr.layout, head]
    · simp only [wrapped, Bool.false_eq_true, if_false, Expr.isCall_grouped, head]

end

mutual

theorem Block.layout_grouped (detail : Detail) (block : Block) (level : Nat) :
    block.grouped.layout detail level = block.layout detail level := by
  match block with
  | .mk [] slots => rfl
  | .mk (s :: rest) slots =>
    have same := Stmt.layoutAll_groupedAll detail (s :: rest) (level + 1)
    simp only [Block.grouped, Stmt.groupedAll, Block.layout] at same ⊢
    rw [same]

theorem Stmt.layoutAll_groupedAll (detail : Detail) (stmts : List Stmt) (level : Nat) :
    Stmt.layoutAll detail level (Stmt.groupedAll stmts) = Stmt.layoutAll detail level stmts := by
  cases stmts with
  | nil => rfl
  | cons s rest =>
    simp only [Stmt.groupedAll, Stmt.layoutAll]
    rw [Stmt.layout_grouped detail s, Stmt.layoutAll_groupedAll detail rest]

theorem Stmt.layout_grouped (detail : Detail) (s : Stmt) (level : Nat) :
    s.grouped.layout detail level = s.layout detail level := by
  match s with
  | .cond condition thenBlock none =>
    simp only [Stmt.grouped, Stmt.layout, Expr.layout_grouped, Block.layout_grouped detail thenBlock]
  | .cond condition thenBlock (some elseBlock) =>
    simp only [Stmt.grouped, Stmt.layout, Expr.layout_grouped,
      Block.layout_grouped detail thenBlock, Block.layout_grouped detail elseBlock]
  | .loop none body span => simp only [Stmt.grouped, Stmt.layout, Block.layout_grouped detail body]
  | .loop (some label) body span =>
    simp only [Stmt.grouped, Stmt.layout, Block.layout_grouped detail body]
  | .leave label span => rfl
  | .call none name args span =>
    simp only [Stmt.grouped, Stmt.layout, Expr.layoutArgs_groupedArgs]
  | .call (some v) name args span =>
    simp only [Stmt.grouped, Stmt.layout, Expr.layoutArgs_groupedArgs]
  | .block inner => simp only [Stmt.grouped, Stmt.layout, Block.layout_grouped detail inner]

end

theorem Block.format_grouped (detail : Detail) (root : Block) :
    root.grouped.format detail = root.format detail := by
  rw [Block.format, Block.layout_grouped, Block.format]

theorem Expr.slot_grouped (context : Span) (e : Expr) : e.grouped.slot context = e.slot context := by
  match e with
  | .variable v => rfl
  | .paren inner => exact Expr.slot_grouped context inner
  | .call .. => rfl

theorem Expr.slots_groupedArgs (context : Span) (args : List Expr) :
    Expr.slots context (Expr.groupedArgs args) = Expr.slots context args := by
  induction args with
  | nil => rfl
  | cons e rest ih =>
    have head : (if e.isCall && !rest.isEmpty then Expr.paren e.grouped
        else e.grouped).slot context = e.slot context := by
      split
      · exact Expr.slot_grouped context e
      · exact Expr.slot_grouped context e
    rw [Expr.groupedArgs, Expr.slots, Expr.slots, head, ih]

mutual

theorem Block.lower_grouped (block : Block) (around : Surroundings) (used : Nat) :
    block.grouped.lower around used = block.lower around used := by
  cases block with
  | mk stmts slots =>
    simp only [Block.grouped, Block.lower]
    rw [Stmt.lowerAll_groupedAll stmts]

theorem Stmt.lowerAll_groupedAll (stmts : List Stmt) (around : Surroundings) (used : Nat) :
    Stmt.lowerAll around used (Stmt.groupedAll stmts) = Stmt.lowerAll around used stmts := by
  cases stmts with
  | nil => rfl
  | cons s rest =>
    simp only [Stmt.groupedAll, Stmt.lowerAll]
    rw [Stmt.lower_grouped s]
    simp only [Stmt.lowerAll_groupedAll rest]

theorem Stmt.lower_grouped (s : Stmt) (around : Surroundings) (used : Nat) :
    s.grouped.lower around used = s.lower around used := by
  match s with
  | .cond condition thenBlock none =>
    simp only [Stmt.grouped, Stmt.lower, Expr.slot_grouped, Block.lower_grouped thenBlock]
  | .cond condition thenBlock (some elseBlock) =>
    simp only [Stmt.grouped, Stmt.lower, Expr.slot_grouped, Block.lower_grouped thenBlock,
      Block.lower_grouped elseBlock]
  | .loop label (.mk stmts slots) span =>
    simp only [Stmt.grouped, Block.grouped, Stmt.lower, Stmt.lowerAll_groupedAll stmts]
  | .leave label span => rfl
  | .call result name args span =>
    simp only [Stmt.grouped, Stmt.lower, Expr.slots_groupedArgs]
  | .block inner => simp only [Stmt.grouped, Stmt.lower, Block.lower_grouped inner]

end

end LoopTape
