import LoopTape.Scope.Binding
import LoopTape.Tree.Layout

/-! Trees that differ only in what their text does not show.

Besides its words a tree carries spans, the slots of variables and the numbers of slots of blocks. To
relabel a tree is to put other values in their places. Binding looks at none of them, and writing at
most at the slots of variables.
-/

set_option autoImplicit false

namespace LoopTape

/-- Other values for what a tree carries besides its words. -/
structure Relabelling where
  slot : Option Nat → Option Nat
  span : Span → Span
  localSlots : Nat → Nat

namespace Relabelling

def same : Relabelling := ⟨id, id, id⟩

def unspanned : Relabelling := ⟨id, fun _ => .unknown, id⟩

def forgetful (span : Span → Span) : Relabelling := ⟨fun _ => none, span, fun _ => 0⟩

def bare : Relabelling := ⟨fun _ => none, fun _ => .unknown, fun _ => 0⟩

def onlySpans (r : Relabelling) : Relabelling := ⟨id, r.span, id⟩

end Relabelling

def Variable.relabel (r : Relabelling) (v : Variable) : Variable := ⟨v.name, r.slot v.slot⟩

mutual

def Expr.relabel (r : Relabelling) : Expr → Expr
  | .variable v => .variable (v.relabel r)
  | .paren inner => .paren (inner.relabel r)
  | .call name args span => .call name (Expr.relabelAll r args) (r.span span)

def Expr.relabelAll (r : Relabelling) : List Expr → List Expr
  | [] => []
  | e :: rest => e.relabel r :: Expr.relabelAll r rest

end

mutual

def Block.relabel (r : Relabelling) : Block → Block
  | .mk stmts localSlots => .mk (Stmt.relabelAll r stmts) (r.localSlots localSlots)

def Stmt.relabelAll (r : Relabelling) : List Stmt → List Stmt
  | [] => []
  | s :: rest => s.relabel r :: Stmt.relabelAll r rest

def Stmt.relabel (r : Relabelling) : Stmt → Stmt
  | .cond condition thenBlock none => .cond (condition.relabel r) (thenBlock.relabel r) none
  | .cond condition thenBlock (some elseBlock) =>
    .cond (condition.relabel r) (thenBlock.relabel r) (some (elseBlock.relabel r))
  | .loop label body span => .loop label (body.relabel r) (r.span span)
  | .leave label span => .leave label (r.span span)
  | .call result name args span =>
    .call (result.map (·.relabel r)) name (Expr.relabelAll r args) (r.span span)
  | .block inner => .block (inner.relabel r)

end

variable (r : Relabelling)

theorem Expr.relabelAll_eq_map (args : List Expr) :
    Expr.relabelAll r args = args.map (·.relabel r) := by
  induction args with
  | nil => rfl
  | cons e rest ih => rw [Expr.relabelAll, ih, List.map_cons]

theorem Stmt.relabelAll_eq_map (stmts : List Stmt) :
    Stmt.relabelAll r stmts = stmts.map (·.relabel r) := by
  induction stmts with
  | nil => rfl
  | cons s rest ih => rw [Stmt.relabelAll, ih, List.map_cons]

@[simp] theorem Expr.isCall_relabel (e : Expr) : (e.relabel r).isCall = e.isCall := by
  cases e <;> rfl

@[simp] theorem Expr.isEmpty_relabelAll (args : List Expr) :
    (Expr.relabelAll r args).isEmpty = args.isEmpty := by
  cases args <;> rfl

mutual

theorem Expr.variables_relabel (e : Expr) :
    (e.relabel r).variables = e.variables.map (·.relabel r) := by
  match e with
  | .variable v => rfl
  | .paren inner => exact Expr.variables_relabel inner
  | .call name args span => exact Expr.variablesAll_relabelAll args

theorem Expr.variablesAll_relabelAll (args : List Expr) :
    Expr.variablesAll (Expr.relabelAll r args) = (Expr.variablesAll args).map (·.relabel r) := by
  cases args with
  | nil => rfl
  | cons e rest =>
    simp only [Expr.relabelAll, Expr.variablesAll, List.map_append, Expr.variables_relabel e,
      Expr.variablesAll_relabelAll rest]

end

theorem Stmt.ownVariables_relabel (s : Stmt) :
    (s.relabel r).ownVariables = s.ownVariables.map (·.relabel r) := by
  match s with
  | .cond condition thenBlock none => exact Expr.variables_relabel r condition
  | .cond condition thenBlock (some elseBlock) => exact Expr.variables_relabel r condition
  | .call result name args span =>
    simp only [Stmt.relabel, Stmt.ownVariables, Expr.variablesAll_relabelAll, List.map_append]
    cases result <;> rfl
  | .loop .. => rfl
  | .leave .. => rfl
  | .block _ => rfl

theorem ownNames_cons (s : Stmt) (rest : List Stmt) :
    ownNames (s :: rest) = s.ownVariables.map Variable.name ++ ownNames rest := by
  simp [ownNames]

theorem ownNames_relabelAll (stmts : List Stmt) :
    ownNames (Stmt.relabelAll r stmts) = ownNames stmts := by
  induction stmts with
  | nil => rfl
  | cons s rest ih =>
    have same : (s.relabel r).ownVariables.map Variable.name = s.ownVariables.map Variable.name := by
      rw [Stmt.ownVariables_relabel, List.map_map]
      rfl
    rw [Stmt.relabelAll, ownNames_cons, ownNames_cons, same, ih]

theorem ownNames_relabel (s : Stmt) : ownNames [s.relabel r] = ownNames [s] :=
  ownNames_relabelAll r [s]

theorem declaredNames_relabelAll (seen : List String) (stmts : List Stmt) :
    declaredNames seen (Stmt.relabelAll r stmts) = declaredNames seen stmts := by
  rw [declaredNames, ownNames_relabelAll, declaredNames]

mutual

theorem Expr.bind_relabel (frames : Frames) (e : Expr) :
    (e.relabel r).bind frames = (e.bind frames).relabel r.onlySpans := by
  match e with
  | .variable v => rfl
  | .paren inner => exact congrArg Expr.paren (Expr.bind_relabel frames inner)
  | .call name args span =>
    simp only [Expr.relabel, Expr.bind, Expr.bindAll_relabelAll frames args]
    rfl

theorem Expr.bindAll_relabelAll (frames : Frames) (args : List Expr) :
    Expr.bindAll frames (Expr.relabelAll r args) =
      Expr.relabelAll r.onlySpans (Expr.bindAll frames args) := by
  cases args with
  | nil => rfl
  | cons e rest =>
    simp only [Expr.relabelAll, Expr.bindAll, Expr.bind_relabel frames e,
      Expr.bindAll_relabelAll frames rest]

end

mutual

/-- Slots that a tree carried before it is bound make no difference. -/
theorem Block.bind_relabel (block : Block) (frames : Frames) (seen : List String) :
    (block.relabel r).bind frames seen = (block.bind frames seen).relabel r.onlySpans := by
  cases block with
  | mk stmts slots =>
    simp only [Block.relabel, Block.bind, declaredNames_relabelAll]
    rw [Stmt.bindAll_relabelAll stmts]
    rfl

theorem Stmt.bindAll_relabelAll (stmts : List Stmt) (frames : Frames) (seen : List String) :
    Stmt.bindAll frames seen (Stmt.relabelAll r stmts) =
      Stmt.relabelAll r.onlySpans (Stmt.bindAll frames seen stmts) := by
  cases stmts with
  | nil => rfl
  | cons s rest =>
    simp only [Stmt.relabelAll, Stmt.bindAll, ownNames_relabel]
    rw [Stmt.bind_relabel s, Stmt.bindAll_relabelAll rest]

theorem Stmt.bind_relabel (s : Stmt) (frames : Frames) (seen : List String) :
    (s.relabel r).bind frames seen = (s.bind frames seen).relabel r.onlySpans := by
  match s with
  | .cond condition thenBlock none =>
    simp only [Stmt.relabel, Stmt.bind, Expr.bind_relabel, Block.bind_relabel thenBlock]
  | .cond condition thenBlock (some elseBlock) =>
    simp only [Stmt.relabel, Stmt.bind, Expr.bind_relabel, Block.bind_relabel thenBlock,
      Block.bind_relabel elseBlock]
  | .loop label body span =>
    simp only [Stmt.relabel, Stmt.bind, Block.bind_relabel body]
    rfl
  | .leave label span => rfl
  | .call result name args span =>
    simp only [Stmt.relabel, Stmt.bind, Expr.bindAll_relabelAll, Option.map_map]
    rfl
  | .block inner => simp only [Stmt.relabel, Stmt.bind, Block.bind_relabel inner]

end

section

variable (span : Span → Span)

mutual

theorem Expr.forgetful_bind (frames : Frames) (e : Expr) :
    (e.bind frames).relabel (.forgetful span) = e.relabel (.forgetful span) := by
  match e with
  | .variable v => rfl
  | .paren inner => exact congrArg Expr.paren (Expr.forgetful_bind frames inner)
  | .call name args _ => simp only [Expr.bind, Expr.relabel, Expr.forgetfulAll_bindAll frames args]

theorem Expr.forgetfulAll_bindAll (frames : Frames) (args : List Expr) :
    Expr.relabelAll (.forgetful span) (Expr.bindAll frames args) =
      Expr.relabelAll (.forgetful span) args := by
  cases args with
  | nil => rfl
  | cons e rest =>
    simp only [Expr.bindAll, Expr.relabelAll, Expr.forgetful_bind frames e,
      Expr.forgetfulAll_bindAll frames rest]

end

mutual

theorem Block.forgetful_bind (block : Block) (frames : Frames) (seen : List String) :
    (block.bind frames seen).relabel (.forgetful span) = block.relabel (.forgetful span) := by
  cases block with
  | mk stmts slots =>
    simp only [Block.bind, Block.relabel]
    rw [Stmt.forgetfulAll_bindAll stmts]
    rfl

theorem Stmt.forgetfulAll_bindAll (stmts : List Stmt) (frames : Frames) (seen : List String) :
    Stmt.relabelAll (.forgetful span) (Stmt.bindAll frames seen stmts) =
      Stmt.relabelAll (.forgetful span) stmts := by
  cases stmts with
  | nil => rfl
  | cons s rest =>
    simp only [Stmt.bindAll, Stmt.relabelAll]
    rw [Stmt.forgetful_bind s, Stmt.forgetfulAll_bindAll rest]

theorem Stmt.forgetful_bind (s : Stmt) (frames : Frames) (seen : List String) :
    (s.bind frames seen).relabel (.forgetful span) = s.relabel (.forgetful span) := by
  match s with
  | .cond condition thenBlock none =>
    simp only [Stmt.bind, Stmt.relabel, Expr.forgetful_bind, Block.forgetful_bind thenBlock]
  | .cond condition thenBlock (some elseBlock) =>
    simp only [Stmt.bind, Stmt.relabel, Expr.forgetful_bind, Block.forgetful_bind thenBlock,
      Block.forgetful_bind elseBlock]
  | .loop label body _ => simp only [Stmt.bind, Stmt.relabel, Block.forgetful_bind body]
  | .leave label _ => rfl
  | .call result name args _ =>
    simp only [Stmt.bind, Stmt.relabel, Expr.forgetfulAll_bindAll, Option.map_map]
    rfl
  | .block inner => simp only [Stmt.bind, Stmt.relabel, Block.forgetful_bind inner]

end

end

theorem Block.bare_bind (block : Block) (frames : Frames) (seen : List String) :
    (block.bind frames seen).relabel .bare = block.relabel .bare :=
  Block.forgetful_bind (fun _ => .unknown) block frames seen

mutual

theorem Expr.relabel_same (e : Expr) : e.relabel .same = e := by
  match e with
  | .variable v => rfl
  | .paren inner => exact congrArg Expr.paren (Expr.relabel_same inner)
  | .call name args span => exact congrArg (Expr.call name · span) (Expr.relabelAll_same args)

theorem Expr.relabelAll_same (args : List Expr) : Expr.relabelAll .same args = args := by
  cases args with
  | nil => rfl
  | cons e rest => rw [Expr.relabelAll, Expr.relabel_same e, Expr.relabelAll_same rest]

end

mutual

theorem Block.relabel_same (block : Block) : block.relabel .same = block := by
  cases block with
  | mk stmts slots => exact congrArg (Block.mk · slots) (Stmt.relabelAll_same stmts)

theorem Stmt.relabelAll_same (stmts : List Stmt) : Stmt.relabelAll .same stmts = stmts := by
  cases stmts with
  | nil => rfl
  | cons s rest => rw [Stmt.relabelAll, Stmt.relabel_same s, Stmt.relabelAll_same rest]

theorem Stmt.relabel_same (s : Stmt) : s.relabel .same = s := by
  match s with
  | .cond condition thenBlock none =>
    rw [Stmt.relabel, Expr.relabel_same, Block.relabel_same thenBlock]
  | .cond condition thenBlock (some elseBlock) =>
    rw [Stmt.relabel, Expr.relabel_same, Block.relabel_same thenBlock, Block.relabel_same elseBlock]
  | .loop label body span => exact congrArg (Stmt.loop label · span) (Block.relabel_same body)
  | .leave label span => rfl
  | .call result name args span =>
    rw [Stmt.relabel, Expr.relabelAll_same]
    cases result <;> rfl
  | .block inner => exact congrArg Stmt.block (Block.relabel_same inner)

end

/-- Trees that differ only in what binding chooses are bound alike. -/
theorem Block.resolve_eq {a b : Block}
    (alike : a.relabel (.forgetful id) = b.relabel (.forgetful id)) : a.resolve = b.resolve := by
  have kept (block : Block) : (block.relabel (.forgetful id)).resolve = block.resolve := by
    rw [Block.resolve, Block.bind_relabel]
    exact Block.relabel_same _
  rw [← kept a, ← kept b, alike]

mutual

theorem Block.variables_relabel (block : Block) :
    (block.relabel r).variables = block.variables.map (·.relabel r) := by
  cases block with
  | mk stmts slots => exact Stmt.variablesAll_relabelAll stmts

theorem Stmt.variablesAll_relabelAll (stmts : List Stmt) :
    Stmt.variablesAll (Stmt.relabelAll r stmts) =
      (Stmt.variablesAll stmts).map (·.relabel r) := by
  cases stmts with
  | nil => rfl
  | cons s rest =>
    simp only [Stmt.relabelAll, Stmt.variablesAll, List.map_append]
    rw [Stmt.variables_relabel s, Stmt.variablesAll_relabelAll rest]

theorem Stmt.variables_relabel (s : Stmt) :
    (s.relabel r).variables = s.variables.map (·.relabel r) := by
  match s with
  | .cond condition thenBlock none =>
    simp only [Stmt.relabel, Stmt.variables, List.map_append, Expr.variables_relabel,
      Block.variables_relabel thenBlock]
  | .cond condition thenBlock (some elseBlock) =>
    simp only [Stmt.relabel, Stmt.variables, List.map_append, Expr.variables_relabel,
      Block.variables_relabel thenBlock, Block.variables_relabel elseBlock]
  | .loop label body span => exact Block.variables_relabel body
  | .leave label span => rfl
  | .call result name args span => exact Stmt.ownVariables_relabel r (.call result name args span)
  | .block inner => exact Block.variables_relabel inner

end

mutual

theorem Block.blocks_relabel (block : Block) :
    (block.relabel r).blocks = block.blocks.map (·.relabel r) := by
  cases block with
  | mk stmts slots =>
    simp only [Block.relabel, Block.blocks, List.map_cons]
    rw [Stmt.blocksAll_relabelAll stmts]

theorem Stmt.blocksAll_relabelAll (stmts : List Stmt) :
    Stmt.blocksAll (Stmt.relabelAll r stmts) = (Stmt.blocksAll stmts).map (·.relabel r) := by
  cases stmts with
  | nil => rfl
  | cons s rest =>
    simp only [Stmt.relabelAll, Stmt.blocksAll, List.map_append]
    rw [Stmt.blocks_relabel s, Stmt.blocksAll_relabelAll rest]

theorem Stmt.blocks_relabel (s : Stmt) :
    (s.relabel r).blocks = s.blocks.map (·.relabel r) := by
  match s with
  | .cond condition thenBlock none => exact Block.blocks_relabel thenBlock
  | .cond condition thenBlock (some elseBlock) =>
    simp only [Stmt.relabel, Stmt.blocks, List.map_append, Block.blocks_relabel thenBlock,
      Block.blocks_relabel elseBlock]
  | .loop label body span => exact Block.blocks_relabel body
  | .leave label span => rfl
  | .call result name args span => rfl
  | .block inner => exact Block.blocks_relabel inner

end

section

variable {r} {detail : Detail}

mutual

theorem Expr.layout_relabel (hidden : ∀ v : Variable, (v.relabel r).written detail = v.written detail)
    (e : Expr) : (e.relabel r).layout detail = e.layout detail := by
  match e with
  | .variable v => exact congrArg (fun text => [Piece.word text]) (hidden v)
  | .paren inner => simp only [Expr.relabel, Expr.layout, Expr.layout_relabel hidden inner]
  | .call name args span =>
    simp only [Expr.relabel, Expr.layout, Expr.layoutArgs_relabelAll hidden args]

theorem Expr.layoutArgs_relabelAll
    (hidden : ∀ v : Variable, (v.relabel r).written detail = v.written detail) (args : List Expr) :
    Expr.layoutArgs detail (Expr.relabelAll r args) = Expr.layoutArgs detail args := by
  cases args with
  | nil => rfl
  | cons e rest =>
    simp only [Expr.relabelAll, Expr.layoutArgs, Expr.isCall_relabel, Expr.isEmpty_relabelAll,
      Expr.layout_relabel hidden e, Expr.layoutArgs_relabelAll hidden rest]

end

mutual

theorem Block.layout_relabel
    (hidden : ∀ v : Variable, (v.relabel r).written detail = v.written detail) (block : Block)
    (level : Nat) : (block.relabel r).layout detail level = block.layout detail level := by
  match block with
  | .mk [] slots => rfl
  | .mk (s :: rest) slots =>
    have same := Stmt.layoutAll_relabelAll hidden (s :: rest) (level + 1)
    simp only [Block.relabel, Stmt.relabelAll, Block.layout] at same ⊢
    rw [same]

theorem Stmt.layoutAll_relabelAll
    (hidden : ∀ v : Variable, (v.relabel r).written detail = v.written detail)
    (stmts : List Stmt) (level : Nat) :
    Stmt.layoutAll detail level (Stmt.relabelAll r stmts) = Stmt.layoutAll detail level stmts := by
  cases stmts with
  | nil => rfl
  | cons s rest =>
    simp only [Stmt.relabelAll, Stmt.layoutAll]
    rw [Stmt.layout_relabel hidden s, Stmt.layoutAll_relabelAll hidden rest]

theorem Stmt.layout_relabel
    (hidden : ∀ v : Variable, (v.relabel r).written detail = v.written detail) (s : Stmt)
    (level : Nat) : (s.relabel r).layout detail level = s.layout detail level := by
  match s with
  | .cond condition thenBlock none =>
    simp only [Stmt.relabel, Stmt.layout, Expr.layout_relabel hidden,
      Block.layout_relabel hidden thenBlock]
  | .cond condition thenBlock (some elseBlock) =>
    simp only [Stmt.relabel, Stmt.layout, Expr.layout_relabel hidden,
      Block.layout_relabel hidden thenBlock, Block.layout_relabel hidden elseBlock]
  | .loop none body span =>
    simp only [Stmt.relabel, Stmt.layout, Block.layout_relabel hidden body]
  | .loop (some label) body span =>
    simp only [Stmt.relabel, Stmt.layout, Block.layout_relabel hidden body]
  | .leave label span => cases label <;> rfl
  | .call none name args span =>
    simp only [Stmt.relabel, Option.map_none, Stmt.layout, Expr.layoutArgs_relabelAll hidden]
  | .call (some v) name args span =>
    simp only [Stmt.relabel, Option.map_some, Stmt.layout, Expr.layoutArgs_relabelAll hidden, hidden]
  | .block inner => simp only [Stmt.relabel, Stmt.layout, Block.layout_relabel hidden inner]

end

end

theorem Block.format_relabel {r : Relabelling} {detail : Detail}
    (hidden : ∀ v : Variable, (v.relabel r).written detail = v.written detail) (root : Block) :
    (root.relabel r).format detail = root.format detail := by
  rw [Block.format, Block.layout_relabel hidden, Block.format]

theorem Variable.written_unspanned (detail : Detail) (v : Variable) :
    (v.relabel .unspanned).written detail = v.written detail := rfl

theorem Variable.written_plain (r : Relabelling) (v : Variable) :
    (v.relabel r).written .plain = v.written .plain := rfl

end LoopTape
