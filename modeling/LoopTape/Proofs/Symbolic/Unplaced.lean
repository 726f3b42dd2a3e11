import LoopTape.Proofs.Tree.Grouping
import LoopTape.Symbolic.Linking

/-! Code does not depend on where a tree was read from.

Spans only tell an error where to point. A tree and the same tree without its spans, or grouped, have
the same tape or the same error, but for the place that the error names.
-/

set_option autoImplicit false

namespace LoopTape

def CompileError.unplaced : CompileError → CompileError
  | .unsupportedExpression callee _ => .unsupportedExpression callee .unknown
  | .breakOutsideLoop _ => .breakOutsideLoop .unknown
  | .unknownLoopLabel label _ => .unknownLoopLabel label .unknown
  | .duplicateLoopLabel label _ _ => .duplicateLoopLabel label .unknown .unknown
  | .unresolvedVariable name => .unresolvedVariable name
  | .undefinedLabel id => .undefinedLabel id

section

variable {α β : Type}

/-- A result whose error, if it is one, does not say where. -/
def unplaced : Except CompileError α → Except CompileError α
  | .ok a => .ok a
  | .error e => .error e.unplaced

theorem unplaced_bind {x y : Except CompileError α} {f g : α → Except CompileError β}
    (first : unplaced x = unplaced y) (second : ∀ a, unplaced (f a) = unplaced (g a)) :
    unplaced (x >>= f) = unplaced (y >>= g) := by
  -- If one of the two fails, the other does, and neither goes on.
  cases x with
  | ok a =>
    cases y with
    | ok b =>
      obtain rfl := Except.ok.inj first
      exact second a
    | error e => simp [unplaced] at first
  | error e =>
    cases y with
    | ok b => simp [unplaced] at first
    | error e' => exact congrArg Except.error (Except.error.inj first)

theorem unplaced_map {x y : Except CompileError α} (f : α → β) (same : unplaced x = unplaced y) :
    unplaced (x.map f) = unplaced (y.map f) :=
  unplaced_bind same fun _ => rfl

end

theorem Expr.slot_unspanned (context other : Span) (e : Expr) :
    unplaced ((e.relabel .unspanned).slot context) = unplaced (e.slot other) := by
  cases e with
  | «variable» v => rfl
  | paren inner => exact Expr.slot_unspanned context other inner
  | call name args span => rfl

theorem Expr.slots_unspanned (context other : Span) (args : List Expr) :
    unplaced (Expr.slots context (Expr.relabelAll .unspanned args)) =
      unplaced (Expr.slots other args) := by
  induction args with
  | nil => rfl
  | cons e rest ih =>
    exact unplaced_bind (Expr.slot_unspanned context other e) fun _ =>
      unplaced_bind ih fun _ => rfl

theorem resultSlot_unspanned (result : Option Variable) :
    resultSlot (result.map (·.relabel .unspanned)) = resultSlot result := by
  cases result <;> rfl

def OpenLoop.unspanned (opened : OpenLoop) : OpenLoop := { opened with span := .unknown }

def Surroundings.unspanned (around : Surroundings) : Surroundings :=
  ⟨around.loops.map OpenLoop.unspanned, around.depth⟩

theorem Surroundings.find?_unspanned (around : Surroundings) (name : String) :
    around.unspanned.loops.find? (·.label = some name) =
      (around.loops.find? (·.label = some name)).map OpenLoop.unspanned := by
  rw [unspanned, List.find?_map]
  rfl

theorem Surroundings.target?_unspanned (around : Surroundings) (label : Option String) :
    around.unspanned.target? label = (around.target? label).map OpenLoop.unspanned := by
  cases label with
  | none => exact List.head?_map
  | some name => exact find?_unspanned around name

theorem Surroundings.clash?_unspanned (around : Surroundings) (label : Option String) :
    around.unspanned.clash? label = (around.clash? label).map OpenLoop.unspanned := by
  cases label with
  | none => rfl
  | some name => exact find?_unspanned around name

mutual

theorem Block.lower_unspanned (block : Block) (around : Surroundings) (used : Nat) :
    unplaced ((block.relabel .unspanned).lower around.unspanned used) =
      unplaced (block.lower around used) := by
  cases block with
  | mk stmts slots =>
    exact unplaced_bind (Stmt.lowerAll_unspanned stmts (around.grow slots) used) fun _ => rfl

theorem Stmt.lowerAll_unspanned (stmts : List Stmt) (around : Surroundings) (used : Nat) :
    unplaced (Stmt.lowerAll around.unspanned used (Stmt.relabelAll .unspanned stmts)) =
      unplaced (Stmt.lowerAll around used stmts) := by
  cases stmts with
  | nil => rfl
  | cons s rest =>
    exact unplaced_bind (Stmt.lower_unspanned s around used) fun first =>
      unplaced_bind (Stmt.lowerAll_unspanned rest around first.2) fun _ => rfl

theorem Stmt.lower_unspanned (s : Stmt) (around : Surroundings) (used : Nat) :
    unplaced ((s.relabel .unspanned).lower around.unspanned used) =
      unplaced (s.lower around used) := by
  match s with
  | .cond condition thenBlock none =>
    exact unplaced_bind (Expr.slot_unspanned _ _ condition) fun _ =>
      unplaced_bind (Block.lower_unspanned thenBlock around _) fun _ => rfl
  | .cond condition thenBlock (some elseBlock) =>
    exact unplaced_bind (Expr.slot_unspanned _ _ condition) fun _ =>
      unplaced_bind (Block.lower_unspanned elseBlock around _) fun _ =>
        unplaced_bind (Block.lower_unspanned thenBlock around _) fun _ => rfl
  | .loop label (.mk stmts slots) span =>
    simp only [Stmt.relabel, Block.relabel, Stmt.lower, Surroundings.clash?_unspanned]
    cases around.clash? label with
    | some outer => rfl
    | none =>
      exact unplaced_bind (Stmt.lowerAll_unspanned stmts
        ⟨⟨label, span, around.depth + slots, used + 2⟩ :: around.loops, around.depth + slots⟩
        (used + 2)) fun _ => rfl
  | .leave label span =>
    simp only [Stmt.relabel, Stmt.lower, Surroundings.target?_unspanned]
    cases around.target? label with
    | some target => rfl
    | none => cases label <;> rfl
  | .call result name args span =>
    simp only [Stmt.relabel, Stmt.lower, resultSlot_unspanned]
    exact unplaced_bind (Expr.slots_unspanned _ _ args) fun _ => rfl
  | .block inner => exact Block.lower_unspanned inner around used

end

theorem Block.generate_unspanned (root : Block) :
    unplaced (root.relabel .unspanned).generate = unplaced root.generate :=
  unplaced_bind (unplaced_map Prod.fst (Block.lower_unspanned root .empty 0)) fun _ => rfl

theorem Block.generate_grouped (root : Block) : root.grouped.generate = root.generate := by
  rw [generate, symbolic, lower_grouped, generate, symbolic]

end LoopTape
