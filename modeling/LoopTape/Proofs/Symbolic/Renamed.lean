import LoopTape.Proofs.Scope.Passes
import LoopTape.Proofs.Symbolic.Linkable
import LoopTape.Proofs.Tree.Renaming
import LoopTape.Symbolic.Linking

/-! Code does not depend on names.

Lowering asks which loop a break leaves and whether a label is taken, and both only compare labels. So a
tree with other names and other parentheses has the same code, or an error at the same place that names
what the label or the variable is called now.
-/

set_option autoImplicit false

namespace LoopTape

def CompileError.rename (r : Renaming) : CompileError → CompileError
  | .unsupportedExpression callee span => .unsupportedExpression callee span
  | .breakOutsideLoop span => .breakOutsideLoop span
  | .unknownLoopLabel label span => .unknownLoopLabel (r.label label) span
  | .duplicateLoopLabel label span previous => .duplicateLoopLabel (r.label label) span previous
  | .unresolvedVariable name => .unresolvedVariable (r.name name)
  | .undefinedLabel id => .undefinedLabel id

variable {r : Renaming}

def renamedError {α : Type} (r : Renaming) (x : Except CompileError α) : Except CompileError α :=
  x.mapError (CompileError.rename r)

theorem renamedError_bind {α β : Type} {x y : Except CompileError α}
    {f g : α → Except CompileError β} (first : x = renamedError r y)
    (second : ∀ a, f a = renamedError r (g a)) : x >>= f = renamedError r (y >>= g) := by
  subst first
  cases y with
  | error e => rfl
  | ok a => exact second a

theorem Variable.boundSlot_rename (v : Variable) :
    (v.rename r).boundSlot = renamedError r v.boundSlot := by
  unfold boundSlot rename
  cases v.slot <;> rfl

theorem Expr.slot_renamed (context : Span) (e : Expr) :
    (e.renamed r).slot context = renamedError r (e.slot context) := by
  cases e with
  | «variable» v => exact v.boundSlot_rename
  | paren inner => exact Expr.slot_renamed context inner
  | call name args span => rfl

theorem Expr.slots_renamed (context : Span) (args : List Expr) :
    Expr.slots context (Expr.renamedAll r args) = renamedError r (Expr.slots context args) := by
  induction args with
  | nil => rfl
  | cons e rest ih =>
    exact renamedError_bind (Expr.slot_renamed context e) fun _ =>
      renamedError_bind ih fun _ => rfl

theorem resultSlot_rename (result : Option Variable) :
    resultSlot (result.map (·.rename r)) = renamedError r (resultSlot result) := by
  cases result with
  | none => rfl
  | some v => exact renamedError_bind v.boundSlot_rename fun _ => rfl

def OpenLoop.rename (r : Renaming) (opened : OpenLoop) : OpenLoop :=
  { opened with label := opened.label.map r.label }

def Surroundings.rename (r : Renaming) (around : Surroundings) : Surroundings :=
  ⟨around.loops.map (OpenLoop.rename r), around.depth⟩

theorem OpenLoop.find?_rename {labels : Set String} (injective : Set.InjOn r.label labels)
    {loops : List OpenLoop} (inside : ∀ opened ∈ loops, ∀ label ∈ opened.label, label ∈ labels)
    {label : String} (member : label ∈ labels) :
    (loops.map (OpenLoop.rename r)).find? (·.label = some (r.label label)) =
      (loops.find? (·.label = some label)).map (OpenLoop.rename r) := by
  induction loops with
  | nil => rfl
  | cons opened outer ih =>
    obtain ⟨here, later⟩ := List.forall_mem_cons.mp inside
    have same : (opened.rename r).label = some (r.label label) ↔ opened.label = some label := by
      constructor
      · intro renamed
        obtain ⟨own, has, collides⟩ := Option.map_eq_some_iff.mp renamed
        rw [has, injective (here own has) member collides]
      · intro has
        rw [rename, has]
        rfl
    rw [List.map_cons, List.find?_cons, List.find?_cons, ih later]
    by_cases has : opened.label = some label
    · simp only [same.mpr has, has, decide_true, Option.map_some]
    · simp only [mt same.mp has, has, decide_false]

/-- The labels of the loops around a point are among those that the renaming does not confuse. -/
structure Surroundings.Keeps (r : Renaming) (labels : Set String) (around : Surroundings) :
    Prop where
  injective : Set.InjOn r.label labels
  loops : ∀ opened ∈ around.loops, ∀ label ∈ opened.label, label ∈ labels

namespace Surroundings

variable {labels : Set String} {around : Surroundings}

theorem Keeps.target? (keeps : around.Keeps r labels) {label : Option String}
    (labelled : ∀ own ∈ label, own ∈ labels) :
    (around.rename r).target? (label.map r.label) =
      (around.target? label).map (OpenLoop.rename r) := by
  cases label with
  | none => exact List.head?_map
  | some own => exact OpenLoop.find?_rename keeps.injective keeps.loops (labelled own rfl)

theorem Keeps.clash? (keeps : around.Keeps r labels) {label : Option String}
    (labelled : ∀ own ∈ label, own ∈ labels) :
    (around.rename r).clash? (label.map r.label) =
      (around.clash? label).map (OpenLoop.rename r) := by
  cases label with
  | none => rfl
  | some own => exact OpenLoop.find?_rename keeps.injective keeps.loops (labelled own rfl)

theorem Keeps.enter (keeps : around.Keeps r labels) {label : Option String}
    (labelled : ∀ own ∈ label, own ∈ labels) (span : Span) (depth exit : Nat) :
    Keeps r labels ⟨⟨label, span, depth, exit⟩ :: around.loops, depth⟩ where
  injective := keeps.injective
  loops := List.forall_mem_cons.mpr ⟨labelled, keeps.loops⟩

end Surroundings

section

variable {labels : Set String}

mutual

theorem Block.lower_renamed (block : Block) {around : Surroundings} (keeps : around.Keeps r labels)
    (labelled : ∀ label ∈ block.labels, label ∈ labels) (used : Nat) :
    (block.renamed r).lower (around.rename r) used = renamedError r (block.lower around used) := by
  cases block with
  | mk stmts slots =>
    have inner : (around.grow slots).Keeps r labels := ⟨keeps.injective, keeps.loops⟩
    exact renamedError_bind (Stmt.lowerAll_renamedAll stmts inner labelled used) fun _ => rfl

theorem Stmt.lowerAll_renamedAll (stmts : List Stmt) {around : Surroundings}
    (keeps : around.Keeps r labels) (labelled : ∀ label ∈ Stmt.labelsAll stmts, label ∈ labels)
    (used : Nat) :
    Stmt.lowerAll (around.rename r) used (Stmt.renamedAll r stmts) =
      renamedError r (Stmt.lowerAll around used stmts) := by
  cases stmts with
  | nil => rfl
  | cons s rest =>
    obtain ⟨first, others⟩ := List.forall_mem_append.mp labelled
    exact renamedError_bind (Stmt.lower_renamed s keeps first used) fun lowered =>
      renamedError_bind (Stmt.lowerAll_renamedAll rest keeps others lowered.2) fun _ => rfl

theorem Stmt.lower_renamed (s : Stmt) {around : Surroundings} (keeps : around.Keeps r labels)
    (labelled : ∀ label ∈ s.labels, label ∈ labels) (used : Nat) :
    (s.renamed r).lower (around.rename r) used = renamedError r (s.lower around used) := by
  match s with
  | .cond condition thenBlock none =>
    exact renamedError_bind (Expr.slot_renamed .unknown condition) fun _ =>
      renamedError_bind (Block.lower_renamed thenBlock keeps labelled _) fun _ => rfl
  | .cond condition thenBlock (some elseBlock) =>
    obtain ⟨whenTrue, whenFalse⟩ := List.forall_mem_append.mp labelled
    exact renamedError_bind (Expr.slot_renamed .unknown condition) fun _ =>
      renamedError_bind (Block.lower_renamed elseBlock keeps whenFalse _) fun _ =>
        renamedError_bind (Block.lower_renamed thenBlock keeps whenTrue _) fun _ => rfl
  | .loop label (.mk stmts slots) span =>
    obtain ⟨own, inside⟩ := List.forall_mem_append.mp labelled
    have own : ∀ name ∈ label, name ∈ labels := fun name has =>
      own name (Option.mem_toList.mpr has)
    rw [Stmt.renamed, Block.renamed, Stmt.lower, Stmt.lower, keeps.clash? own]
    cases clash : around.clash? label with
    | some outer =>
      -- Only a label can be taken, so there is one that the error names.
      cases label with
      | none => cases clash
      | some name => rfl
    | none =>
      have body := Stmt.lowerAll_renamedAll stmts
        (keeps.enter own span (around.depth + slots) (used + 2)) inside (used + 2)
      exact renamedError_bind body fun _ => rfl
  | .leave label span =>
    have own : ∀ name ∈ label, name ∈ labels := fun name has =>
      labelled name (Option.mem_toList.mpr has)
    simp only [Stmt.renamed, Stmt.lower, keeps.target? own]
    cases around.target? label with
    | some target => rfl
    | none => cases label <;> rfl
  | .call result name args span =>
    exact renamedError_bind (Expr.slots_renamed span args) fun _ =>
      renamedError_bind (resultSlot_rename result) fun _ => rfl
  | .block inner => exact Block.lower_renamed inner keeps labelled used

end

end

theorem renamedError_link (code : List Symbolic) : renamedError r (link code) = link code := by
  cases linked : link code with
  | ok tape => rfl
  | error e =>
    obtain ⟨id, -, rfl⟩ := link_eq_error_iff.mp linked
    rfl

theorem Block.generate_renamed {root : Block}
    (injective : Set.InjOn r.label {label | label ∈ root.labels}) :
    (root.renamed r).generate = renamedError r root.generate := by
  have outside : Surroundings.empty.Keeps r {label | label ∈ root.labels} :=
    ⟨injective, fun _ member => nomatch member⟩
  have lowered := Block.lower_renamed root outside (fun _ member => member) 0
  have code : (root.renamed r).symbolic = renamedError r root.symbolic :=
    renamedError_bind lowered fun _ => rfl
  exact renamedError_bind code fun code => (renamedError_link code).symm

theorem Block.compile_renamed {root : Block} (injective : r.Injective root) :
    (root.renamed r).compile = renamedError r root.compile := by
  have kept : root.resolve.labels = root.labels := Block.labels_bind root [] []
  have labels : Set.InjOn r.label {label | label ∈ root.resolve.labels} := kept ▸ injective.label
  rw [compile, resolve_renamed injective, generate_renamed labels, compile]

theorem renamedError_same {α : Type} (x : Except CompileError α) : renamedError .same x = x := by
  cases x with
  | ok a => rfl
  | error e => cases e <;> rfl

/-- Only what is called alike matters, not how it is called. With other names, none of them confused,
and with parentheses put elsewhere the walks over a tree choose the same slots, and it has the same tape,
or the same error with the name that its label has now. -/
theorem Block.compile_renames {before after : Block} (renames : Renames r before after)
    (injective : r.Injective before) :
    after.resolveInArena.1.variables.map Variable.slot =
        before.resolveInArena.1.variables.map Variable.slot ∧
      after.resolveInArena.1.blocks.map Block.localSlots =
        before.resolveInArena.1.blocks.map Block.localSlots ∧
      after.compile = before.compile.mapError (CompileError.rename r) := by
  have resolved := renames.resolve injective
  rw [resolveInArena_eq, resolveInArena_eq]
  refine ⟨resolved.slots, resolved.localSlots, ?_⟩
  calc after.compile
      = (after.renamed .same).compile := by
        rw [compile_renamed (Renaming.same_injective after), renamedError_same]
    _ = (before.renamed r).compile := by rw [renames]
    _ = renamedError r before.compile := compile_renamed injective

def shifting : Renaming where
  name := fun name => if name = "x" then "total" else "x"
  label := fun label => if label = "outer" then "inner" else "elsewhere"

def misspelled : Block :=
  .unscoped [.loop (some "outer") (.unscoped [
    .call (some (.unbound "x")) "next" [.paren (.variable (.unbound "step"))] ⟨14, 31⟩,
    .cond (.variable (.unbound "x")) (.unscoped [.leave (some "outr") ⟨42, 53⟩]) none]) ⟨2, 12⟩]

def misspelledShifted : Block :=
  .unscoped [.loop (some "inner") (.unscoped [
    .call (some (.unbound "total")) "next" [.variable (.unbound "x")] ⟨14, 31⟩,
    .cond (.paren (.paren (.variable (.unbound "total"))))
      (.unscoped [.leave (some "elsewhere") ⟨42, 53⟩]) none]) ⟨2, 12⟩]

theorem misspelled_renames :
    Block.Renames shifting misspelled misspelledShifted ∧ shifting.Injective misspelled ∧
      misspelled.compile = .error (.unknownLoopLabel "outr" ⟨42, 53⟩) ∧
      misspelledShifted.compile = .error (.unknownLoopLabel "elsewhere" ⟨42, 53⟩) := by
  have renames : Block.Renames shifting misspelled misspelledShifted := rfl
  have names : ∀ a ∈ ["x", "step", "x"], ∀ b ∈ ["x", "step", "x"],
      shifting.name a = shifting.name b → a = b := by decide
  have labels : ∀ a ∈ ["outer", "outr"], ∀ b ∈ ["outer", "outr"],
      shifting.label a = shifting.label b → a = b := by decide
  have injective : shifting.Injective misspelled :=
    ⟨fun a inA b inB => names a inA b inB, fun a inA b inB => labels a inA b inB⟩
  have fails : misspelled.compile = .error (.unknownLoopLabel "outr" ⟨42, 53⟩) := rfl
  obtain ⟨-, -, compiled⟩ := Block.compile_renames renames injective
  rw [fails] at compiled
  exact ⟨renames, injective, fails, compiled⟩

end LoopTape
