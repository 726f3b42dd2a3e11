import LoopTape.Proofs.Tree.Relabelling
import Mathlib.Data.Set.Function

/-! Trees with other names and other parentheses.

The names of variables and of labels matter only as far as two of them are the same. A renaming maps
them without confusing any, and the renamed form of a tree has no parentheses, so two trees have the
same renamed form if they differ in nothing else. Binding declares the renamed names where it declared
the old ones and gives the variables the slots they had.
-/

set_option autoImplicit false

namespace LoopTape

structure Renaming where
  name : String → String
  label : String → String

namespace Renaming

def same : Renaming := ⟨id, id⟩

end Renaming

def Variable.rename (r : Renaming) (v : Variable) : Variable := ⟨r.name v.name, v.slot⟩

mutual

def Expr.renamed (r : Renaming) : Expr → Expr
  | .variable v => .variable (v.rename r)
  | .paren inner => inner.renamed r
  | .call name args span => .call name (Expr.renamedAll r args) span

def Expr.renamedAll (r : Renaming) : List Expr → List Expr
  | [] => []
  | e :: rest => e.renamed r :: Expr.renamedAll r rest

end

mutual

/-- The block with other names and without the parentheses in its expressions. -/
def Block.renamed (r : Renaming) : Block → Block
  | .mk stmts localSlots => .mk (Stmt.renamedAll r stmts) localSlots

def Stmt.renamedAll (r : Renaming) : List Stmt → List Stmt
  | [] => []
  | s :: rest => s.renamed r :: Stmt.renamedAll r rest

def Stmt.renamed (r : Renaming) : Stmt → Stmt
  | .cond condition thenBlock none => .cond (condition.renamed r) (thenBlock.renamed r) none
  | .cond condition thenBlock (some elseBlock) =>
    .cond (condition.renamed r) (thenBlock.renamed r) (some (elseBlock.renamed r))
  | .loop label body span => .loop (label.map r.label) (body.renamed r) span
  | .leave label span => .leave (label.map r.label) span
  | .call result name args span =>
    .call (result.map (·.rename r)) name (Expr.renamedAll r args) span
  | .block inner => .block (inner.renamed r)

end

variable {r : Renaming}

mutual

theorem Expr.variables_renamed (e : Expr) :
    (e.renamed r).variables = e.variables.map (·.rename r) := by
  match e with
  | .variable v => rfl
  | .paren inner => exact Expr.variables_renamed inner
  | .call name args span => exact Expr.variablesAll_renamedAll args

theorem Expr.variablesAll_renamedAll (args : List Expr) :
    Expr.variablesAll (Expr.renamedAll r args) = (Expr.variablesAll args).map (·.rename r) := by
  cases args with
  | nil => rfl
  | cons e rest =>
    simp only [Expr.renamedAll, Expr.variablesAll, List.map_append, Expr.variables_renamed e,
      Expr.variablesAll_renamedAll rest]

end

theorem Stmt.ownVariables_renamed (s : Stmt) :
    (s.renamed r).ownVariables = s.ownVariables.map (·.rename r) := by
  match s with
  | .cond condition thenBlock none => exact Expr.variables_renamed condition
  | .cond condition thenBlock (some elseBlock) => exact Expr.variables_renamed condition
  | .call result name args span =>
    simp only [Stmt.renamed, Stmt.ownVariables, Expr.variablesAll_renamedAll, List.map_append]
    cases result <;> rfl
  | .loop .. => rfl
  | .leave .. => rfl
  | .block _ => rfl

mutual

theorem Block.variables_renamed (block : Block) :
    (block.renamed r).variables = block.variables.map (·.rename r) := by
  cases block with
  | mk stmts slots => exact Stmt.variablesAll_renamedAll stmts

theorem Stmt.variablesAll_renamedAll (stmts : List Stmt) :
    Stmt.variablesAll (Stmt.renamedAll r stmts) = (Stmt.variablesAll stmts).map (·.rename r) := by
  cases stmts with
  | nil => rfl
  | cons s rest =>
    simp only [Stmt.renamedAll, Stmt.variablesAll, List.map_append]
    rw [Stmt.variables_renamed s, Stmt.variablesAll_renamedAll rest]

theorem Stmt.variables_renamed (s : Stmt) :
    (s.renamed r).variables = s.variables.map (·.rename r) := by
  match s with
  | .cond condition thenBlock none =>
    simp only [Stmt.renamed, Stmt.variables, List.map_append, Expr.variables_renamed,
      Block.variables_renamed thenBlock]
  | .cond condition thenBlock (some elseBlock) =>
    simp only [Stmt.renamed, Stmt.variables, List.map_append, Expr.variables_renamed,
      Block.variables_renamed thenBlock, Block.variables_renamed elseBlock]
  | .loop label body span => exact Block.variables_renamed body
  | .leave label span => rfl
  | .call result name args span => exact Stmt.ownVariables_renamed (.call result name args span)
  | .block inner => exact Block.variables_renamed inner

end

mutual

theorem Block.blocks_renamed (block : Block) :
    (block.renamed r).blocks = block.blocks.map (·.renamed r) := by
  cases block with
  | mk stmts slots =>
    simp only [Block.renamed, Block.blocks, List.map_cons]
    rw [Stmt.blocksAll_renamedAll stmts]

theorem Stmt.blocksAll_renamedAll (stmts : List Stmt) :
    Stmt.blocksAll (Stmt.renamedAll r stmts) = (Stmt.blocksAll stmts).map (·.renamed r) := by
  cases stmts with
  | nil => rfl
  | cons s rest =>
    simp only [Stmt.renamedAll, Stmt.blocksAll, List.map_append]
    rw [Stmt.blocks_renamed s, Stmt.blocksAll_renamedAll rest]

theorem Stmt.blocks_renamed (s : Stmt) :
    (s.renamed r).blocks = s.blocks.map (·.renamed r) := by
  match s with
  | .cond condition thenBlock none => exact Block.blocks_renamed thenBlock
  | .cond condition thenBlock (some elseBlock) =>
    simp only [Stmt.renamed, Stmt.blocks, List.map_append, Block.blocks_renamed thenBlock,
      Block.blocks_renamed elseBlock]
  | .loop label body span => exact Block.blocks_renamed body
  | .leave label span => rfl
  | .call result name args span => rfl
  | .block inner => exact Block.blocks_renamed inner

end

def Named (names : Set String) (vars : List Variable) : Prop := ∀ v ∈ vars, v.name ∈ names

theorem Named.nil (names : Set String) : Named names [] := fun _ member => nomatch member

theorem Named.append {names : Set String} {vars more : List Variable} :
    Named names (vars ++ more) ↔ Named names vars ∧ Named names more := List.forall_mem_append

theorem Stmt.ownVariables_subset (s : Stmt) : s.ownVariables ⊆ s.variables := by
  match s with
  | .cond condition thenBlock none => exact List.subset_append_left _ _
  | .cond condition thenBlock (some elseBlock) =>
    exact List.Subset.trans (List.subset_append_left _ _) (List.subset_append_left _ _)
  | .call .. => exact List.Subset.refl _
  | .loop .. => exact List.nil_subset _
  | .leave .. => exact List.nil_subset _
  | .block _ => exact List.nil_subset _

theorem Named.ownNames {names : Set String} {stmts : List Stmt}
    (named : Named names (Stmt.variablesAll stmts)) : ∀ name ∈ ownNames stmts, name ∈ names := by
  induction stmts with
  | nil => exact fun _ member => nomatch member
  | cons s rest ih =>
    obtain ⟨first, others⟩ := Named.append.mp named
    rw [ownNames_cons]
    intro name member
    rcases List.mem_append.mp member with own | later
    · obtain ⟨v, mine, rfl⟩ := List.mem_map.mp own
      exact first v (s.ownVariables_subset mine)
    · exact ih others name later

section

variable {f : String → String} {names : Set String}

theorem eraseDups_map (injective : Set.InjOn f names) {list : List String}
    (inside : ∀ name ∈ list, name ∈ names) : (list.map f).eraseDups = list.eraseDups.map f := by
  -- What `eraseDups` goes on with is shorter than the rest, but not the rest itself.
  induction bound : list.length using Nat.strongRecOn generalizing list with
  | ind length ih =>
    cases list with
    | nil => rfl
    | cons name rest =>
      obtain ⟨here, later⟩ := List.forall_mem_cons.mp inside
      have shorter : (rest.filter fun other => !other == name).length < length := by
        rw [← bound]
        exact Nat.lt_succ_of_le (List.length_filter_le _ _)
      have others : (rest.map f).filter (fun other => !other == f name) =
          (rest.filter fun other => !other == name).map f := by
        rw [List.filter_map]
        congr 1
        apply List.filter_congr
        intro other member
        simp [injective.eq_iff (later other member) here]
      have kept : ∀ other ∈ rest.filter (fun other => !other == name), other ∈ names :=
        fun other member => later other (List.mem_filter.mp member).1
      rw [List.map_cons, List.eraseDups_cons, List.eraseDups_cons, List.map_cons, others,
        ih _ shorter kept rfl]

theorem idxOf?_map (injective : Set.InjOn f names) {list : List String}
    (inside : ∀ name ∈ list, name ∈ names) {name : String} (member : name ∈ names) :
    (list.map f).idxOf? (f name) = list.idxOf? name := by
  induction list with
  | nil => rfl
  | cons first rest ih =>
    obtain ⟨here, later⟩ := List.forall_mem_cons.mp inside
    rw [List.map_cons, List.idxOf?_cons, List.idxOf?_cons, ih later]
    simp [injective.eq_iff here member]

end

theorem ownNames_renamedAll (stmts : List Stmt) :
    ownNames (Stmt.renamedAll r stmts) = (ownNames stmts).map r.name := by
  induction stmts with
  | nil => rfl
  | cons s rest ih =>
    rw [Stmt.renamedAll, ownNames_cons, ownNames_cons, Stmt.ownVariables_renamed, List.map_map, ih,
      List.map_append, List.map_map]
    rfl

theorem ownNames_renamed (s : Stmt) : ownNames [s.renamed r] = (ownNames [s]).map r.name :=
  ownNames_renamedAll [s]

def Frame.rename (r : Renaming) (frame : Frame) : Frame := ⟨frame.names.map r.name, frame.base⟩

def Frames.rename (r : Renaming) (frames : Frames) : Frames := frames.map (Frame.rename r)

/-- The names that the blocks around a point declare, or that occur there in front of it, are among
those that the renaming does not confuse. -/
structure Surrounds (r : Renaming) (names : Set String) (frames : Frames) (seen : List String) :
    Prop where
  injective : Set.InjOn r.name names
  frames : ∀ frame ∈ frames, ∀ name ∈ frame.names, name ∈ names
  seen : ∀ name ∈ seen, name ∈ names

section

variable {names : Set String} {frames : Frames} {seen : List String}

theorem Surrounds.empty (injective : Set.InjOn r.name names) : Surrounds r names [] [] where
  injective := injective
  frames := fun _ member => nomatch member
  seen := fun _ member => nomatch member

theorem Surrounds.enter (around : Surrounds r names frames seen) {stmts : List Stmt}
    (own : ∀ name ∈ ownNames stmts, name ∈ names) :
    Surrounds r names (⟨declaredNames seen stmts, frames.top⟩ :: frames) seen where
  injective := around.injective
  frames := by
    refine List.forall_mem_cons.mpr ⟨?_, around.frames⟩
    intro name member
    have occurs := (List.mem_filter.mp member).1
    exact own name (List.mem_eraseDups.mp occurs)
  seen := around.seen

theorem Surrounds.pass (around : Surrounds r names frames seen) {own : List String}
    (inside : ∀ name ∈ own, name ∈ names) : Surrounds r names frames (seen ++ own) where
  injective := around.injective
  frames := around.frames
  seen := List.forall_mem_append.mpr ⟨around.seen, inside⟩

theorem Frames.top_rename (frames : Frames) : (frames.rename r).top = frames.top := by
  cases frames with
  | nil => rfl
  | cons frame outer => simp [rename, top, Frame.rename, Frame.top]

theorem declaredNames_renamedAll (around : Surrounds r names frames seen) {stmts : List Stmt}
    (own : ∀ name ∈ ownNames stmts, name ∈ names) :
    declaredNames (seen.map r.name) (Stmt.renamedAll r stmts) =
      (declaredNames seen stmts).map r.name := by
  rw [declaredNames, ownNames_renamedAll, eraseDups_map around.injective own, List.filter_map,
    declaredNames]
  congr 1
  apply List.filter_congr
  intro name member
  have here : name ∈ names := own name (List.mem_eraseDups.mp member)
  have known : (seen.map r.name).contains (r.name name) = seen.contains name := by
    rw [Bool.eq_iff_iff, List.contains_iff_mem, List.contains_iff_mem, List.mem_map]
    constructor
    · rintro ⟨other, before, same⟩
      rwa [← around.injective (around.seen other before) here same]
    · exact fun before => ⟨name, before, rfl⟩
  rw [Function.comp_apply, known]

theorem Frames.slot?_rename (injective : Set.InjOn r.name names)
    (inside : ∀ frame ∈ frames, ∀ name ∈ frame.names, name ∈ names) {name : String}
    (member : name ∈ names) :
    (frames.rename r).slot? (r.name name) = frames.slot? name := by
  induction frames with
  | nil => rfl
  | cons frame outer ih =>
    obtain ⟨here, later⟩ := List.forall_mem_cons.mp inside
    have first : (frame.rename r).slot? (r.name name) = frame.slot? name := by
      rw [Frame.slot?, Frame.rename, idxOf?_map injective here member, Frame.slot?]
    have others := ih later
    simp only [slot?, rename, List.map_cons, List.findSome?_cons] at others ⊢
    rw [first, others]

theorem Variable.bind_rename (around : Surrounds r names frames seen) {v : Variable}
    (member : v.name ∈ names) : (v.rename r).bind (frames.rename r) = (v.bind frames).rename r := by
  rw [bind, rename, Frames.slot?_rename around.injective around.frames member]
  rfl

mutual

theorem Expr.bind_renamed (around : Surrounds r names frames seen) (e : Expr)
    (named : Named names e.variables) :
    (e.renamed r).bind (frames.rename r) = (e.bind frames).renamed r := by
  match e with
  | .variable v =>
    have member : v.name ∈ names := named v List.mem_cons_self
    exact congrArg Expr.variable (Variable.bind_rename around member)
  | .paren inner => exact Expr.bind_renamed around inner named
  | .call name args span =>
    simp only [Expr.renamed, Expr.bind, Expr.bindAll_renamedAll around args named]

theorem Expr.bindAll_renamedAll (around : Surrounds r names frames seen) (args : List Expr)
    (named : Named names (Expr.variablesAll args)) :
    Expr.bindAll (frames.rename r) (Expr.renamedAll r args) =
      Expr.renamedAll r (Expr.bindAll frames args) := by
  cases args with
  | nil => rfl
  | cons e rest =>
    obtain ⟨first, others⟩ := Named.append.mp named
    simp only [Expr.renamedAll, Expr.bindAll, Expr.bind_renamed around e first,
      Expr.bindAll_renamedAll around rest others]

end

mutual

/-- Names are bound alike, whatever they are. -/
theorem Block.bind_renamed (block : Block) {frames : Frames} {seen : List String}
    (around : Surrounds r names frames seen) (named : Named names block.variables) :
    (block.renamed r).bind (frames.rename r) (seen.map r.name) =
      (block.bind frames seen).renamed r := by
  cases block with
  | mk stmts slots =>
    have own := Named.ownNames named
    have inside := Stmt.bindAll_renamedAll stmts (around.enter own) named
    simp only [Block.renamed, Block.bind, declaredNames_renamedAll around own,
      Frames.top_rename, List.length_map]
    exact congrArg (Block.mk · (declaredNames seen stmts).length) inside

theorem Stmt.bindAll_renamedAll (stmts : List Stmt) {frames : Frames} {seen : List String}
    (around : Surrounds r names frames seen) (named : Named names (Stmt.variablesAll stmts)) :
    Stmt.bindAll (frames.rename r) (seen.map r.name) (Stmt.renamedAll r stmts) =
      Stmt.renamedAll r (Stmt.bindAll frames seen stmts) := by
  cases stmts with
  | nil => rfl
  | cons s rest =>
    obtain ⟨first, others⟩ := Named.append.mp named
    -- What comes behind a statement is bound with the names in it seen as well.
    have alone : Named names (Stmt.variablesAll [s]) := Named.append.mpr ⟨first, Named.nil names⟩
    have later := around.pass alone.ownNames
    simp only [Stmt.renamedAll, Stmt.bindAll, ownNames_renamed, ← List.map_append]
    rw [Stmt.bind_renamed s later first, Stmt.bindAll_renamedAll rest later others]

theorem Stmt.bind_renamed (s : Stmt) {frames : Frames} {seen : List String}
    (around : Surrounds r names frames seen) (named : Named names s.variables) :
    (s.renamed r).bind (frames.rename r) (seen.map r.name) = (s.bind frames seen).renamed r := by
  match s with
  | .cond condition thenBlock none =>
    obtain ⟨choice, whenTrue⟩ := Named.append.mp named
    simp only [Stmt.renamed, Stmt.bind, Expr.bind_renamed around condition choice,
      Block.bind_renamed thenBlock around whenTrue]
  | .cond condition thenBlock (some elseBlock) =>
    obtain ⟨both, whenFalse⟩ := Named.append.mp named
    obtain ⟨choice, whenTrue⟩ := Named.append.mp both
    simp only [Stmt.renamed, Stmt.bind, Expr.bind_renamed around condition choice,
      Block.bind_renamed thenBlock around whenTrue, Block.bind_renamed elseBlock around whenFalse]
  | .loop label body span =>
    simp only [Stmt.renamed, Stmt.bind, Block.bind_renamed body around named]
  | .leave label span => rfl
  | .call none name args span =>
    simp only [Stmt.renamed, Stmt.bind, Expr.bindAll_renamedAll around args named,
      Option.map_none]
  | .call (some result) name args span =>
    obtain ⟨target, inputs⟩ := List.forall_mem_cons.mp named
    simp only [Stmt.renamed, Stmt.bind, Expr.bindAll_renamedAll around args inputs,
      Option.map_some, Variable.bind_rename around target]
  | .block inner => simp only [Stmt.renamed, Stmt.bind, Block.bind_renamed inner around named]

end

end

mutual

def Block.labels : Block → List String
  | .mk stmts _ => Stmt.labelsAll stmts

def Stmt.labelsAll : List Stmt → List String
  | [] => []
  | s :: rest => s.labels ++ Stmt.labelsAll rest

def Stmt.labels : Stmt → List String
  | .cond _ thenBlock none => thenBlock.labels
  | .cond _ thenBlock (some elseBlock) => thenBlock.labels ++ elseBlock.labels
  | .loop label body _ => label.toList ++ body.labels
  | .leave label _ => label.toList
  | .call .. => []
  | .block inner => inner.labels

end

mutual

theorem Block.labels_bind (block : Block) (frames : Frames) (seen : List String) :
    (block.bind frames seen).labels = block.labels := by
  cases block with
  | mk stmts slots => exact Stmt.labelsAll_bindAll stmts _ seen

theorem Stmt.labelsAll_bindAll (stmts : List Stmt) (frames : Frames) (seen : List String) :
    Stmt.labelsAll (Stmt.bindAll frames seen stmts) = Stmt.labelsAll stmts := by
  cases stmts with
  | nil => rfl
  | cons s rest =>
    rw [Stmt.bindAll, Stmt.labelsAll, Stmt.labelsAll, Stmt.labels_bind s,
      Stmt.labelsAll_bindAll rest]

theorem Stmt.labels_bind (s : Stmt) (frames : Frames) (seen : List String) :
    (s.bind frames seen).labels = s.labels := by
  match s with
  | .cond condition thenBlock none => exact Block.labels_bind thenBlock frames seen
  | .cond condition thenBlock (some elseBlock) =>
    rw [Stmt.bind, Stmt.labels, Stmt.labels, Block.labels_bind thenBlock,
      Block.labels_bind elseBlock]
  | .loop label body span => rw [Stmt.bind, Stmt.labels, Stmt.labels, Block.labels_bind body]
  | .leave label span => rfl
  | .call result name args span => rfl
  | .block inner => exact Block.labels_bind inner frames seen

end

structure Renaming.Injective (r : Renaming) (block : Block) : Prop where
  name : Set.InjOn r.name {name | name ∈ block.variables.map Variable.name}
  label : Set.InjOn r.label {label | label ∈ block.labels}

theorem Renaming.same_injective (block : Block) : same.Injective block :=
  ⟨Function.injective_id.injOn, Function.injective_id.injOn⟩

theorem Block.resolve_renamed {root : Block} (injective : r.Injective root) :
    (root.renamed r).resolve = root.resolve.renamed r := by
  have named : Named {name | name ∈ root.variables.map Variable.name} root.variables :=
    fun _ member => List.mem_map_of_mem member
  exact Block.bind_renamed root (.empty injective.name) named

/-- The second tree is the first with other names, and with parentheses elsewhere. -/
def Block.Renames (r : Renaming) (before after : Block) : Prop :=
  after.renamed .same = before.renamed r

theorem Block.Renames.resolve {before after : Block} (renames : Renames r before after)
    (injective : r.Injective before) : Renames r before.resolve after.resolve := by
  rw [Renames, ← resolve_renamed injective, ← resolve_renamed (Renaming.same_injective after),
    renames]

theorem Block.Renames.slots {before after : Block} (renames : Renames r before after) :
    after.variables.map Variable.slot = before.variables.map Variable.slot := by
  have same := congrArg (fun block : Block => block.variables.map Variable.slot) renames
  simp only [Block.variables_renamed, List.map_map] at same
  exact same

theorem Block.Renames.localSlots {before after : Block} (renames : Renames r before after) :
    after.blocks.map Block.localSlots = before.blocks.map Block.localSlots := by
  have same := congrArg (fun block : Block => block.blocks.map Block.localSlots) renames
  have kept (s : Renaming) : Block.localSlots ∘ Block.renamed s = Block.localSlots := by
    funext block
    cases block
    rfl
  simp only [Block.blocks_renamed, List.map_map, kept] at same
  exact same

end LoopTape
