import LoopTape.Proofs.Tape.Sound
import LoopTape.Scope.Binding

/-! The slots that binding chooses are allocated where they are used.

The frames around a point lie on each other without gaps, and the lowering has allocated exactly their
slots. So a variable's slot is above the reserved cell and no higher than what is allocated there, and
no point has more slots allocated than the highest one of some frame.
-/

set_option autoImplicit false

namespace LoopTape

def Frames.Stacked : Frames → Prop
  | [] => True
  | frame :: rest => frame.base = Frames.top rest ∧ Frames.Stacked rest

theorem Frames.top_cons (frame : Frame) (rest : Frames) :
    Frames.top (frame :: rest) = frame.base + frame.names.length := rfl

def Frames.enter (frames : Frames) (seen : List String) (stmts : List Stmt) : Frames :=
  ⟨declaredNames seen stmts, frames.top⟩ :: frames

theorem Frames.stacked_nil : Frames.Stacked [] := trivial

theorem Frames.Stacked.enter {frames : Frames} (stacked : frames.Stacked) (seen : List String)
    (stmts : List Stmt) : (frames.enter seen stmts).Stacked := ⟨rfl, stacked⟩

theorem Frames.top_enter (frames : Frames) (seen : List String) (stmts : List Stmt) :
    (frames.enter seen stmts).top = frames.top + (declaredNames seen stmts).length := rfl

theorem Block.bind_mk (frames : Frames) (seen : List String) (stmts : List Stmt) (slots : Nat) :
    (Block.mk stmts slots).bind frames seen =
      .mk (Stmt.bindAll (frames.enter seen stmts) seen stmts) (declaredNames seen stmts).length :=
  rfl

theorem Frames.slot?_cons {frame : Frame} {rest : Frames} {name : String} {slot : Nat} :
    Frames.slot? (frame :: rest) name = some slot ↔
      frame.slot? name = some slot ∨ frame.slot? name = none ∧ rest.slot? name = some slot := by
  rw [slot?, List.findSome?_cons]
  cases frame.slot? name with
  | some own => simp
  | none => simp [slot?]

theorem Frames.slot?_bounds {frames : Frames} (stacked : frames.Stacked) {name : String}
    {slot : Nat} (found : frames.slot? name = some slot) : 0 < slot ∧ slot ≤ frames.top := by
  induction frames with
  | nil => simp [slot?] at found
  | cons frame rest ih =>
    obtain ⟨base, below⟩ := stacked
    rcases slot?_cons.mp found with own | ⟨-, outer⟩
    · have bounds := Frame.slot?_bounds own
      exact ⟨by omega, bounds.2⟩
    · obtain ⟨positive, bound⟩ := ih below outer
      exact ⟨positive, by simp only [top, Frame.top]; omega⟩

mutual

theorem Expr.variables_bind (frames : Frames) (e : Expr) :
    (e.bind frames).variables = e.variables.map (·.bind frames) := by
  match e with
  | .variable v => rfl
  | .paren inner => exact Expr.variables_bind frames inner
  | .call name args span => exact Expr.variablesAll_bindAll frames args

theorem Expr.variablesAll_bindAll (frames : Frames) (args : List Expr) :
    Expr.variablesAll (Expr.bindAll frames args) =
      (Expr.variablesAll args).map (·.bind frames) := by
  cases args with
  | nil => rfl
  | cons e rest =>
    simp only [Expr.bindAll, Expr.variablesAll, List.map_append, Expr.variables_bind frames e,
      Expr.variablesAll_bindAll frames rest]

end

/-- A slot that is used where some number of them is allocated is one of them. -/
def SlotUsed (depth slot : Nat) : Prop := 0 < slot ∧ slot ≤ depth

theorem Frames.uses_bind {frames : Frames} (stacked : frames.Stacked) (vars : List Variable) :
    ∀ use ∈ (vars.map (·.bind frames)).filterMap (·.slot.map (frames.top, ·)),
      SlotUsed use.1 use.2 := by
  intro use member
  simp only [List.mem_filterMap, List.mem_map, Option.map_eq_some_iff] at member
  obtain ⟨_, ⟨v, _, rfl⟩, slot, bound, rfl⟩ := member
  exact slot?_bounds stacked bound

mutual

theorem Block.slotUses_bind (block : Block) {frames : Frames} (seen : List String)
    (stacked : frames.Stacked) :
    ∀ use ∈ (block.bind frames seen).slotUses frames.top, SlotUsed use.1 use.2 := by
  cases block with
  | mk stmts slots =>
    rw [Block.bind_mk, Block.slotUses, ← Frames.top_enter]
    exact Stmt.slotUses_bindAll stmts seen (stacked.enter seen stmts)

theorem Stmt.slotUses_bindAll (stmts : List Stmt) {frames : Frames} (seen : List String)
    (stacked : frames.Stacked) :
    ∀ use ∈ Stmt.slotUsesAll frames.top (Stmt.bindAll frames seen stmts), SlotUsed use.1 use.2 := by
  cases stmts with
  | nil => exact fun _ member => nomatch member
  | cons s rest =>
    intro use member
    rcases List.mem_append.mp member with inFirst | later
    · exact Stmt.slotUses_bind s (seen ++ ownNames [s]) stacked use inFirst
    · exact Stmt.slotUses_bindAll rest (seen ++ ownNames [s]) stacked use later

theorem Stmt.slotUses_bind (s : Stmt) {frames : Frames} (seen : List String)
    (stacked : frames.Stacked) :
    ∀ use ∈ (s.bind frames seen).slotUses frames.top, SlotUsed use.1 use.2 := by
  intro use member
  match s with
  | .call result name args span =>
    -- The result comes first among the variables of a call, also in the tree that was bound.
    have occurring : ((result.map (·.bind frames)).toList ++
        Expr.variablesAll (Expr.bindAll frames args)) =
          (result.toList ++ Expr.variablesAll args).map (·.bind frames) := by
      cases result <;> simp [Expr.variablesAll_bindAll]
    rw [Stmt.bind, Stmt.slotUses, occurring] at member
    exact Frames.uses_bind stacked _ use member
  | .cond condition thenBlock none =>
    rw [Stmt.bind, Stmt.slotUses, Expr.variables_bind] at member
    rcases List.mem_append.mp member with choice | whenTrue
    · exact Frames.uses_bind stacked _ use choice
    · exact Block.slotUses_bind thenBlock seen stacked use whenTrue
  | .cond condition thenBlock (some elseBlock) =>
    rw [Stmt.bind, Stmt.slotUses, Expr.variables_bind, List.append_assoc] at member
    rcases List.mem_append.mp member with choice | branches
    · exact Frames.uses_bind stacked _ use choice
    rcases List.mem_append.mp branches with whenTrue | whenFalse
    · exact Block.slotUses_bind thenBlock seen stacked use whenTrue
    · exact Block.slotUses_bind elseBlock seen stacked use whenFalse
  | .loop label body span => exact Block.slotUses_bind body seen stacked use member
  | .leave label span => exact nomatch member
  | .block inner => exact Block.slotUses_bind inner seen stacked use member

end

theorem mem_depthIfAny {count depth number : Nat} (member : number ∈ depthIfAny count depth) :
    number = depth := by
  unfold depthIfAny at member
  split at member
  · exact nomatch member
  · exact List.mem_singleton.mp member

mutual

theorem Block.depths_bind_le (block : Block) {frames : Frames} {seen : List String} {bound : Nat}
    {around : Surroundings} (depth : around.depth = frames.top) (ordered : around.Ordered)
    (below : frames.top ≤ bound) (inner : ∀ frame ∈ block.frames frames.top seen, frame.top ≤ bound) :
    ∀ number ∈ (block.bind frames seen).depths around, number ≤ bound := by
  cases block with
  | mk stmts slots =>
    have own : (frames.enter seen stmts).top ≤ bound := inner _ List.mem_cons_self
    have entered := Frames.top_enter frames seen stmts
    have body : ∀ number ∈ Stmt.depthsAll (around.grow (declaredNames seen stmts).length)
        (Stmt.bindAll (frames.enter seen stmts) seen stmts), number ≤ bound :=
      Stmt.depths_bindAll_le stmts (by rw [entered, ← depth]; rfl) (ordered.grow _) own
        (fun frame member => inner frame (List.mem_cons_of_mem _ member))
    rw [Block.bind_mk, Block.depths]
    intro number member
    simp only [List.mem_append] at member
    rcases member with (allocating | inside) | freeing
    · rw [mem_depthIfAny allocating, depth]
      exact below
    · exact body number inside
    · rw [mem_depthIfAny freeing, depth, ← entered]
      exact own

theorem Stmt.depths_bindAll_le (stmts : List Stmt) {frames : Frames} {seen : List String}
    {bound : Nat} {around : Surroundings} (depth : around.depth = frames.top)
    (ordered : around.Ordered) (below : frames.top ≤ bound)
    (inner : ∀ frame ∈ Stmt.framesAll frames.top seen stmts, frame.top ≤ bound) :
    ∀ number ∈ Stmt.depthsAll around (Stmt.bindAll frames seen stmts), number ≤ bound := by
  cases stmts with
  | nil => exact fun _ member => nomatch member
  | cons s rest =>
    intro number member
    rcases List.mem_append.mp member with inFirst | later
    · exact Stmt.depths_bind_le s depth ordered below
        (fun frame member => inner frame (List.mem_append_left _ member)) number inFirst
    · exact Stmt.depths_bindAll_le rest depth ordered below
        (fun frame member => inner frame (List.mem_append_right _ member)) number later

theorem Stmt.depths_bind_le (s : Stmt) {frames : Frames} {seen : List String} {bound : Nat}
    {around : Surroundings} (depth : around.depth = frames.top) (ordered : around.Ordered)
    (below : frames.top ≤ bound) (inner : ∀ frame ∈ s.frames frames.top seen, frame.top ≤ bound) :
    ∀ number ∈ (s.bind frames seen).depths around, number ≤ bound := by
  have here : around.depth ≤ bound := depth ▸ below
  intro number member
  match s with
  | .call .. => exact List.mem_singleton.mp member ▸ here
  | .cond condition thenBlock none =>
    simp only [Stmt.bind, Stmt.depths, List.mem_cons] at member
    rcases member with rfl | rfl | whenTrue
    · exact here
    · exact here
    · exact Block.depths_bind_le thenBlock depth ordered below inner number whenTrue
  | .cond condition thenBlock (some elseBlock) =>
    simp only [Stmt.bind, Stmt.depths, List.mem_cons, List.mem_append] at member
    rcases member with (rfl | whenFalse) | rfl | whenTrue
    · exact here
    · exact Block.depths_bind_le elseBlock depth ordered below
        (fun frame member => inner frame (List.mem_append_right _ member)) number whenFalse
    · exact here
    · exact Block.depths_bind_le thenBlock depth ordered below
        (fun frame member => inner frame (List.mem_append_left _ member)) number whenTrue
  | .loop label (.mk stmts slots) span =>
    have own : (frames.enter seen stmts).top ≤ bound := inner _ List.mem_cons_self
    have entered := Frames.top_enter frames seen stmts
    have body : ∀ number ∈ Stmt.depthsAll
        (around.enterLoop label span (declaredNames seen stmts).length 0)
        (Stmt.bindAll (frames.enter seen stmts) seen stmts), number ≤ bound :=
      Stmt.depths_bindAll_le stmts (by rw [entered, ← depth]; rfl) (ordered.enterLoop _ _ _ _) own
        (fun frame member => inner frame (List.mem_cons_of_mem _ member))
    simp only [Stmt.bind, Block.bind_mk, Stmt.depths, List.mem_append, List.mem_cons] at member
    rcases member with (allocating | inside) | back | freeing
    · rw [mem_depthIfAny allocating]
      exact here
    · exact body number inside
    · rw [back, depth, ← entered]
      exact own
    · rw [mem_depthIfAny freeing, depth, ← entered]
      exact own
  | .leave label span =>
    simp only [Stmt.bind, Stmt.depths] at member
    cases found : around.target? label with
    | none => simp [found] at member
    | some target =>
      have lower := ordered.target found
      simp only [found, List.mem_append, List.mem_singleton] at member
      -- Behind the jump as many slots are allocated as in the loop, which is no more than here.
      rcases member with freeing | leaving
      · rw [mem_depthIfAny freeing]
        exact here
      · omega
  | .block block => exact Block.depths_bind_le block depth ordered below inner number member

end

theorem le_foldl_max (numbers : List Nat) (least : Nat) :
    least ≤ numbers.foldl max least ∧ ∀ number ∈ numbers, number ≤ numbers.foldl max least := by
  induction numbers generalizing least with
  | nil => simp
  | cons first rest ih =>
    obtain ⟨start, others⟩ := ih (max least first)
    simp only [List.foldl_cons, List.forall_mem_cons]
    exact ⟨by omega, by omega, others⟩

theorem Block.top_le_peakSlot {root : Block} {frame : Frame} (member : frame ∈ root.allFrames) :
    frame.top ≤ root.peakSlot :=
  (le_foldl_max _ 0).2 _ (List.mem_map_of_mem member)

/-- No more slots are allocated anywhere than up to the highest one that a variable has. -/
theorem Block.depthAt_resolve_le (root : Block) (pc : Nat) :
    root.resolve.depthAt pc ≤ root.peakSlot := by
  have bounds : ∀ number ∈ root.resolve.depths .empty, number ≤ root.peakSlot :=
    Block.depths_bind_le root rfl (fun _ member => nomatch member) (Nat.zero_le _)
      fun _ member => Block.top_le_peakSlot member
  unfold depthAt
  cases listed : (root.resolve.depths .empty)[pc]? with
  | none => exact Nat.zero_le _
  | some number => exact bounds number (List.mem_of_getElem? listed)

end LoopTape
