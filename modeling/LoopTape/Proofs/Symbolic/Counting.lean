import LoopTape.Proofs.Symbolic.Lowered

/-! Lowering with counts of limited size.

Here the number of slots allocated is a count that every block changes when it is entered and when
it is left, and that must neither reach a limit nor fall below zero. When the slots of the blocks
around each point stay below the limit, this comes to the same as lowering with the number of slots
handed down from block to block: no count ever leaves its range.
-/

set_option autoImplicit false

namespace LoopTape

inductive CountError where
  | compile (e : CompileError)
  | outOfRange
  deriving Repr, DecidableEq

def counting {α : Type} : Except CompileError α → Except CountError α
  | .ok a => .ok a
  | .error e => .error (.compile e)

/-- What a lowering that counts keeps: the loops it is in, the slots and the labels so far. -/
structure Tally where
  loops : List OpenLoop
  depth : Nat
  used : Nat
  deriving Repr, DecidableEq

namespace Tally

def start : Tally := ⟨[], 0, 0⟩

def surroundings (t : Tally) : Surroundings := ⟨t.loops, t.depth⟩

def grow (t : Tally) (limit count : Nat) : Except CountError Tally :=
  if t.depth + count < limit then .ok { t with depth := t.depth + count } else .error .outOfRange

def shrink (t : Tally) (count : Nat) : Except CountError Tally :=
  if count ≤ t.depth then .ok { t with depth := t.depth - count } else .error .outOfRange

end Tally

mutual

def Block.tallied (limit : Nat) (t : Tally) : Block → Except CountError (List Symbolic × Tally)
  | .mk stmts localSlots => do
    let t ← t.grow limit localSlots
    let (code, t) ← Stmt.talliedAll limit t stmts
    let t ← t.shrink localSlots
    return (Symbolic.growBy localSlots ++ code ++ Symbolic.shrinkBy localSlots, t)

def Stmt.talliedAll (limit : Nat) (t : Tally) :
    List Stmt → Except CountError (List Symbolic × Tally)
  | [] => .ok ([], t)
  | s :: rest => do
    let (first, t) ← s.tallied limit t
    let (others, t) ← Stmt.talliedAll limit t rest
    return (first ++ others, t)

def Stmt.tallied (limit : Nat) (t : Tally) : Stmt → Except CountError (List Symbolic × Tally)
  | .call result name args span => do
    let inputs ← counting (Expr.slots span args)
    let output ← counting (resultSlot result)
    return ([.call name inputs output], t)
  | .cond condition thenBlock none => do
    let slot ← counting (condition.slot .unknown)
    let (whenTrue, after) ← thenBlock.tallied limit { t with used := t.used + 2 }
    return (.jump slot (t.used + 1) :: .jump 0 (t.used + 2) :: .label (t.used + 1) ::
      whenTrue ++ [.label (t.used + 2)], after)
  | .cond condition thenBlock (some elseBlock) => do
    let slot ← counting (condition.slot .unknown)
    let (whenFalse, between) ← elseBlock.tallied limit { t with used := t.used + 2 }
    let (whenTrue, after) ← thenBlock.tallied limit between
    return (.jump slot (t.used + 1) :: whenFalse ++ .jump 0 (t.used + 2) :: .label (t.used + 1) ::
      whenTrue ++ [.label (t.used + 2)], after)
  | .loop label (.mk stmts localSlots) span =>
    match t.surroundings.clash? label with
    | some outer => .error (.compile (.duplicateLoopLabel (label.getD "") span outer.span))
    | none => do
      let entered ← t.grow limit localSlots
      let opened : OpenLoop := ⟨label, span, entered.depth, t.used + 2⟩
      let (body, left) ← Stmt.talliedAll limit ⟨opened :: t.loops, entered.depth, t.used + 2⟩ stmts
      let after ← { left with loops := left.loops.tail : Tally }.shrink localSlots
      return (Symbolic.growBy localSlots ++ .label (t.used + 1) :: body ++
        .jump 0 (t.used + 1) :: .label (t.used + 2) :: Symbolic.shrinkBy localSlots, after)
  | .leave label span =>
    match t.surroundings.target? label with
    | some target => do
      let freed ← t.shrink target.depth
      return (Symbolic.shrinkBy freed.depth ++ [.jump 0 target.exit], t)
    | none =>
      match label with
      | none => .error (.compile (.breakOutsideLoop span))
      | some label => .error (.compile (.unknownLoopLabel label span))
  | .block inner => inner.tallied limit t

end

mutual

/-- The most slots that blocks nested in each other declare together. -/
def Block.reach : Block → Nat
  | .mk stmts localSlots => localSlots + Stmt.reachAll stmts

def Stmt.reachAll : List Stmt → Nat
  | [] => 0
  | s :: rest => max s.reach (Stmt.reachAll rest)

def Stmt.reach : Stmt → Nat
  | .cond _ thenBlock none => thenBlock.reach
  | .cond _ thenBlock (some elseBlock) => max thenBlock.reach elseBlock.reach
  | .loop _ body _ => body.reach
  | .leave .. | .call .. => 0
  | .block inner => inner.reach

end

/-- What a lowering that counts gives where the other one gives `lowered`: all slots of the part are
freed again when it is left. -/
def Surroundings.tally (around : Surroundings) :
    Except CompileError (List Symbolic × Nat) → Except CountError (List Symbolic × Tally)
  | .ok (code, after) => .ok (code, ⟨around.loops, around.depth, after⟩)
  | .error e => .error (.compile e)

theorem Tally.grow_eq {loops : List OpenLoop} {depth used limit count : Nat}
    (room : depth + count < limit) :
    Tally.grow ⟨loops, depth, used⟩ limit count = .ok ⟨loops, depth + count, used⟩ :=
  if_pos room

theorem Tally.shrink_eq {loops : List OpenLoop} {depth used count : Nat} :
    Tally.shrink ⟨loops, depth + count, used⟩ count = .ok ⟨loops, depth, used⟩ := by
  simp [shrink]

mutual

theorem Block.tallied_eq (limit : Nat) (block : Block) {around : Surroundings} (used : Nat)
    (room : around.depth + block.reach < limit) (ordered : around.Ordered) :
    block.tallied limit ⟨around.loops, around.depth, used⟩ =
      around.tally (block.lower around used) := by
  cases block with
  | mk stmts localSlots =>
    simp only [Block.reach] at room
    have inner := Stmt.talliedAll_eq limit stmts used
      (show (around.grow localSlots).depth + _ < _ by simp only [Surroundings.grow]; omega)
      (ordered.grow localSlots)
    simp only [Surroundings.grow] at inner
    simp only [Block.tallied, Block.lower, Tally.grow_eq (by omega : around.depth + localSlots < limit)]
    simp only [bind, Except.bind, inner, Surroundings.grow]
    -- The statements give back the depth they were given, so the slots of the block can be freed.
    cases Stmt.lowerAll ⟨around.loops, around.depth + localSlots⟩ used stmts with
    | error e => rfl
    | ok lowered => simp [Surroundings.tally, Tally.shrink_eq, pure, Except.pure]

theorem Stmt.talliedAll_eq (limit : Nat) (stmts : List Stmt) {around : Surroundings} (used : Nat)
    (room : around.depth + Stmt.reachAll stmts < limit) (ordered : around.Ordered) :
    Stmt.talliedAll limit ⟨around.loops, around.depth, used⟩ stmts =
      around.tally (Stmt.lowerAll around used stmts) := by
  cases stmts with
  | nil => rfl
  | cons s rest =>
    simp only [Stmt.reachAll] at room
    have head := Stmt.tallied_eq limit s used (by omega) ordered
    simp only [Stmt.talliedAll, Stmt.lowerAll, bind, Except.bind, head]
    cases s.lower around used with
    | error e => rfl
    | ok lowered =>
      have tail := Stmt.talliedAll_eq limit rest lowered.2 (by omega) ordered
      simp only [Surroundings.tally, tail]
      cases Stmt.lowerAll around lowered.2 rest with
      | error e => rfl
      | ok others => rfl

theorem Stmt.tallied_eq (limit : Nat) (s : Stmt) {around : Surroundings} (used : Nat)
    (room : around.depth + s.reach < limit) (ordered : around.Ordered) :
    s.tallied limit ⟨around.loops, around.depth, used⟩ = around.tally (s.lower around used) := by
  match s with
  | .call result name args span =>
    simp only [Stmt.tallied, Stmt.lower, bind, Except.bind]
    cases Expr.slots span args with
    | error e => rfl
    | ok inputs =>
      cases resultSlot result with
      | error e => rfl
      | ok output => rfl
  | .cond condition thenBlock none =>
    simp only [Stmt.reach] at room
    have inner := Block.tallied_eq limit thenBlock (used + 2) room ordered
    simp only [Stmt.tallied, Stmt.lower, bind, Except.bind]
    cases condition.slot .unknown with
    | error e => rfl
    | ok slot =>
      simp only [counting, inner]
      cases thenBlock.lower around (used + 2) with
      | error e => rfl
      | ok whenTrue => rfl
  | .cond condition thenBlock (some elseBlock) =>
    simp only [Stmt.reach] at room
    have first := Block.tallied_eq limit elseBlock (used + 2) (by omega) ordered
    simp only [Stmt.tallied, Stmt.lower, bind, Except.bind]
    cases condition.slot .unknown with
    | error e => rfl
    | ok slot =>
      simp only [counting, first]
      cases elseBlock.lower around (used + 2) with
      | error e => rfl
      | ok whenFalse =>
        have second := Block.tallied_eq limit thenBlock whenFalse.2 (by omega) ordered
        simp only [Surroundings.tally, second]
        cases thenBlock.lower around whenFalse.2 with
        | error e => rfl
        | ok whenTrue => rfl
  | .loop label (.mk stmts localSlots) span =>
    simp only [Stmt.reach, Block.reach] at room
    have inner := Stmt.talliedAll_eq limit stmts (used + 2)
      (show (around.enterLoop label span localSlots (used + 2)).depth + _ < _ by
        simp only [Surroundings.enterLoop]; omega)
      (ordered.enterLoop label span localSlots (used + 2))
    simp only [Surroundings.enterLoop] at inner
    simp only [Stmt.tallied, Stmt.lower, Tally.surroundings]
    cases around.clash? label with
    | some outer => rfl
    | none =>
      simp only [Tally.grow_eq (by omega : around.depth + localSlots < limit), bind, Except.bind,
        inner]
      cases Stmt.lowerAll _ (used + 2) stmts with
      | error e => rfl
      | ok body => simp [Surroundings.tally, Tally.shrink_eq, pure, Except.pure]
  | .leave label span =>
    simp only [Stmt.tallied, Stmt.lower, Tally.surroundings]
    cases found : around.target? label with
    | none => cases label <;> rfl
    | some target =>
      -- The difference does not go below zero: no more slots are allocated in the loop than here.
      have below := ordered.target found
      simp [Tally.shrink, below, bind, Except.bind, pure, Except.pure, Surroundings.tally]
  | .block inner =>
    simp only [Stmt.tallied, Stmt.lower]
    exact Block.tallied_eq limit inner used room ordered

end

/-- Counting the slots of a root block never leaves the range below a limit that they fit in. -/
theorem Block.tallied_root_eq {limit : Nat} (root : Block) (room : root.reach < limit) :
    root.tallied limit .start = Surroundings.empty.tally (root.lower .empty 0) := by
  have ordered : Surroundings.empty.Ordered := fun opened member => nomatch member
  have room' : Surroundings.empty.depth + root.reach < limit := by simpa [Surroundings.empty] using room
  exact Block.tallied_eq limit root 0 room' ordered

end LoopTape
