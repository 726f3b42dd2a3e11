import LoopTape.Proofs.Tape.Region
import LoopTape.Tree.Traversal

/-! How many slots are allocated at each index of a generated tape.

The number depends on the index alone: it is the same on every way through the tape that leads to an
index, and also where no way leads there. It is computed from the tree, next to the code: a statement
is reached with the slots of the blocks around it, however the statements before it were left.
-/

set_option autoImplicit false

namespace LoopTape

/-- What an instruction asks of the number of slots at the indices it can go on at. -/
def Instr.Respects (depth : Nat → Nat) (pc : Nat) : Instr → Prop
  | .call .. => depth (pc + 1) = depth pc
  | .jump condition target => depth target = depth pc ∧ (condition ≠ 0 → depth (pc + 1) = depth pc)
  | .grow count => depth (pc + 1) = depth pc + count
  | .shrink count => count ≤ depth pc ∧ depth (pc + 1) = depth pc - count

/-- A number of slots for each index, from nothing allocated at the start to nothing at the end. -/
structure Tape.Balanced (tape : Tape) (depth : Nat → Nat) : Prop where
  start : depth 0 = 0
  finish : depth tape.length = 0
  respects : ∀ pc (instr : Instr), tape[pc]? = some instr → instr.Respects depth pc

/-- The slots that an instruction reads or stores to. The condition of a jump that is always taken
is none. -/
def Instr.slots : Instr → List Nat
  | .call _ inputs output => inputs ++ output.toList
  | .jump condition _ => if condition = 0 then [] else [condition]
  | .grow _ | .shrink _ => []

def depthIfAny (count depth : Nat) : List Nat := if count = 0 then [] else [depth]

mutual

/-- The number of slots allocated in front of each instruction of a block. -/
def Block.depths (around : Surroundings) : Block → List Nat
  | .mk stmts localSlots =>
    depthIfAny localSlots around.depth ++ Stmt.depthsAll (around.grow localSlots) stmts ++
      depthIfAny localSlots (around.depth + localSlots)

def Stmt.depthsAll (around : Surroundings) : List Stmt → List Nat
  | [] => []
  | s :: rest => s.depths around ++ Stmt.depthsAll around rest

def Stmt.depths (around : Surroundings) : Stmt → List Nat
  | .call .. => [around.depth]
  | .cond _ thenBlock none => around.depth :: around.depth :: thenBlock.depths around
  | .cond _ thenBlock (some elseBlock) =>
    around.depth :: elseBlock.depths around ++ around.depth :: thenBlock.depths around
  | .loop label (.mk stmts localSlots) span =>
    depthIfAny localSlots around.depth ++
      Stmt.depthsAll (around.enterLoop label span localSlots 0) stmts ++
      (around.depth + localSlots) :: depthIfAny localSlots (around.depth + localSlots)
  | .leave label _ =>
    match around.target? label with
    | some target => depthIfAny (around.depth - target.depth) around.depth ++ [target.depth]
    | none => []
  | .block inner => inner.depths around

end

mutual

def Block.slotUses (depth : Nat) : Block → List (Nat × Nat)
  | .mk stmts localSlots => Stmt.slotUsesAll (depth + localSlots) stmts

def Stmt.slotUsesAll (depth : Nat) : List Stmt → List (Nat × Nat)
  | [] => []
  | s :: rest => s.slotUses depth ++ Stmt.slotUsesAll depth rest

def Stmt.slotUses (depth : Nat) : Stmt → List (Nat × Nat)
  | .cond condition thenBlock none =>
    condition.variables.filterMap (·.slot.map (depth, ·)) ++ thenBlock.slotUses depth
  | .cond condition thenBlock (some elseBlock) =>
    condition.variables.filterMap (·.slot.map (depth, ·)) ++ thenBlock.slotUses depth ++
      elseBlock.slotUses depth
  | .loop _ body _ => body.slotUses depth
  | .leave .. => []
  | .call result _ args _ =>
    (result.toList ++ Expr.variablesAll args).filterMap (·.slot.map (depth, ·))
  | .block inner => inner.slotUses depth

end

def ListsFrom (depth : Nat → Nat) (start : Nat) : List Nat → Prop
  | [] => True
  | number :: rest => depth start = number ∧ ListsFrom depth (start + 1) rest

@[simp] theorem listsFrom_nil (depth : Nat → Nat) (start : Nat) : ListsFrom depth start [] := trivial

@[simp] theorem listsFrom_cons (depth : Nat → Nat) (start number : Nat) (rest : List Nat) :
    ListsFrom depth start (number :: rest) ↔
      depth start = number ∧ ListsFrom depth (start + 1) rest := Iff.rfl

@[simp] theorem listsFrom_append (depth : Nat → Nat) (start : Nat) (a b : List Nat) :
    ListsFrom depth start (a ++ b) ↔
      ListsFrom depth start a ∧ ListsFrom depth (start + a.length) b := by
  induction a generalizing start with
  | nil => simp
  | cons number rest ih => simp [ih, and_assoc, Nat.add_assoc, Nat.add_comm 1]

theorem listsFrom_getD (numbers : List Nat) :
    ListsFrom (fun pc => numbers[pc]?.getD 0) 0 numbers := by
  -- The tail of a list is looked up in the whole list, at an index that grows with each step.
  suffices general : ∀ before behind : List Nat,
      ListsFrom (fun pc => (before ++ behind)[pc]?.getD 0) before.length behind from
    general [] numbers
  intro before behind
  induction behind generalizing before with
  | nil => trivial
  | cons number rest ih => exact ⟨by simp, by simpa using ih (before ++ [number])⟩

theorem Tape.Resizes.stop_eq {tape : Tape} {instr : Instr} {count start stop : Nat} (depth : Nat)
    (resizes : tape.Resizes instr count start stop) :
    stop = start + (depthIfAny count depth).length := by
  unfold Resizes at resizes
  unfold depthIfAny
  split at resizes
  · simp [*]
  · simp [*]

/-- The surroundings that only tell how many slots are allocated where: the numbers of a tree do not
depend on where the loops around it end. -/
def Surroundings.withoutExits (around : Surroundings) : Surroundings := around.mapExits fun _ => 0

@[simp] theorem Surroundings.depth_withoutExits (around : Surroundings) :
    around.withoutExits.depth = around.depth := rfl

theorem Surroundings.withoutExits_grow (around : Surroundings) (count : Nat) :
    (around.grow count).withoutExits = around.withoutExits.grow count := rfl

theorem Surroundings.withoutExits_enterLoop (around : Surroundings) (label : Option String)
    (span : Span) (localSlots exit : Nat) :
    (around.enterLoop label span localSlots exit).withoutExits =
      around.withoutExits.enterLoop label span localSlots 0 := rfl

theorem Surroundings.target?_withoutExits {around : Surroundings} {label : Option String}
    {target : OpenLoop} (found : around.target? label = some target) :
    around.withoutExits.target? label = some { target with exit := 0 } :=
  target?_mapExits found _

mutual

/-- A tree's region has as many instructions as the tree has numbers. -/
theorem Block.stop_eq_of_occupies {tape : Tape} (block : Block) {around : Surroundings}
    {start stop : Nat} (occupies : block.Occupies tape around start stop) :
    stop = start + (block.depths around.withoutExits).length := by
  cases block with
  | mk stmts localSlots =>
    obtain ⟨first, last, grows, inner, shrinks⟩ := occupies
    have top := grows.resizes.stop_eq around.depth
    have middle := Stmt.stop_eq_of_occupyAll stmts inner
    have bottom := shrinks.resizes.stop_eq (around.depth + localSlots)
    rw [Surroundings.withoutExits_grow] at middle
    simp only [Block.depths, List.length_append, Surroundings.depth_withoutExits]
    omega

theorem Stmt.stop_eq_of_occupyAll {tape : Tape} (stmts : List Stmt) {around : Surroundings}
    {start stop : Nat} (occupy : Stmt.OccupyAll tape around start stop stmts) :
    stop = start + (Stmt.depthsAll around.withoutExits stmts).length := by
  cases stmts with
  | nil => exact occupy
  | cons s rest =>
    obtain ⟨middle, head, tail⟩ := occupy
    have first := Stmt.stop_eq_of_occupies s head
    have others := Stmt.stop_eq_of_occupyAll rest tail
    simp only [Stmt.depthsAll, List.length_append]
    omega

theorem Stmt.stop_eq_of_occupies {tape : Tape} (s : Stmt) {around : Surroundings}
    {start stop : Nat} (occupies : s.Occupies tape around start stop) :
    stop = start + (s.depths around.withoutExits).length := by
  match s with
  | .call .. =>
    obtain ⟨_, _, _, _, _, stops⟩ := occupies
    exact stops
  | .cond _ thenBlock none =>
    obtain ⟨_, _, _, _, inner⟩ := occupies
    have stops := Block.stop_eq_of_occupies thenBlock inner
    simp only [Stmt.depths, List.length_cons]
    omega
  | .cond _ thenBlock (some elseBlock) =>
    obtain ⟨_, middle, _, _, first, _, second⟩ := occupies
    have between := Block.stop_eq_of_occupies elseBlock first
    have stops := Block.stop_eq_of_occupies thenBlock second
    simp only [Stmt.depths, List.cons_append, List.length_cons, List.length_append]
    omega
  | .loop label (.mk stmts localSlots) span =>
    obtain ⟨first, last, grows, inner, _, shrinks⟩ := occupies
    have top := grows.resizes.stop_eq around.depth
    have middle := Stmt.stop_eq_of_occupyAll stmts inner
    have bottom := shrinks.resizes.stop_eq (around.depth + localSlots)
    rw [Surroundings.withoutExits_enterLoop] at middle
    simp only [Stmt.depths, List.length_append, List.length_cons, Surroundings.depth_withoutExits]
    omega
  | .leave label _ =>
    obtain ⟨target, jump, found, shrinks, _, rfl⟩ := occupies
    have freed := shrinks.resizes.stop_eq around.depth
    simp only [Stmt.depths, Surroundings.target?_withoutExits found, List.length_append,
      Surroundings.depth_withoutExits, List.length_singleton]
    omega
  | .block inner => exact Block.stop_eq_of_occupies inner occupies

end

end LoopTape
