import LoopTape.Proofs.Symbolic.Linked
import LoopTape.Proofs.Symbolic.Lowered

/-! The region of a tape that belongs to a tree.

A tree occupies the region from `start` up to `stop` when the instructions there are the ones its
kind asks for, with the regions of its parts between them. The surroundings are those of its
lowering, but a loop's `exit` is an index on the tape. What a tape does can then be proved along the
tree: labels and the order in which code was put together play no part any more.
-/

set_option autoImplicit false

namespace LoopTape

namespace Tape

/-- The region holds the instruction, or nothing if there are no slots to allocate or free. -/
def Resizes (tape : Tape) (instr : Instr) (count start stop : Nat) : Prop :=
  if count = 0 then stop = start else tape[start]? = some instr ∧ stop = start + 1

def Grows (tape : Tape) (count start stop : Nat) : Prop :=
  tape.Resizes (.grow count) count start stop

def Shrinks (tape : Tape) (count start stop : Nat) : Prop :=
  tape.Resizes (.shrink count) count start stop

theorem Grows.resizes {tape : Tape} {count start stop : Nat} (grows : tape.Grows count start stop) :
    tape.Resizes (.grow count) count start stop := grows

theorem Shrinks.resizes {tape : Tape} {count start stop : Nat}
    (shrinks : tape.Shrinks count start stop) : tape.Resizes (.shrink count) count start stop :=
  shrinks

end Tape

mutual

def Block.Occupies (tape : Tape) (around : Surroundings) (start stop : Nat) : Block → Prop
  | .mk stmts localSlots =>
    ∃ first last, tape.Grows localSlots start first ∧
      Stmt.OccupyAll tape (around.grow localSlots) first last stmts ∧
      tape.Shrinks localSlots last stop

def Stmt.OccupyAll (tape : Tape) (around : Surroundings) (start stop : Nat) : List Stmt → Prop
  | [] => stop = start
  | s :: rest =>
    ∃ middle, s.Occupies tape around start middle ∧ Stmt.OccupyAll tape around middle stop rest

def Stmt.Occupies (tape : Tape) (around : Surroundings) (start stop : Nat) : Stmt → Prop
  | .call result name args span =>
    ∃ inputs output, Expr.slots span args = .ok inputs ∧ resultSlot result = .ok output ∧
      tape[start]? = some (.call name inputs output) ∧ stop = start + 1
  | .cond condition thenBlock none =>
    ∃ slot, condition.slot .unknown = .ok slot ∧ tape[start]? = some (.jump slot (start + 2)) ∧
      tape[start + 1]? = some (.jump 0 stop) ∧ thenBlock.Occupies tape around (start + 2) stop
  | .cond condition thenBlock (some elseBlock) =>
    ∃ slot middle, condition.slot .unknown = .ok slot ∧
      tape[start]? = some (.jump slot (middle + 1)) ∧
      elseBlock.Occupies tape around (start + 1) middle ∧
      tape[middle]? = some (.jump 0 stop) ∧ thenBlock.Occupies tape around (middle + 1) stop
  | .loop label (.mk stmts localSlots) span =>
    ∃ first last, tape.Grows localSlots start first ∧
      Stmt.OccupyAll tape (around.enterLoop label span localSlots (last + 1)) first last stmts ∧
      tape[last]? = some (.jump 0 first) ∧ tape.Shrinks localSlots (last + 1) stop
  | .leave label _ =>
    ∃ target jump, around.target? label = some target ∧
      tape.Shrinks (around.depth - target.depth) start jump ∧
      tape[jump]? = some (.jump 0 target.exit) ∧ stop = jump + 1
  | .block inner => inner.Occupies tape around start stop

end

def Surroundings.mapExits (around : Surroundings) (place : Nat → Nat) : Surroundings :=
  { around with loops := around.loops.map fun opened => { opened with exit := place opened.exit } }

theorem Surroundings.mapExits_enterLoop (around : Surroundings) (place : Nat → Nat)
    (label : Option String) (span : Span) (localSlots exit : Nat) :
    (around.enterLoop label span localSlots exit).mapExits place =
      (around.mapExits place).enterLoop label span localSlots (place exit) := rfl

theorem Surroundings.target?_mapExits {around : Surroundings} {label : Option String}
    {target : OpenLoop} (found : around.target? label = some target) (place : Nat → Nat) :
    (around.mapExits place).target? label =
      some { target with exit := place target.exit } := by
  cases label with
  | none =>
    simp only [target?] at found
    simp [target?, mapExits, found]
  | some name =>
    -- The label that a loop is looked up by is not changed.
    have renamed : (around.mapExits place).target? (some name) =
        (around.target? (some name)).map fun opened => { opened with exit := place opened.exit } :=
      List.find?_map ..
    rw [renamed, found, Option.map_some]

def labelPlace (code : List Symbolic) (id : Nat) : Nat := (labelIndex? id code).getD 0

theorem Stands.labelPlace_eq {code rest : List Symbolic} {id index : Nat}
    (stands : Stands code index (.label id :: rest)) (distinct : (setLabels code).Nodup) :
    labelPlace code id = index := by
  rw [labelPlace, stands.labelIndex?_eq distinct, Option.getD_some]

section

variable {code : List Symbolic} {tape : Tape} (linked : link code = .ok tape)

include linked

theorem Stands.getElem? {entry : Symbolic} {rest : List Symbolic} {index : Nat}
    (stands : Stands code index (entry :: rest)) (instruction : entry.isLabel = false) :
    ∃ instr, entry.instr? code = some instr ∧ tape[index]? = some instr := by
  obtain ⟨before, behind, split, rfl⟩ := stands
  have linked : linkPart code (before ++ entry :: (rest ++ behind)) = .ok tape := split ▸ linked
  exact linkPart_getElem? linked instruction

theorem Stands.getElem?_jump {condition id index : Nat} {rest : List Symbolic}
    (stands : Stands code index (.jump condition id :: rest)) :
    tape[index]? = some (.jump condition (labelPlace code id)) := by
  obtain ⟨instr, linkedTo, holds⟩ := stands.getElem? linked rfl
  simp only [Symbolic.instr?, Option.map_eq_some_iff] at linkedTo
  obtain ⟨goal, found, rfl⟩ := linkedTo
  rw [holds, labelPlace, found, Option.getD_some]

theorem Stands.resizes {entry : Symbolic} {instr : Instr} {count start : Nat}
    (instruction : entry.isLabel = false) (becomes : entry.instr? code = some instr)
    (stands : Stands code start (if count = 0 then [] else [entry])) :
    tape.Resizes instr count start (start + instrCount (if count = 0 then [] else [entry])) := by
  unfold Tape.Resizes
  split
  · rfl
  · next some =>
    rw [if_neg some] at stands
    obtain ⟨own, linkedTo, place⟩ := stands.getElem? linked instruction
    cases becomes.symm.trans linkedTo
    exact ⟨place, by rw [instrCount_cons instruction, instrCount_nil]⟩

theorem Stands.grows {count start : Nat} (stands : Stands code start (Symbolic.growBy count)) :
    tape.Grows count start (start + instrCount (Symbolic.growBy count)) :=
  Stands.resizes linked rfl rfl stands

theorem Stands.shrinks {count start : Nat} (stands : Stands code start (Symbolic.shrinkBy count)) :
    tape.Shrinks count start (start + instrCount (Symbolic.shrinkBy count)) :=
  Stands.resizes linked rfl rfl stands

omit linked

/-! The code of a part stands somewhere in the linked code, in which no label is set twice: that is
all the induction needs to know about what surrounds the part. -/

mutual

theorem Block.occupies_of_lower (linked : link code = .ok tape) (distinct : (setLabels code).Nodup)
    (block : Block) {around : Surroundings} {used after start : Nat} {part : List Symbolic}
    (lowered : block.lower around used = .ok (part, after)) (stands : Stands code start part) :
    block.Occupies tape (around.mapExits (labelPlace code)) start (start + instrCount part) := by
  cases block with
  | mk stmts localSlots =>
    obtain ⟨body, inner, rfl⟩ := Block.lower_eq_ok lowered
    have allocated := stands.left.left.grows linked
    have occupied := Stmt.occupyAll_of_lowerAll linked distinct stmts inner stands.left.right
    have freed := stands.right.shrinks linked
    simp only [instrCount_append, ← Nat.add_assoc] at freed ⊢
    exact ⟨_, _, allocated, occupied, freed⟩

theorem Stmt.occupyAll_of_lowerAll (linked : link code = .ok tape)
    (distinct : (setLabels code).Nodup) (stmts : List Stmt) {around : Surroundings}
    {used after start : Nat} {part : List Symbolic}
    (lowered : Stmt.lowerAll around used stmts = .ok (part, after))
    (stands : Stands code start part) :
    Stmt.OccupyAll tape (around.mapExits (labelPlace code)) start (start + instrCount part)
      stmts := by
  cases stmts with
  | nil =>
    obtain ⟨rfl, rfl⟩ := Stmt.lowerAll_nil_eq_ok lowered
    rfl
  | cons s rest =>
    obtain ⟨first, between, others, head, tail, rfl⟩ := Stmt.lowerAll_cons_eq_ok lowered
    rw [instrCount_append, ← Nat.add_assoc]
    exact ⟨start + instrCount first, Stmt.occupies_of_lower linked distinct s head stands.left,
      Stmt.occupyAll_of_lowerAll linked distinct rest tail stands.right⟩

theorem Stmt.occupies_of_lower (linked : link code = .ok tape) (distinct : (setLabels code).Nodup)
    (s : Stmt) {around : Surroundings} {used after start : Nat} {part : List Symbolic}
    (lowered : s.lower around used = .ok (part, after)) (stands : Stands code start part) :
    s.Occupies tape (around.mapExits (labelPlace code)) start (start + instrCount part) := by
  match s with
  | .call result name args span =>
    obtain ⟨inputs, output, read, written, rfl, rfl⟩ := Stmt.lower_call_eq_ok lowered
    obtain ⟨instr, ⟨⟩, place⟩ := stands.getElem? linked rfl
    exact ⟨inputs, output, read, written, place, rfl⟩
  | .cond condition thenBlock none =>
    obtain ⟨slot, whenTrue, read, inner, rfl⟩ := Stmt.lower_cond_eq_ok lowered
    -- The code is walked from its front, one entry or part at a time.
    have skip := stands.afterJump
    have target := skip.afterJump
    have branch := target.afterLabel
    have chosen := stands.getElem?_jump linked
    have skipped := skip.getElem?_jump linked
    have occupied := Block.occupies_of_lower linked distinct thenBlock inner branch.left
    rw [target.labelPlace_eq distinct] at chosen
    rw [branch.right.labelPlace_eq distinct] at skipped
    have stop : start + instrCount (.jump slot (used + 1) :: .jump 0 (used + 2) ::
        .label (used + 1) :: whenTrue ++ [.label (used + 2)]) =
          start + 1 + 1 + instrCount whenTrue := by
      simp
      omega
    rw [stop]
    exact ⟨slot, read, chosen, skipped, occupied⟩
  | .cond condition thenBlock (some elseBlock) =>
    obtain ⟨slot, whenFalse, between, whenTrue, read, first, second, rfl⟩ :=
      Stmt.lower_condElse_eq_ok lowered
    simp only [List.append_assoc, List.cons_append] at stands ⊢
    have otherwise := stands.afterJump
    have skip := otherwise.right
    have target := skip.afterJump
    have branch := target.afterLabel
    have chosen := stands.getElem?_jump linked
    have skipped := skip.getElem?_jump linked
    have occupiedElse := Block.occupies_of_lower linked distinct elseBlock first otherwise.left
    have occupied := Block.occupies_of_lower linked distinct thenBlock second branch.left
    rw [target.labelPlace_eq distinct] at chosen
    rw [branch.right.labelPlace_eq distinct] at skipped
    have stop : start + instrCount (.jump slot (used + 1) :: (whenFalse ++ .jump 0 (used + 2) ::
        .label (used + 1) :: (whenTrue ++ [.label (used + 2)]))) =
          start + 1 + instrCount whenFalse + 1 + instrCount whenTrue := by
      simp
      omega
    rw [stop]
    exact ⟨slot, _, read, chosen, occupiedElse, skipped, occupied⟩
  | .loop label (.mk stmts localSlots) span =>
    obtain ⟨body, inner, rfl⟩ := Stmt.lower_loop_eq_ok lowered
    simp only [List.append_assoc, List.cons_append] at stands ⊢
    -- A label takes no place, so `top` and `inside` stand at one index, as do `exit` and what is
    -- behind it.
    have top := stands.right
    have inside := top.afterLabel
    have back := inside.right
    have exit := back.afterJump
    have allocated := stands.left.grows linked
    have occupied := Stmt.occupyAll_of_lowerAll linked distinct stmts inner inside.left
    have repeated := back.getElem?_jump linked
    have freed := exit.afterLabel.shrinks linked
    rw [Surroundings.mapExits_enterLoop, exit.labelPlace_eq distinct] at occupied
    rw [top.labelPlace_eq distinct] at repeated
    have stop : start + instrCount (Symbolic.growBy localSlots ++ .label (used + 1) ::
        (body ++ .jump 0 (used + 1) :: .label (used + 2) :: Symbolic.shrinkBy localSlots)) =
          start + instrCount (Symbolic.growBy localSlots) + instrCount body + 1 +
            instrCount (Symbolic.shrinkBy localSlots) := by
      simp
      omega
    rw [stop]
    exact ⟨_, _, allocated, occupied, repeated, freed⟩
  | .leave label span =>
    obtain ⟨target, found, rfl, rfl⟩ := Stmt.lower_leave_eq_ok lowered
    have freed := stands.left.shrinks linked
    have left := stands.right.getElem?_jump linked
    rw [instrCount_append, ← Nat.add_assoc]
    exact ⟨_, _, Surroundings.target?_mapExits found _, freed, left, rfl⟩
  | .block inner =>
    rw [Stmt.lower] at lowered
    exact Block.occupies_of_lower linked distinct inner lowered stands

end

end

theorem Block.occupies_of_generate {root : Block} {tape : Tape}
    (generated : root.generate = .ok tape) : root.Occupies tape .empty 0 tape.length := by
  obtain ⟨code, symbolic, linked⟩ := Except.bind_eq_ok.mp generated
  obtain ⟨⟨part, after⟩, lowered, rfl⟩ := Except.map_eq_ok.mp symbolic
  have distinct := (Block.numbered_of_lower root lowered).distinct
  have occupied := Block.occupies_of_lower linked distinct root lowered (Stands.whole part)
  rw [length_linkPart linked, ← Nat.zero_add (instrCount part)]
  exact occupied

end LoopTape
