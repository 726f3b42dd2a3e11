import LoopTape.Proofs.Symbolic.Faults
import LoopTape.Proofs.Tape.Moved

/-! Blocks side by side.

A block that stands in a block without variables of its own gets the slots that it gets alone, since
nothing around it declares a name or takes a slot. Its code does not depend on what was lowered before it
either, but for the places on the tape. So a list of blocks can be compiled one by one.
-/

set_option autoImplicit false

namespace LoopTape

/-- Frames that give every name the same slot and take as many slots. -/
structure Frames.Alike (a b : Frames) : Prop where
  slot? : a.slot? = b.slot?
  top : a.top = b.top

theorem Frames.Alike.enter {a b : Frames} (alike : a.Alike b) (seen : List String)
    (stmts : List Stmt) : (a.enter seen stmts).Alike (b.enter seen stmts) where
  slot? := by
    funext name
    have outer := congrFun alike.slot? name
    rw [Frames.slot?, Frames.slot?] at outer
    rw [Frames.enter, Frames.enter, Frames.slot?, Frames.slot?, List.findSome?_cons,
      List.findSome?_cons, outer, alike.top]
  top := by rw [Frames.top_enter, Frames.top_enter, alike.top]

section

variable {a b : Frames}

theorem Variable.bind_alike (v : Variable) (alike : a.Alike b) : v.bind a = v.bind b := by
  rw [bind, bind, alike.slot?]

mutual

theorem Expr.bind_alike (e : Expr) (alike : a.Alike b) : e.bind a = e.bind b := by
  match e with
  | .variable v => exact congrArg _ (v.bind_alike alike)
  | .paren inner => exact congrArg _ (Expr.bind_alike inner alike)
  | .call name args span => exact congrArg (Expr.call name · span) (Expr.bindAll_alike args alike)

theorem Expr.bindAll_alike (args : List Expr) (alike : a.Alike b) :
    Expr.bindAll a args = Expr.bindAll b args := by
  cases args with
  | nil => rfl
  | cons e rest => rw [bindAll, bindAll, Expr.bind_alike e alike, Expr.bindAll_alike rest alike]

end

end

mutual

theorem Block.bind_alike (block : Block) {a b : Frames} (seen : List String) (alike : a.Alike b) :
    block.bind a seen = block.bind b seen := by
  cases block with
  | mk stmts localSlots =>
    rw [Block.bind_mk, Block.bind_mk, Stmt.bindAll_alike stmts seen (alike.enter seen stmts)]

theorem Stmt.bindAll_alike (stmts : List Stmt) {a b : Frames} (seen : List String)
    (alike : a.Alike b) : Stmt.bindAll a seen stmts = Stmt.bindAll b seen stmts := by
  cases stmts with
  | nil => rfl
  | cons s rest =>
    simp only [Stmt.bindAll]
    rw [Stmt.bind_alike s _ alike, Stmt.bindAll_alike rest _ alike]

theorem Stmt.bind_alike (s : Stmt) {a b : Frames} (seen : List String) (alike : a.Alike b) :
    s.bind a seen = s.bind b seen := by
  match s with
  | .cond condition thenBlock none =>
    simp only [Stmt.bind]
    rw [Expr.bind_alike condition alike, Block.bind_alike thenBlock seen alike]
  | .cond condition thenBlock (some elseBlock) =>
    simp only [Stmt.bind]
    rw [Expr.bind_alike condition alike, Block.bind_alike thenBlock seen alike,
      Block.bind_alike elseBlock seen alike]
  | .loop label body span =>
    simp only [Stmt.bind]
    rw [Block.bind_alike body seen alike]
  | .leave label span => rfl
  | .call result name args span =>
    simp only [Stmt.bind]
    have written : result.map (·.bind a) = result.map (·.bind b) :=
      congrArg (result.map ·) (funext fun v => v.bind_alike alike)
    rw [Expr.bindAll_alike args alike, written]
  | .block inner => exact congrArg _ (Block.bind_alike inner seen alike)

end

def Block.sideBySide (parts : List Block) (localSlots : Nat) : Block :=
  .mk (parts.map .block) localSlots

theorem ownNames_blocks (parts : List Block) : ownNames (parts.map .block) = [] := by
  induction parts with
  | nil => rfl
  | cons part rest ih => exact ih

/-- A frame without names leaves everything as it is without it. -/
theorem Frames.alike_unnamed : Frames.Alike [⟨[], 0⟩] [] where
  slot? := rfl
  top := rfl

theorem Stmt.bindAll_blocks (parts : List Block) :
    Stmt.bindAll [⟨[], 0⟩] [] (parts.map .block) = (parts.map Block.resolve).map .block := by
  induction parts with
  | nil => rfl
  | cons part rest ih =>
    have first : part.bind [⟨[], 0⟩] [] = part.resolve := part.bind_alike [] Frames.alike_unnamed
    have others : Stmt.bindAll [⟨[], 0⟩] [] (rest.map .block) = _ := ih
    exact congrArg₂ (Stmt.block · :: ·) first others

theorem Block.resolve_sideBySide (parts : List Block) (localSlots : Nat) :
    (sideBySide parts localSlots).resolve = sideBySide (parts.map Block.resolve) 0 := by
  have unnamed : declaredNames [] (parts.map .block) = [] := by
    rw [declaredNames, ownNames_blocks]
    rfl
  rw [sideBySide, resolve, bind_mk, Frames.enter, unnamed, sideBySide]
  exact congrArg (Block.mk · 0) (Stmt.bindAll_blocks parts)

/-- The tapes one behind the other, with `offset` instructions in front of the first. -/
def Tape.joinFrom (offset : Nat) : List Tape → Tape
  | [] => []
  | tape :: rest => tape.shift offset ++ joinFrom (offset + tape.length) rest

theorem Block.sites_sideBySide (parts : List Block) (localSlots : Nat) :
    (sideBySide parts localSlots).sites [] = parts.flatMap (·.sites []) := by
  induction parts with
  | nil => rfl
  | cons part rest ih => exact congrArg (part.sites [] ++ ·) ih

theorem Block.settles_mapM_compile (parts : List Block) :
    Settles (parts.flatMap (·.sites [])) (parts.mapM Block.compile) := by
  induction parts with
  | nil => exact .ok []
  | cons part rest ih =>
    rw [List.mapM_cons]
    exact part.settles_compile.bind fun _ => ih.bind_ok fun _ => rfl

/-- Behind the code of the blocks in front of them, blocks have the code that they have alone. -/
theorem Block.drop_eq_joinFrom (parts : List Block) {tape : Tape} {offset : Nat} {tapes : List Tape}
    (occupy : Stmt.OccupyAll tape .empty offset tape.length ((parts.map Block.resolve).map .block))
    (compiled : parts.mapM Block.compile = .ok tapes) :
    tape.drop offset = Tape.joinFrom offset tapes := by
  induction parts generalizing offset tapes with
  | nil =>
    cases compiled
    obtain rfl : tape.length = offset := occupy
    exact List.drop_length
  | cons part rest ih =>
    rw [List.mapM_cons] at compiled
    obtain ⟨first, alone, compiled⟩ := Except.bind_eq_ok.mp compiled
    obtain ⟨others, behind, ⟨⟩⟩ := Except.bind_eq_ok.mp compiled
    obtain ⟨middle, head, tail⟩ := occupy
    have moved := Block.moved_of_generate alone head
    have stops := moved.stops
    rw [Nat.add_comm] at stops
    subst stops
    rw [moved.drop_eq, ih tail behind, Tape.joinFrom]

/-- Blocks that stand side by side are compiled as each of them alone: the tapes come one behind the
other, with the targets of each moved by the length of those in front of it. If there is a block that has
no tape alone, the error is that of the first one. -/
theorem Block.compile_sideBySide (parts : List Block) (localSlots : Nat) :
    (sideBySide parts localSlots).compile = Tape.joinFrom 0 <$> parts.mapM Block.compile := by
  have together := (sideBySide parts localSlots).settles_compile
  have apart := Block.settles_mapM_compile parts
  rw [sites_sideBySide] at together
  cases one : parts.mapM Block.compile with
  | error e => exact together.error_iff.mpr (apart.error_iff.mp one)
  | ok tapes =>
    -- Both check the same sites, so there is a tape for the whole, and its regions tell what it is.
    obtain ⟨tape, compiled⟩ := together.exists_ok_iff.mpr (apart.exists_ok_iff.mp ⟨tapes, one⟩)
    have generated : (sideBySide (parts.map Block.resolve) 0).generate = .ok tape := by
      rw [← resolve_sideBySide parts localSlots]
      exact compiled
    obtain ⟨first, last, rfl, occupy, rfl⟩ := Block.occupies_of_generate generated
    have joined := Block.drop_eq_joinFrom parts occupy one
    rw [compiled]
    exact congrArg Except.ok joined

example (span : Span) :
    let idle := Block.unscoped [.loop none (.unscoped []) span]
    (Block.sideBySide [idle, idle] 0).compile = .ok [.jump 0 0, .jump 0 1] := rfl

end LoopTape
