import LoopTape.Proofs.Tape.Depth

/-! The same tree on another tape.

Where a tree stands on a tape makes no difference but to the targets of its jumps: on a tape on which it
stands further behind, so do they. The loops around the tree end there by as much later.
-/

set_option autoImplicit false

namespace LoopTape

def Instr.shift (offset : Nat) : Instr → Instr
  | .jump condition target => .jump condition (target + offset)
  | .call name inputs output => .call name inputs output
  | .grow count => .grow count
  | .shrink count => .shrink count

namespace Tape

def shift (offset : Nat) (tape : Tape) : Tape := tape.map (Instr.shift offset)

/-- The region from `start` up to `stop` stands on `other` too, `offset` instructions further behind, and
stops there at `last`. -/
structure Moved (tape other : Tape) (offset start stop last : Nat) : Prop where
  stops : last = stop + offset
  same : ∀ pc, start ≤ pc → pc < stop → other[pc + offset]? = tape[pc]?.map (Instr.shift offset)

variable {tape other : Tape} {offset start middle stop between last : Nat}

namespace Moved

theorem nil (pc : Nat) : tape.Moved other offset pc pc (pc + offset) where
  stops := rfl
  same := by
    intro index behind before
    omega

theorem append (first : tape.Moved other offset start middle between)
    (rest : tape.Moved other offset middle stop last) : tape.Moved other offset start stop last where
  stops := rest.stops
  same := by
    intro pc behind before
    by_cases inFirst : pc < middle
    · exact first.same pc behind inFirst
    · exact rest.same pc (by omega) before

theorem single {pc : Nat} {instr : Instr} (here : tape[pc]? = some instr)
    (there : other[pc + offset]? = some (instr.shift offset)) :
    tape.Moved other offset pc (pc + 1) (pc + offset + 1) where
  stops := by omega
  same := by
    intro index behind before
    obtain rfl : index = pc := by omega
    rw [here, there, Option.map_some]

theorem drop_eq (moved : tape.Moved other offset 0 tape.length last) :
    other.drop offset = tape.shift offset ++ other.drop last := by
  obtain rfl := moved.stops
  apply List.ext_getElem?
  intro pc
  rw [List.getElem?_drop, Nat.add_comm offset pc]
  by_cases inside : pc < tape.length
  · rw [moved.same pc (Nat.zero_le pc) inside, List.getElem?_append_left (by simpa [shift]), shift,
      List.getElem?_map]
  · rw [List.getElem?_append_right (by simp [shift]; omega), List.getElem?_drop, shift,
      List.length_map]
    congr 1
    omega

end Moved

theorem Resizes.moved {instr : Instr} {count : Nat} (here : tape.Resizes instr count start stop)
    (there : other.Resizes (instr.shift offset) count (start + offset) last) :
    tape.Moved other offset start stop last := by
  unfold Resizes at here there
  split at here
  · rw [if_pos ‹_›] at there
    subst here there
    exact .nil _
  · rw [if_neg ‹_›] at there
    obtain ⟨fetched, rfl⟩ := here
    obtain ⟨found, rfl⟩ := there
    exact .single fetched found

end Tape

theorem Surroundings.withoutExits_mapExits (around : Surroundings) (place : Nat → Nat) :
    (around.mapExits place).withoutExits = around.withoutExits := by
  simp [withoutExits, mapExits, Function.comp_def]

def Surroundings.shift (around : Surroundings) (offset : Nat) : Surroundings :=
  around.mapExits (· + offset)

section

variable {tape other : Tape} {offset : Nat}

mutual

theorem Block.moved_of_occupies (block : Block) {around : Surroundings} {start stop last : Nat}
    (here : block.Occupies tape around start stop)
    (there : block.Occupies other (around.shift offset) (start + offset) last) :
    tape.Moved other offset start stop last := by
  cases block with
  | mk stmts localSlots =>
    obtain ⟨first, behind, grows, inner, shrinks⟩ := here
    obtain ⟨first', behind', grows', inner', shrinks'⟩ := there
    have allocating := grows.resizes.moved grows'.resizes
    obtain rfl := allocating.stops
    have body := Stmt.moved_of_occupyAll stmts inner inner'
    obtain rfl := body.stops
    exact (allocating.append body).append (shrinks.resizes.moved shrinks'.resizes)

theorem Stmt.moved_of_occupyAll (stmts : List Stmt) {around : Surroundings} {start stop last : Nat}
    (here : Stmt.OccupyAll tape around start stop stmts)
    (there : Stmt.OccupyAll other (around.shift offset) (start + offset) last stmts) :
    tape.Moved other offset start stop last := by
  cases stmts with
  | nil =>
    obtain rfl : stop = start := here
    obtain rfl : last = stop + offset := there
    exact .nil stop
  | cons s rest =>
    obtain ⟨middle, head, tail⟩ := here
    obtain ⟨middle', head', tail'⟩ := there
    have first := Stmt.moved_of_occupies s head head'
    obtain rfl := first.stops
    exact first.append (Stmt.moved_of_occupyAll rest tail tail')

theorem Stmt.moved_of_occupies (s : Stmt) {around : Surroundings} {start stop last : Nat}
    (here : s.Occupies tape around start stop)
    (there : s.Occupies other (around.shift offset) (start + offset) last) :
    tape.Moved other offset start stop last := by
  match s with
  | .call .. =>
    obtain ⟨inputs, output, read, written, fetched, rfl⟩ := here
    obtain ⟨inputs', output', read', written', fetched', rfl⟩ := there
    cases read.symm.trans read'
    cases written.symm.trans written'
    exact .single fetched fetched'
  | .cond _ thenBlock none =>
    obtain ⟨slot, read, choice, skips, inner⟩ := here
    obtain ⟨slot', read', choice', skips', inner'⟩ := there
    cases read.symm.trans read'
    rw [Nat.add_right_comm start offset 1] at skips'
    rw [Nat.add_right_comm start offset 2] at choice' inner'
    have whenTrue := Block.moved_of_occupies thenBlock inner inner'
    obtain rfl := whenTrue.stops
    exact (Tape.Moved.single choice choice').append ((Tape.Moved.single skips skips').append whenTrue)
  | .cond _ thenBlock (some elseBlock) =>
    obtain ⟨slot, middle, read, choice, first, skips, second⟩ := here
    obtain ⟨slot', middle', read', choice', first', skips', second'⟩ := there
    cases read.symm.trans read'
    rw [Nat.add_right_comm start offset 1] at first'
    have whenFalse := Block.moved_of_occupies elseBlock first first'
    obtain rfl := whenFalse.stops
    rw [Nat.add_right_comm middle offset 1] at choice' second'
    have whenTrue := Block.moved_of_occupies thenBlock second second'
    obtain rfl := whenTrue.stops
    exact (Tape.Moved.single choice choice').append
      (whenFalse.append ((Tape.Moved.single skips skips').append whenTrue))
  | .loop label (.mk stmts localSlots) span =>
    obtain ⟨first, behind, grows, inner, back, shrinks⟩ := here
    obtain ⟨first', behind', grows', inner', back', shrinks'⟩ := there
    have allocating := grows.resizes.moved grows'.resizes
    obtain rfl := allocating.stops
    -- Breaks lead behind the loop, so where it ends must be known before its body is looked at.
    have ends : behind' = behind + offset := by
      have stops := Stmt.stop_eq_of_occupyAll stmts inner
      have stops' := Stmt.stop_eq_of_occupyAll stmts inner'
      rw [Surroundings.withoutExits_enterLoop] at stops stops'
      rw [Surroundings.shift, Surroundings.withoutExits_mapExits] at stops'
      omega
    subst ends
    rw [Nat.add_right_comm behind offset 1] at inner' shrinks'
    have body := Stmt.moved_of_occupyAll stmts inner inner'
    exact (allocating.append body).append
      ((Tape.Moved.single back back').append (shrinks.resizes.moved shrinks'.resizes))
  | .leave _ _ =>
    obtain ⟨target, jump, found, shrinks, leaving, rfl⟩ := here
    obtain ⟨target', jump', found', shrinks', leaving', rfl⟩ := there
    cases (Surroundings.target?_mapExits found _).symm.trans found'
    have freeing := shrinks.resizes.moved shrinks'.resizes
    obtain rfl := freeing.stops
    exact freeing.append (.single leaving leaving')
  | .block inner => exact Block.moved_of_occupies inner here there

end

end

/-- The tape of a root block stands on every tape on which the tree occupies a region. -/
theorem Block.moved_of_generate {root : Block} {tape other : Tape} {offset last : Nat}
    (generated : root.generate = .ok tape) (there : root.Occupies other .empty offset last) :
    tape.Moved other offset 0 tape.length last := by
  rw [← Nat.zero_add offset] at there
  exact Block.moved_of_occupies root (Block.occupies_of_generate generated) there

end LoopTape
