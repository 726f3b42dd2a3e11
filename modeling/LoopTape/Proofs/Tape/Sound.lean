import LoopTape.Proofs.Tape.Depth

/-! Generated tapes are balanced.

On the region of a tree every instruction respects the numbers of slots that the tree gives to the
indices. A break is the one place where slots are freed that the statements after it still count: it
goes to the end of a loop, which is reached with fewer slots, and to nowhere else.
-/

set_option autoImplicit false

namespace LoopTape

/-- What holds of each instruction of a generated tape: it respects the numbers of slots, jumps stay
on the tape, and `fits` relates the number of slots to each slot that is used. -/
structure Instr.SoundAt (length : Nat) (depth : Nat → Nat) (fits : Nat → Nat → Prop) (pc : Nat)
    (instr : Instr) : Prop where
  respects : instr.Respects depth pc
  inside : ∀ target, instr.target? = some target → target ≤ length
  uses : ∀ slot ∈ instr.slots, fits (depth pc) slot

def Tape.SoundIn (tape : Tape) (depth : Nat → Nat) (fits : Nat → Nat → Prop)
    (start stop : Nat) : Prop :=
  ∀ pc (instr : Instr), start ≤ pc → pc < stop → tape[pc]? = some instr →
    instr.SoundAt tape.length depth fits pc

theorem Expr.slot_mem {context : Span} {e : Expr} {slot : Nat} (read : e.slot context = .ok slot) :
    ∃ v ∈ e.variables, v.slot = some slot := by
  match e with
  | .variable v =>
    refine ⟨v, by simp [Expr.variables], ?_⟩
    cases bound : v.slot <;> simp_all [Expr.slot, Variable.boundSlot]
  | .paren inner => exact Expr.slot_mem (e := inner) read
  | .call .. => simp [Expr.slot] at read

theorem Expr.slots_mem {context : Span} {args : List Expr} {slots : List Nat}
    (read : Expr.slots context args = .ok slots) :
    ∀ slot ∈ slots, ∃ v ∈ Expr.variablesAll args, v.slot = some slot := by
  induction args generalizing slots with
  | nil =>
    cases read
    simp
  | cons e rest ih =>
    obtain ⟨first, head, read⟩ := Except.bind_eq_ok.mp read
    obtain ⟨others, tail, same⟩ := Except.bind_eq_ok.mp read
    cases same
    intro slot member
    simp only [Expr.variablesAll, List.mem_append]
    rcases List.mem_cons.mp member with rfl | later
    · obtain ⟨v, inside, bound⟩ := Expr.slot_mem head
      exact ⟨v, .inl inside, bound⟩
    · obtain ⟨v, inside, bound⟩ := ih tail slot later
      exact ⟨v, .inr inside, bound⟩

theorem resultSlot_mem {result : Option Variable} {output : Option Nat}
    (written : resultSlot result = .ok output) :
    ∀ slot ∈ output.toList, ∃ v ∈ result.toList, v.slot = some slot := by
  intro slot member
  cases result with
  | none =>
    cases written
    simp at member
  | some v =>
    obtain ⟨own, bound, rfl⟩ := Except.map_eq_ok.mp written
    simp only [Option.toList_some, List.mem_singleton] at member ⊢
    refine ⟨v, rfl, ?_⟩
    cases taken : v.slot <;> simp_all [Variable.boundSlot]

/-- What holds of all uses of some variables holds of the slot of each. -/
theorem fits_of_use {fits : Nat → Nat → Prop} {vars : List Variable} {depth slot : Nat}
    (uses : ∀ use ∈ vars.filterMap (·.slot.map (depth, ·)), fits use.1 use.2)
    (occurs : ∃ v ∈ vars, v.slot = some slot) : fits depth slot := by
  obtain ⟨v, member, bound⟩ := occurs
  exact uses (depth, slot) (List.mem_filterMap.mpr ⟨v, member, by simp [bound]⟩)

section

variable {tape : Tape} {depth : Nat → Nat} {fits : Nat → Nat → Prop}

theorem Tape.SoundIn.append {start middle stop : Nat}
    (first : tape.SoundIn depth fits start middle) (rest : tape.SoundIn depth fits middle stop) :
    tape.SoundIn depth fits start stop := by
  intro pc instr above below fetched
  by_cases early : pc < middle
  · exact first pc instr above early fetched
  · exact rest pc instr (Nat.le_of_not_lt early) below fetched

theorem Tape.SoundIn.nil (start : Nat) : tape.SoundIn depth fits start start :=
  fun _ _ above below => absurd below (Nat.not_lt.mpr above)

theorem Tape.SoundIn.single {pc : Nat} {instr : Instr} (fetched : tape[pc]? = some instr)
    (sound : instr.SoundAt tape.length depth fits pc) : tape.SoundIn depth fits pc (pc + 1) := by
  intro other found above below fetchedToo
  obtain rfl : other = pc := by omega
  rw [fetched] at fetchedToo
  exact Option.some.inj fetchedToo ▸ sound

/-- A region that allocates or frees slots, or has none to allocate or free. -/
theorem Tape.Resizes.sound {instr : Instr} {count start stop before : Nat}
    (resizes : tape.Resizes instr count start stop)
    (lists : ListsFrom depth start (depthIfAny count before)) (none : count = 0 → depth stop = before)
    (some : depth start = before → stop = start + 1 → instr.SoundAt tape.length depth fits start) :
    depth start = before ∧ tape.SoundIn depth fits start stop := by
  unfold Resizes at resizes
  unfold depthIfAny at lists
  split at resizes
  · next empty =>
    subst resizes
    exact ⟨none empty, .nil stop⟩
  · next any =>
    obtain ⟨fetched, rfl⟩ := resizes
    simp only [any, if_false, listsFrom_cons, listsFrom_nil, and_true] at lists
    exact ⟨lists, .single fetched (some lists rfl)⟩

theorem Tape.Grows.sound {count start stop before : Nat} (grows : tape.Grows count start stop)
    (lists : ListsFrom depth start (depthIfAny count before)) (after : depth stop = before + count) :
    depth start = before ∧ tape.SoundIn depth fits start stop := by
  refine grows.resizes.sound lists (by omega) fun here next => ⟨?_, nofun, nofun⟩
  rw [next] at after
  simp only [Instr.Respects]
  omega

theorem Tape.Shrinks.sound {count start stop before : Nat} (shrinks : tape.Shrinks count start stop)
    (lists : ListsFrom depth start (depthIfAny count before)) (after : depth stop + count = before) :
    depth start = before ∧ tape.SoundIn depth fits start stop := by
  refine shrinks.resizes.sound lists (by omega) fun here next => ⟨?_, nofun, nofun⟩
  rw [next] at after
  simp only [Instr.Respects]
  omega

theorem Tape.SoundIn.jump {pc condition target : Nat}
    (fetched : tape[pc]? = some (.jump condition target)) (inside : target ≤ tape.length)
    (goal : depth target = depth pc) (next : condition ≠ 0 → depth (pc + 1) = depth pc)
    (uses : condition ≠ 0 → fits (depth pc) condition) : tape.SoundIn depth fits pc (pc + 1) := by
  refine .single fetched ⟨⟨goal, next⟩, by simpa [Instr.target?] using inside, ?_⟩
  intro slot member
  by_cases always : condition = 0
  · simp [Instr.slots, always] at member
  · simp only [Instr.slots, always, if_false, List.mem_singleton] at member
    exact member ▸ uses always

/-- The loops around a point end on the tape, where as many slots are allocated as in their bodies
themselves, and no more are in those than at the point. -/
def Surroundings.ExitsSound (around : Surroundings) (length : Nat) (depth : Nat → Nat) : Prop :=
  ∀ opened ∈ around.loops,
    depth opened.exit = opened.depth ∧ opened.exit ≤ length ∧ opened.depth ≤ around.depth

theorem Surroundings.ExitsSound.grow {around : Surroundings} {length : Nat} {depth : Nat → Nat}
    (exits : around.ExitsSound length depth) (count : Nat) :
    (around.grow count).ExitsSound length depth := by
  intro opened member
  obtain ⟨goal, inside, below⟩ := exits opened member
  exact ⟨goal, inside, Nat.le_add_right_of_le below⟩

theorem Surroundings.ExitsSound.enterLoop {around : Surroundings} {length : Nat}
    {depth : Nat → Nat} (exits : around.ExitsSound length depth) {label : Option String}
    {span : Span} {localSlots exit : Nat} (goal : depth exit = around.depth + localSlots)
    (inside : exit ≤ length) :
    (around.enterLoop label span localSlots exit).ExitsSound length depth := by
  intro opened member
  rcases List.mem_cons.mp member with rfl | outer
  · exact ⟨goal, inside, Nat.le_refl _⟩
  · obtain ⟨goal, inside, below⟩ := exits opened outer
    exact ⟨goal, inside, Nat.le_add_right_of_le below⟩

mutual

theorem Block.sound_of_occupies (block : Block) {around : Surroundings} {start stop : Nat}
    (occupies : block.Occupies tape around start stop)
    (lists : ListsFrom depth start (block.depths around.withoutExits))
    (after : depth stop = around.depth) (exits : around.ExitsSound tape.length depth)
    (inside : stop ≤ tape.length) (uses : ∀ use ∈ block.slotUses around.depth, fits use.1 use.2) :
    depth start = around.depth ∧ tape.SoundIn depth fits start stop := by
  cases block with
  | mk stmts localSlots =>
    obtain ⟨first, last, grows, inner, shrinks⟩ := occupies
    have top := grows.resizes.stop_eq around.depth
    have middle := Stmt.stop_eq_of_occupyAll stmts inner
    have bottom := shrinks.resizes.stop_eq (around.depth + localSlots)
    rw [Surroundings.withoutExits_grow] at middle
    simp only [Block.depths, List.append_assoc, listsFrom_append,
      Surroundings.depth_withoutExits] at lists
    rw [← top, ← middle] at lists
    -- From the end back to the start: what is freed at the end says what is allocated before it.
    obtain ⟨listsTop, listsBody, listsBottom⟩ := lists
    obtain ⟨atLast, freeing⟩ := shrinks.sound listsBottom (by omega)
    obtain ⟨atFirst, body⟩ := Stmt.sound_of_occupyAll stmts inner listsBody atLast
      (exits.grow localSlots) (by omega) uses
    obtain ⟨atStart, allocating⟩ := grows.sound listsTop atFirst
    exact ⟨atStart, (allocating.append body).append freeing⟩

theorem Stmt.sound_of_occupyAll (stmts : List Stmt) {around : Surroundings} {start stop : Nat}
    (occupy : Stmt.OccupyAll tape around start stop stmts)
    (lists : ListsFrom depth start (Stmt.depthsAll around.withoutExits stmts))
    (after : depth stop = around.depth) (exits : around.ExitsSound tape.length depth)
    (inside : stop ≤ tape.length)
    (uses : ∀ use ∈ Stmt.slotUsesAll around.depth stmts, fits use.1 use.2) :
    depth start = around.depth ∧ tape.SoundIn depth fits start stop := by
  cases stmts with
  | nil =>
    obtain rfl : stop = start := occupy
    exact ⟨after, .nil stop⟩
  | cons s rest =>
    obtain ⟨middle, head, tail⟩ := occupy
    have between := Stmt.stop_eq_of_occupies s head
    have stops := Stmt.stop_eq_of_occupyAll rest tail
    simp only [Stmt.depthsAll, listsFrom_append] at lists
    rw [← between] at lists
    simp only [Stmt.slotUsesAll, List.mem_append] at uses
    obtain ⟨atMiddle, others⟩ := Stmt.sound_of_occupyAll rest tail lists.2 after exits inside
      fun use member => uses use (.inr member)
    obtain ⟨atStart, first⟩ := Stmt.sound_of_occupies s head lists.1 atMiddle exits (by omega)
      fun use member => uses use (.inl member)
    exact ⟨atStart, first.append others⟩

theorem Stmt.sound_of_occupies (s : Stmt) {around : Surroundings} {start stop : Nat}
    (occupies : s.Occupies tape around start stop)
    (lists : ListsFrom depth start (s.depths around.withoutExits))
    (after : depth stop = around.depth) (exits : around.ExitsSound tape.length depth)
    (inside : stop ≤ tape.length) (uses : ∀ use ∈ s.slotUses around.depth, fits use.1 use.2) :
    depth start = around.depth ∧ tape.SoundIn depth fits start stop := by
  match s with
  | .call result name args span =>
    obtain ⟨inputs, output, read, written, fetched, rfl⟩ := occupies
    have atStart : depth start = around.depth := by simpa [Stmt.depths] using lists
    refine ⟨atStart, .single fetched ⟨after.trans atStart.symm, by simp [Instr.target?], ?_⟩⟩
    intro slot member
    rw [atStart]
    apply fits_of_use uses
    rcases List.mem_append.mp member with input | stored
    · obtain ⟨v, occurs, bound⟩ := Expr.slots_mem read slot input
      exact ⟨v, List.mem_append_right _ occurs, bound⟩
    · obtain ⟨v, occurs, bound⟩ := resultSlot_mem written slot stored
      exact ⟨v, List.mem_append_left _ occurs, bound⟩
  | .cond condition thenBlock none =>
    obtain ⟨slot, read, choice, skips, inner⟩ := occupies
    have stops := Block.stop_eq_of_occupies thenBlock inner
    simp only [Stmt.depths, listsFrom_cons, Surroundings.depth_withoutExits] at lists
    obtain ⟨atStart, atSkip, listsThen⟩ := lists
    simp only [Stmt.slotUses, List.mem_append] at uses
    obtain ⟨atThen, whenTrue⟩ := Block.sound_of_occupies thenBlock inner listsThen after exits inside
      fun use member => uses use (.inr member)
    have fitting : fits around.depth slot :=
      fits_of_use (fun use member => uses use (.inl member)) (Expr.slot_mem read)
    have choosing : tape.SoundIn depth fits start (start + 1) :=
      .jump choice (by omega) (by omega) (by omega) (fun _ => atStart.symm ▸ fitting)
    -- A jump that is always taken reads no slot, and nothing follows it.
    have skipping : tape.SoundIn depth fits (start + 1) (start + 2) :=
      .jump skips inside (by omega) (absurd rfl) (absurd rfl)
    exact ⟨atStart, (choosing.append skipping).append whenTrue⟩
  | .cond condition thenBlock (some elseBlock) =>
    obtain ⟨slot, middle, read, choice, first, skips, second⟩ := occupies
    have between := Block.stop_eq_of_occupies elseBlock first
    have stops := Block.stop_eq_of_occupies thenBlock second
    simp only [Stmt.depths, List.cons_append, listsFrom_cons, listsFrom_append,
      Surroundings.depth_withoutExits] at lists
    rw [← between] at lists
    obtain ⟨atStart, listsElse, atSkip, listsThen⟩ := lists
    simp only [Stmt.slotUses, List.mem_append] at uses
    obtain ⟨atThen, whenTrue⟩ := Block.sound_of_occupies thenBlock second listsThen after exits
      inside fun use member => uses use (.inl (.inr member))
    obtain ⟨atElse, whenFalse⟩ := Block.sound_of_occupies elseBlock first listsElse atSkip exits
      (by omega) fun use member => uses use (.inr member)
    have fitting : fits around.depth slot :=
      fits_of_use (fun use member => uses use (.inl (.inl member))) (Expr.slot_mem read)
    have choosing : tape.SoundIn depth fits start (start + 1) :=
      .jump choice (by omega) (by omega) (by omega) (fun _ => atStart.symm ▸ fitting)
    have skipping : tape.SoundIn depth fits middle (middle + 1) :=
      .jump skips inside (by omega) (absurd rfl) (absurd rfl)
    exact ⟨atStart, ((choosing.append whenFalse).append skipping).append whenTrue⟩
  | .loop label (.mk stmts localSlots) span =>
    obtain ⟨first, last, grows, inner, back, shrinks⟩ := occupies
    have top := grows.resizes.stop_eq around.depth
    have middle := Stmt.stop_eq_of_occupyAll stmts inner
    have bottom := shrinks.resizes.stop_eq (around.depth + localSlots)
    rw [Surroundings.withoutExits_enterLoop] at middle
    simp only [Stmt.depths, List.append_assoc, listsFrom_append, listsFrom_cons,
      Surroundings.depth_withoutExits] at lists
    rw [← top, ← middle] at lists
    obtain ⟨listsTop, listsBody, atLast, listsBottom⟩ := lists
    -- Breaks out of the body go to where its slots are freed, so that place comes first.
    obtain ⟨atExit, freeing⟩ := shrinks.sound listsBottom (by omega)
    obtain ⟨atFirst, body⟩ := Stmt.sound_of_occupyAll stmts inner listsBody atLast
      (exits.enterLoop atExit (by omega)) (by omega) uses
    obtain ⟨atStart, allocating⟩ := grows.sound listsTop atFirst
    have repeating : tape.SoundIn depth fits last (last + 1) :=
      .jump back (by omega) (atFirst.trans atLast.symm) (absurd rfl) (absurd rfl)
    exact ⟨atStart, ((allocating.append body).append repeating).append freeing⟩
  | .leave label _ =>
    obtain ⟨target, jump, found, shrinks, leaving, rfl⟩ := occupies
    have freed := shrinks.resizes.stop_eq around.depth
    -- The break itself frees the slots of the blocks it leaves, but not those of the loop.
    obtain ⟨goal, onTape, below⟩ := exits target (Surroundings.mem_of_target? found)
    simp only [Stmt.depths, Surroundings.target?_withoutExits found, listsFrom_append,
      Surroundings.depth_withoutExits, listsFrom_cons] at lists
    rw [← freed] at lists
    obtain ⟨listsTop, atJump, _⟩ := lists
    obtain ⟨atStart, freeing⟩ := shrinks.sound listsTop (by omega)
    have going : tape.SoundIn depth fits jump (jump + 1) :=
      .jump leaving onTape (goal.trans atJump.symm) (absurd rfl) (absurd rfl)
    exact ⟨atStart, freeing.append going⟩
  | .block inner => exact Block.sound_of_occupies inner occupies lists after exits inside uses

end

end

def Block.depthAt (root : Block) (pc : Nat) : Nat := (root.depths .empty)[pc]?.getD 0

theorem Block.length_of_generate {root : Block} {tape : Tape} (generated : root.generate = .ok tape) :
    tape.length = (root.depths .empty).length := by
  have stops := Block.stop_eq_of_occupies root (Block.occupies_of_generate generated)
  exact stops.trans (Nat.zero_add _)

/-- All of a generated tape is sound, if all uses of slots in its tree fit. -/
theorem Block.sound_of_generate {root : Block} {tape : Tape} (generated : root.generate = .ok tape)
    (fits : Nat → Nat → Prop) (uses : ∀ use ∈ root.slotUses 0, fits use.1 use.2) :
    root.depthAt 0 = 0 ∧ tape.SoundIn root.depthAt fits 0 tape.length := by
  have length := Block.length_of_generate generated
  refine Block.sound_of_occupies root (Block.occupies_of_generate generated)
    (listsFrom_getD (root.depths .empty)) ?_ (by simp [Surroundings.ExitsSound, Surroundings.empty])
    (Nat.le_refl _) uses
  simp [depthAt, length, Surroundings.empty]

theorem Block.balanced_of_generate {root : Block} {tape : Tape}
    (generated : root.generate = .ok tape) : tape.Balanced root.depthAt := by
  obtain ⟨start, sound⟩ := Block.sound_of_generate generated (fun _ _ => True) (by simp)
  have length := Block.length_of_generate generated
  refine ⟨start, by simp [depthAt, length], ?_⟩
  intro pc instr fetched
  have onTape := (List.getElem?_eq_some_iff.mp fetched).1
  exact (sound pc instr (Nat.zero_le pc) onTape fetched).respects

theorem Block.targetsValid_of_generate {root : Block} {tape : Tape}
    (generated : root.generate = .ok tape) : tape.targetsValid = true := by
  obtain ⟨_, sound⟩ := Block.sound_of_generate generated (fun _ _ => True) (by simp)
  simp only [Tape.targetsValid, List.all_eq_true, Option.all_eq_true, decide_eq_true_eq]
  intro instr member target jumps
  obtain ⟨pc, onTape, rfl⟩ := List.getElem_of_mem member
  exact (sound pc tape[pc] (Nat.zero_le pc) onTape (by simp)).inside target jumps

end LoopTape
