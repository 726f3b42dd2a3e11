import LoopTape.Proofs.Json.Lossless
import LoopTape.Proofs.Scope.Slots
import LoopTape.Proofs.Tape.Sound
import LoopTape.Proofs.Token.Tiling
import LoopTape.Proofs.Tree.Acceptance

/-! The numbers of a compiled tape are in the range that records have for them.

A slot is no higher than the highest one a variable has. An index is no higher than the length of the
tape, and the tape is no longer than the text: each instruction is paid for by a token of the tree it
comes from, and each token by a byte.
-/

set_option autoImplicit false

namespace LoopTape

theorem length_depthIfAny_le (count depth : Nat) : (depthIfAny count depth).length ≤ 1 := by
  unfold depthIfAny
  split <;> simp

theorem Expr.length_yield_pos (e : Expr) : 0 < e.yield.length := by
  cases e <;> simp [Expr.yield]

mutual

/-- Braces pay for the slots that a block allocates and frees. -/
theorem Block.length_depths_bind_le (block : Block) (frames : Frames) (seen : List String)
    (around : Surroundings) :
    ((block.bind frames seen).depths around).length ≤ block.yield.length := by
  cases block with
  | mk stmts localSlots =>
    have body := Stmt.length_depths_bindAll_le stmts (frames.enter seen stmts) seen
      (around.grow (declaredNames seen stmts).length)
    have allocating := length_depthIfAny_le (declaredNames seen stmts).length around.depth
    have freeing := length_depthIfAny_le (declaredNames seen stmts).length
      (around.depth + (declaredNames seen stmts).length)
    simp only [Block.bind_mk, Block.depths, Block.yield, List.length_append, List.length_cons,
      List.length_nil]
    omega

theorem Stmt.length_depths_bindAll_le (stmts : List Stmt) (frames : Frames) (seen : List String)
    (around : Surroundings) :
    (Stmt.depthsAll around (Stmt.bindAll frames seen stmts)).length ≤
      (Stmt.yieldAll stmts).length := by
  cases stmts with
  | nil => exact Nat.zero_le _
  | cons s rest =>
    have first := Stmt.length_depths_bind_le s frames (seen ++ ownNames [s]) around
    have others := Stmt.length_depths_bindAll_le rest frames (seen ++ ownNames [s]) around
    simp only [Stmt.bindAll, Stmt.depthsAll, Stmt.yieldAll, List.length_append]
    omega

/-- The words that begin statements, and their marks, pay for the jumps. -/
theorem Stmt.length_depths_bind_le (s : Stmt) (frames : Frames) (seen : List String)
    (around : Surroundings) :
    ((s.bind frames seen).depths around).length ≤ s.yield.length := by
  match s with
  | .call result name args span =>
    simp only [Stmt.bind, Stmt.depths, Stmt.yield, List.length_append, List.length_cons,
      List.length_nil]
    omega
  | .cond condition thenBlock none =>
    have whenTrue := Block.length_depths_bind_le thenBlock frames seen around
    have tested := condition.length_yield_pos
    simp only [Stmt.bind, Stmt.depths, Stmt.yield, List.length_append, List.length_cons]
    omega
  | .cond condition thenBlock (some elseBlock) =>
    have whenTrue := Block.length_depths_bind_le thenBlock frames seen around
    have whenFalse := Block.length_depths_bind_le elseBlock frames seen around
    simp only [Stmt.bind, Stmt.depths, Stmt.yield, List.length_append, List.length_cons]
    omega
  | .loop label (.mk stmts localSlots) span =>
    have body := Stmt.length_depths_bindAll_le stmts (frames.enter seen stmts) seen
      (around.enterLoop label span (declaredNames seen stmts).length 0)
    have allocating := length_depthIfAny_le (declaredNames seen stmts).length around.depth
    have freeing := length_depthIfAny_le (declaredNames seen stmts).length
      (around.depth + (declaredNames seen stmts).length)
    simp only [Stmt.bind, Block.bind_mk, Stmt.depths, Stmt.yield, Block.yield, List.length_append,
      List.length_cons, List.length_nil]
    omega
  | .leave label span =>
    simp only [Stmt.bind, Stmt.depths, Stmt.yield, List.length_append, List.length_cons,
      List.length_nil]
    cases around.target? label with
    | none => exact Nat.zero_le _
    | some target =>
      have freeing := length_depthIfAny_le (around.depth - target.depth) around.depth
      simp only [List.length_append, List.length_cons, List.length_nil]
      omega
  | .block inner => exact Block.length_depths_bind_le inner frames seen around

end

theorem Block.length_compile_le {root : Block} {tape : Tape} (compiled : root.compile = .ok tape) :
    tape.length ≤ root.yield.length := by
  rw [Block.length_of_generate compiled]
  exact Block.length_depths_bind_le root [] [] .empty

theorem Tiling.length_le {offset : Nat} {text : List Char} {placed : List Placed}
    (tiling : Tiling offset text placed) : placed.length ≤ byteLength text := by
  induction tiling with
  | last => exact Nat.zero_le _
  | token skipped munch after ih =>
    have wide := munch.lexeme.byteLength_pos
    simp only [List.length_cons, byteLength_append]
    omega

theorem length_yield_of_parseSource {source : String} {root : Block}
    (parsed : parseSource source = .ok root) : root.yield.length ≤ source.utf8ByteSize := by
  obtain ⟨placed, lexed, read⟩ := Except.bind_eq_ok.mp parsed
  have tiling : Tiling 0 source.toList placed :=
    tiling_of_lexFrom (Except.mapError_eq_ok.mp lexed)
  have few := tiling.length_le
  rw [byteLength_eq_utf8ByteSize, String.ofList_toList] at few
  rw [Block.yield_of_parse (Except.mapError_eq_ok.mp read), List.length_map]
  exact few

/-- An instruction whose slots and counts are among those allocated, and whose target is on a tape, is
in range if these numbers are. -/
theorem Instr.SoundAt.inRange {length pc : Nat} {depth : Nat → Nat} {instr : Instr}
    (sound : instr.SoundAt length depth SlotUsed pc) (low : ∀ pc, depth pc < Nat.pow 2 32)
    (short : length < Nat.pow 2 64) : instr.InRange := by
  have slots : ∀ slot ∈ instr.slots, slot < Nat.pow 2 32 :=
    fun slot used => Nat.lt_of_le_of_lt (sound.uses slot used).2 (low pc)
  have respects := sound.respects
  cases instr with
  | call name inputs output =>
    simp only [Instr.slots, List.mem_append, Option.mem_toList] at slots
    exact ⟨fun slot read => slots slot (.inl read), fun slot written => slots slot (.inr written)⟩
  | jump condition target =>
    refine ⟨?_, Nat.lt_of_le_of_lt (sound.inside target rfl) short⟩
    -- The condition of a jump that is always taken is not among its slots.
    by_cases always : condition = 0
    · exact always ▸ Nat.two_pow_pos 32
    · exact slots condition (by simp [Instr.slots, always])
  | grow count =>
    have after := low (pc + 1)
    simp only [Instr.Respects] at respects
    exact Nat.lt_of_le_of_lt (by omega) after
  | shrink count => exact Nat.lt_of_le_of_lt respects.1 (low pc)

theorem Block.inRange_of_compile {root : Block} {tape : Tape} (compiled : root.compile = .ok tape)
    (few : root.peakSlot < Nat.pow 2 32) (short : tape.length < Nat.pow 2 64) :
    ∀ instr ∈ tape, instr.InRange := by
  obtain ⟨-, sound⟩ := Block.sound_of_generate compiled SlotUsed
    (Block.slotUses_bind root [] Frames.stacked_nil)
  have low (pc : Nat) := Nat.lt_of_le_of_lt (Block.depthAt_resolve_le root pc) few
  intro instr member
  obtain ⟨pc, onTape, rfl⟩ := List.getElem_of_mem member
  exact (sound pc tape[pc] (Nat.zero_le pc) onTape (by simp)).inRange low short

end LoopTape
