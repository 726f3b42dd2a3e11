import LoopTape.Proofs.Tape.Region
import Mathlib.Data.List.Forall2

/-! Where a generated tape jumps back.

The code of a loop ends with a jump to the start of its body. All other jumps go forward: past a branch
that was not chosen and the jump behind it, past the other branch, or out of a loop, past the jump that
ends it. So each backward jump belongs to one loop of the tree, and a loop with nothing in its body has
one as well, which leads to itself.
-/

set_option autoImplicit false

namespace LoopTape

def Tape.jumpsBack (tape : Tape) (pc : Nat) : Bool :=
  (tape[pc]?.bind Instr.target?).any (· ≤ pc)

/-- The indices of the backward jumps from `start` up to `stop`, in order. -/
def Tape.backwardJumps (tape : Tape) (start stop : Nat) : List Nat :=
  (List.range' start (stop - start)).filter tape.jumpsBack

mutual

/-- The loops of a block in the order in which their code ends: those in its body come before a loop,
and those of the second branch of a choice before those of the first. -/
def Block.loops : Block → List Stmt
  | .mk stmts _ => Stmt.loopsAll stmts

def Stmt.loopsAll : List Stmt → List Stmt
  | [] => []
  | s :: rest => s.loops ++ Stmt.loopsAll rest

def Stmt.loops : Stmt → List Stmt
  | .cond _ thenBlock none => thenBlock.loops
  | .cond _ thenBlock (some elseBlock) => elseBlock.loops ++ thenBlock.loops
  | .loop label body span => body.loops ++ [.loop label body span]
  | .leave .. | .call .. => []
  | .block inner => inner.loops

end

/-- The jump at an index closes a loop: the code of the body stands in front of it, breaks out of the
body lead behind it, and it always leads to where the body starts. -/
def Stmt.ClosedAt (tape : Tape) : Stmt → Nat → Prop
  | .loop label (.mk stmts localSlots) span, pc =>
    ∃ (around : Surroundings) (first : Nat),
      Stmt.OccupyAll tape (around.enterLoop label span localSlots (pc + 1)) first pc stmts ∧
        tape[pc]? = some (.jump 0 first)
  | .cond .., _ | .leave .., _ | .call .., _ | .block .., _ => False

structure Tape.ClosesIn (tape : Tape) (loops : List Stmt) (start stop : Nat) : Prop where
  ordered : start ≤ stop
  closings : List.Forall₂ (Stmt.ClosedAt tape) loops (tape.backwardJumps start stop)

namespace Tape

variable {tape : Tape} {loops others : List Stmt} {start middle stop pc : Nat}

theorem backwardJumps_self (pc : Nat) : tape.backwardJumps pc pc = [] := by
  simp [backwardJumps]

theorem backwardJumps_append (first : start ≤ middle) (second : middle ≤ stop) :
    tape.backwardJumps start stop =
      tape.backwardJumps start middle ++ tape.backwardJumps middle stop := by
  have counts : stop - start = middle - start + (stop - middle) := by omega
  have upTo : start + (middle - start) = middle := by omega
  rw [backwardJumps, counts, ← List.range'_append_1, List.filter_append, upTo]
  rfl

theorem backwardJumps_single (pc : Nat) :
    tape.backwardJumps pc (pc + 1) = if tape.jumpsBack pc then [pc] else [] := by
  simp [backwardJumps, List.filter_singleton]

namespace ClosesIn

theorem nil (pc : Nat) : tape.ClosesIn [] pc pc :=
  ⟨Nat.le_refl pc, by rw [backwardJumps_self]; exact .nil⟩

theorem append (first : tape.ClosesIn loops start middle) (rest : tape.ClosesIn others middle stop) :
    tape.ClosesIn (loops ++ others) start stop := by
  refine ⟨Nat.le_trans first.ordered rest.ordered, ?_⟩
  rw [backwardJumps_append first.ordered rest.ordered]
  exact List.rel_append first.closings rest.closings

theorem forward {instr : Instr} (fetched : tape[pc]? = some instr)
    (ahead : ∀ target, instr.target? = some target → pc < target) :
    tape.ClosesIn [] pc (pc + 1) := by
  have stays : tape.jumpsBack pc = false := by
    rw [jumpsBack, fetched, Option.bind_some]
    cases leads : instr.target? with
    | none => rfl
    | some target => simpa using ahead target leads
  refine ⟨Nat.le_succ pc, ?_⟩
  rw [backwardJumps_single, stays]
  exact .nil

theorem closing {label : Option String} {body : List Stmt} {localSlots : Nat} {span : Span}
    {around : Surroundings} {first : Nat} (back : tape[pc]? = some (.jump 0 first))
    (repeats : Stmt.OccupyAll tape (around.enterLoop label span localSlots (pc + 1)) first pc body)
    (behind : first ≤ pc) : tape.ClosesIn [.loop label (.mk body localSlots) span] pc (pc + 1) := by
  have jumps : tape.jumpsBack pc = true := by
    simp [jumpsBack, back, Instr.target?, behind]
  refine ⟨Nat.le_succ pc, ?_⟩
  rw [backwardJumps_single, if_pos jumps]
  exact .cons ⟨around, first, repeats, back⟩ .nil

end ClosesIn

theorem Resizes.closesIn {instr : Instr} {count : Nat}
    (resizes : tape.Resizes instr count start stop) (stays : instr.target? = none) :
    tape.ClosesIn [] start stop := by
  unfold Resizes at resizes
  split at resizes
  · subst resizes
    exact .nil stop
  · obtain ⟨fetched, rfl⟩ := resizes
    exact .forward fetched fun target leads => nomatch stays.symm.trans leads

theorem ClosesIn.jump {condition target : Nat}
    (fetched : tape[pc]? = some (.jump condition target)) (ahead : pc < target) :
    tape.ClosesIn [] pc (pc + 1) :=
  .forward fetched fun _ leads => Option.some.inj leads ▸ ahead

end Tape

def Surroundings.ExitsBehind (around : Surroundings) (stop : Nat) : Prop :=
  ∀ opened ∈ around.loops, stop ≤ opened.exit

theorem Surroundings.ExitsBehind.mono {around : Surroundings} {middle stop : Nat}
    (exits : around.ExitsBehind stop) (before : middle ≤ stop) : around.ExitsBehind middle :=
  fun opened member => Nat.le_trans before (exits opened member)

theorem Surroundings.ExitsBehind.enterLoop {around : Surroundings} {last : Nat}
    (exits : around.ExitsBehind (last + 1)) (label : Option String) (span : Span)
    (localSlots : Nat) : (around.enterLoop label span localSlots (last + 1)).ExitsBehind last := by
  intro opened member
  rcases List.mem_cons.mp member with rfl | outer
  · exact Nat.le_succ last
  · exact Nat.le_of_succ_le (exits opened outer)

section

variable {tape : Tape}

mutual

theorem Block.closesIn_of_occupies (block : Block) {around : Surroundings} {start stop : Nat}
    (occupies : block.Occupies tape around start stop) (exits : around.ExitsBehind stop) :
    tape.ClosesIn block.loops start stop := by
  cases block with
  | mk stmts localSlots =>
    obtain ⟨first, last, grows, inner, shrinks⟩ := occupies
    have freeing := shrinks.resizes.closesIn rfl
    have body := Stmt.closesIn_of_occupyAll stmts inner (exits.mono freeing.ordered)
    have whole := ((grows.resizes.closesIn rfl).append body).append freeing
    rwa [List.nil_append, List.append_nil] at whole

theorem Stmt.closesIn_of_occupyAll (stmts : List Stmt) {around : Surroundings} {start stop : Nat}
    (occupy : Stmt.OccupyAll tape around start stop stmts) (exits : around.ExitsBehind stop) :
    tape.ClosesIn (Stmt.loopsAll stmts) start stop := by
  cases stmts with
  | nil =>
    obtain rfl : stop = start := occupy
    exact .nil stop
  | cons s rest =>
    obtain ⟨middle, head, tail⟩ := occupy
    have others := Stmt.closesIn_of_occupyAll rest tail exits
    have first := Stmt.closesIn_of_occupies s head (exits.mono others.ordered)
    exact first.append others

theorem Stmt.closesIn_of_occupies (s : Stmt) {around : Surroundings} {start stop : Nat}
    (occupies : s.Occupies tape around start stop) (exits : around.ExitsBehind stop) :
    tape.ClosesIn s.loops start stop := by
  match s with
  | .call .. =>
    obtain ⟨_, _, _, _, fetched, rfl⟩ := occupies
    exact .forward fetched nofun
  | .cond _ thenBlock none =>
    obtain ⟨_, _, choice, skips, inner⟩ := occupies
    have whenTrue := Block.closesIn_of_occupies thenBlock inner exits
    -- The jump past the branch goes over itself, even if the branch has no code.
    have choosing : tape.ClosesIn [] start (start + 1) := .jump choice (by omega)
    have skipping : tape.ClosesIn [] (start + 1) (start + 2) := .jump skips whenTrue.ordered
    exact choosing.append (skipping.append whenTrue)
  | .cond _ thenBlock (some elseBlock) =>
    obtain ⟨_, middle, _, choice, first, skips, second⟩ := occupies
    have whenTrue := Block.closesIn_of_occupies thenBlock second exits
    have past := whenTrue.ordered
    have whenFalse := Block.closesIn_of_occupies elseBlock first (exits.mono (by omega))
    have choosing : tape.ClosesIn [] start (start + 1) :=
      .jump choice (Nat.lt_of_lt_of_le whenFalse.ordered (Nat.le_succ middle))
    have skipping : tape.ClosesIn [] middle (middle + 1) := .jump skips past
    exact choosing.append (whenFalse.append (skipping.append whenTrue))
  | .loop label (.mk stmts localSlots) span =>
    obtain ⟨first, last, grows, inner, back, shrinks⟩ := occupies
    have freeing := shrinks.resizes.closesIn rfl
    have body := Stmt.closesIn_of_occupyAll stmts inner
      ((exits.mono freeing.ordered).enterLoop label span localSlots)
    have whole := ((grows.resizes.closesIn rfl).append body).append
      ((Tape.ClosesIn.closing back inner body.ordered).append freeing)
    rwa [List.nil_append, List.append_nil] at whole
  | .leave _ _ =>
    obtain ⟨target, jump, found, shrinks, leaving, rfl⟩ := occupies
    have behind := exits target (Surroundings.mem_of_target? found)
    exact (shrinks.resizes.closesIn rfl).append (.jump leaving behind)
  | .block inner => exact Block.closesIn_of_occupies inner occupies exits

end

end

/-- The backward jumps of a generated tape close the loops of its tree. -/
theorem Block.closings_of_generate {root : Block} {tape : Tape}
    (generated : root.generate = .ok tape) :
    List.Forall₂ (Stmt.ClosedAt tape) root.loops (tape.backwardJumps 0 tape.length) := by
  -- No loop is around a root block, so there is none that has to end behind it.
  have exits : Surroundings.empty.ExitsBehind tape.length := fun _ member => nomatch member
  exact (Block.closesIn_of_occupies root (Block.occupies_of_generate generated) exits).closings

mutual

theorem Block.length_loops_bind (block : Block) (frames : Frames) (seen : List String) :
    (block.bind frames seen).loops.length = block.loops.length := by
  cases block with
  | mk stmts localSlots => exact Stmt.length_loopsAll_bindAll stmts _ seen

theorem Stmt.length_loopsAll_bindAll (stmts : List Stmt) (frames : Frames) (seen : List String) :
    (Stmt.loopsAll (Stmt.bindAll frames seen stmts)).length = (Stmt.loopsAll stmts).length := by
  cases stmts with
  | nil => rfl
  | cons s rest =>
    simp only [Stmt.bindAll, Stmt.loopsAll, List.length_append, Stmt.length_loops_bind s,
      Stmt.length_loopsAll_bindAll rest]

theorem Stmt.length_loops_bind (s : Stmt) (frames : Frames) (seen : List String) :
    (s.bind frames seen).loops.length = s.loops.length := by
  match s with
  | .cond _ thenBlock none => exact Block.length_loops_bind thenBlock frames seen
  | .cond _ thenBlock (some elseBlock) =>
    simp only [Stmt.bind, Stmt.loops, List.length_append, Block.length_loops_bind thenBlock,
      Block.length_loops_bind elseBlock]
  | .loop _ body _ =>
    simp only [Stmt.bind, Stmt.loops, List.length_append, Block.length_loops_bind body,
      List.length_singleton]
  | .leave .. | .call .. => rfl
  | .block inner => exact Block.length_loops_bind inner frames seen

end

end LoopTape
