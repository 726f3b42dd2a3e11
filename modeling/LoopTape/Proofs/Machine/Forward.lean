import LoopTape.Proofs.Machine.Failing
import LoopTape.Proofs.Tape.Closing
import LoopTape.Proofs.Tape.Sound

/-! Machines that only go forward.

Where no jump goes back, each step leads further on the tape, so a machine makes no more steps than there
are instructions in front of it. It does so whatever the host answers, and whether or not the run is
cancelled from outside meanwhile. The tape of a tree without loops has no jump that goes back.
-/

set_option autoImplicit false

namespace LoopTape

variable {σ : Type} {host : HostTable σ} {tape : Tape}

def Tape.Forward (tape : Tape) : Prop :=
  ∀ pc condition target : Nat, tape[pc]? = some (.jump condition target) → pc < target

theorem Tape.mem_backwardJumps {pc : Nat} :
    pc ∈ tape.backwardJumps 0 tape.length ↔
      ∃ condition target, tape[pc]? = some (.jump condition target) ∧ target ≤ pc := by
  rw [backwardJumps, List.mem_filter, List.mem_range'_1]
  constructor
  · rintro ⟨-, back⟩
    rw [jumpsBack] at back
    cases fetched : tape[pc]? with
    | none => simp [fetched] at back
    | some instr =>
      cases instr with
      | jump condition target =>
        exact ⟨condition, target, rfl, by simpa [fetched, Instr.target?] using back⟩
      | _ => simp [fetched, Instr.target?] at back
  · rintro ⟨condition, target, fetched, back⟩
    have onTape := (List.getElem?_eq_some_iff.mp fetched).1
    exact ⟨by omega, by simp [jumpsBack, fetched, Instr.target?, back]⟩

theorem Tape.forward_of_backwardJumps (none : tape.backwardJumps 0 tape.length = []) :
    tape.Forward := by
  intro pc condition target fetched
  apply Nat.lt_of_not_le
  intro back
  have member := mem_backwardJumps.mpr ⟨condition, target, fetched, back⟩
  rw [none] at member
  cases member

namespace Config

/-- Makes `n` steps that do not fail, and the world may change between them at any time. -/
inductive Advances (host : HostTable σ) (tape : Tape) : Nat → Config σ → Config σ → Prop
  | refl (c : Config σ) : Advances host tape 0 c c
  | step {n : Nat} {c d e : Config σ} : c.step host tape = (.ok .moved, d) →
      Advances host tape n d e → Advances host tape (n + 1) c e
  | outside {n : Nat} {c e : Config σ} (world : World σ) :
      Advances host tape n ⟨c.machine, world⟩ e → Advances host tape n c e

variable {c d : Config σ}

theorem Moves.advances {n : Nat} (moves : Moves host tape n c d) : Advances host tape n c d := by
  induction moves with
  | refl c => exact .refl c
  | step _ made _ ih => exact .step made ih

theorem Does.advances (forward : tape.Forward) {calls : List HostCall}
    (does : c.Does host tape (.ok .moved) d calls) :
    c.machine.pc < tape.length ∧ c.machine.pc < d.machine.pc := by
  cases does with
  | jump fetched =>
    exact ⟨(List.getElem?_eq_some_iff.mp fetched).1, forward _ _ _ fetched⟩
  | pass fetched | grow fetched | shrink fetched | call _ fetched =>
    exact ⟨(List.getElem?_eq_some_iff.mp fetched).1, Nat.lt_succ_self _⟩

/-- Each step uses up an instruction in front of the machine. -/
theorem Advances.within (forward : tape.Forward) {n : Nat} (advances : Advances host tape n c d) :
    n ≤ tape.length - c.machine.pc ∧ c.machine.pc + n ≤ d.machine.pc := by
  induction advances with
  | refl => exact ⟨Nat.zero_le _, Nat.le_refl _⟩
  | step made _ ih =>
    obtain ⟨onTape, further⟩ := (does_of_step made).advances forward
    omega
  | outside world _ ih => exact ih

/-- A run without a limit stops after at most as many steps as there are instructions ahead. -/
theorem run?_of_forward (host : HostTable σ) (forward : tape.Forward) (c : Config σ) :
    ∃ run, run.steps ≤ tape.length - c.machine.pc ∧ run.ending ≠ .ok .stepLimit ∧
      ∀ patience, tape.length - c.machine.pc ≤ patience →
        c.run? host tape patience none = some run := by
  have makes : c.Makes host tape (some (tape.length - c.machine.pc))
      (c.runFor host tape (tape.length - c.machine.pc)) := makes_runFor _ c
  generalize c.runFor host tape (tape.length - c.machine.pc) = run at makes
  obtain ⟨last, moves, stops⟩ := makes.stops
  have within : run.steps ≤ tape.length - c.machine.pc := makes.within _ rfl
  have reached := (moves.advances.within forward).2
  -- With all the steps made that there can be, the machine is at the end.
  have notLimit : run.ending ≠ .ok .stepLimit := by
    intro limited
    rw [limited] at stops
    cases stops with
    | stepLimit _ onTape used =>
      have all : tape.length - c.machine.pc - run.steps = 0 := Option.some.inj used
      have before := of_decide_eq_false onTape
      omega
  refine ⟨run, within, notLimit, ?_⟩
  intro patience enough
  have free : c.Makes host tape none run := ⟨nofun, last, moves, stops.unlimited notLimit⟩
  have early : ∀ e, run.ending = .error e → run.steps < patience := by
    intro e failed
    rw [failed] at stops
    cases stops with
    | failed _ _ stepped =>
      have onTape := (does_of_step stepped).failed.1
      omega
  have ran := (free.limited (Nat.le_trans within enough) early).runFor_eq
  exact run?_none_eq_some_iff.mpr ⟨ran, notLimit⟩

end Config

/-- Only loops jump back. The backward jumps of a compiled tape are those that close the loops of the
tree, one for each, and all other jumps go forward, to the end of the tape at most. So without loops a
machine makes at most one step for each instruction in front of it, and a run stops by itself. -/
theorem Block.compile_backwardJumps {root : Block} {tape : Tape} (compiled : root.compile = .ok tape) :
    (tape.backwardJumps 0 tape.length).length = root.loops.length ∧
      List.Forall₂ (Stmt.ClosedAt tape) root.resolve.loops (tape.backwardJumps 0 tape.length) ∧
      (∀ pc condition target, tape[pc]? = some (.jump condition target) →
        pc ∉ tape.backwardJumps 0 tape.length → pc < target ∧ target ≤ tape.length) ∧
      (root.loops = [] → ∀ {σ : Type} (host : HostTable σ) (c : Config σ),
        (∀ n d, c.Advances host tape n d → n ≤ tape.length - c.machine.pc) ∧
          ∃ run, run.steps ≤ tape.length - c.machine.pc ∧ run.ending ≠ .ok .stepLimit ∧
            ∀ patience, tape.length ≤ patience → c.run? host tape patience none = some run) := by
  have closings := Block.closings_of_generate compiled
  have count : (tape.backwardJumps 0 tape.length).length = root.loops.length := by
    rw [← closings.length_eq]
    exact Block.length_loops_bind root [] []
  refine ⟨count, closings, ?_, ?_⟩
  · intro pc condition target fetched ahead
    have inside := Block.targetsValid_of_generate compiled
    simp only [Tape.targetsValid, List.all_eq_true, Option.all_eq_true, decide_eq_true_eq] at inside
    refine ⟨?_, inside _ (List.mem_of_getElem? fetched) target rfl⟩
    apply Nat.lt_of_not_le
    intro back
    exact ahead (Tape.mem_backwardJumps.mpr ⟨condition, target, fetched, back⟩)
  · intro loopFree σ host c
    rw [loopFree, List.length_nil] at count
    have forward := Tape.forward_of_backwardJumps (List.length_eq_zero_iff.mp count)
    obtain ⟨run, within, notLimit, stops⟩ := Config.run?_of_forward host forward c
    refine ⟨fun n d advances => (advances.within forward).1, run, within, notLimit, ?_⟩
    intro patience enough
    exact stops patience (Nat.le_trans (Nat.sub_le _ _) enough)

def idleLoop : Block :=
  .unscoped [.loop (some "a") (.unscoped [
    .call (some (.unbound "x")) "f" [] .unknown,
    .cond (.variable (.unbound "x")) (.unscoped [.leave (some "a") .unknown]) none,
    .loop none (.unscoped []) .unknown]) .unknown]

def emptyBranch : Block :=
  .unscoped [.call (some (.unbound "x")) "f" [] .unknown,
    .cond (.variable (.unbound "x")) (.unscoped []) (some (.unscoped [
      .call none "g" [.variable (.unbound "x")] .unknown]))]

theorem idleLoop_backwardJumps :
    ∃ tape : Tape, idleLoop.compile = .ok tape ∧ tape.length = 8 ∧ idleLoop.loops.length = 2 ∧
      tape.backwardJumps 0 tape.length = [5, 6] ∧
      List.Forall₂ (Stmt.ClosedAt tape) idleLoop.resolve.loops [5, 6] ∧
      ∃ straight : Tape, emptyBranch.compile = .ok straight ∧ emptyBranch.loops = [] ∧
        straight.length = 6 ∧ ∀ {σ : Type} (host : HostTable σ) (world : World σ),
          ∃ run, run.steps ≤ 6 ∧ run.ending ≠ .ok .stepLimit ∧
            Config.run? host straight 6 none ⟨.fresh, world⟩ = some run := by
  have compiled : idleLoop.compile = .ok [.grow 1, .call "f" [] (some 1), .jump 1 4, .jump 0 5,
      .jump 0 7, .jump 0 5, .jump 0 1, .shrink 1] := rfl
  have straight : emptyBranch.compile = .ok [.grow 1, .call "f" [] (some 1), .jump 1 5,
      .call "g" [1] none, .jump 0 5, .shrink 1] := rfl
  obtain ⟨count, closings, -⟩ := Block.compile_backwardJumps compiled
  obtain ⟨-, -, -, stops⟩ := Block.compile_backwardJumps straight
  refine ⟨_, compiled, rfl, rfl, by decide, closings, _, straight, rfl, rfl, ?_⟩
  intro σ host world
  obtain ⟨-, run, within, notLimit, ran⟩ := stops rfl host ⟨.fresh, world⟩
  exact ⟨run, within, notLimit, ran 6 (Nat.le_refl 6)⟩

end LoopTape
