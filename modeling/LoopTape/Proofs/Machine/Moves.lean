import LoopTape.Machine.Run

/-! Steps that are made one after the other, and what a run without a limit gives for them. -/

set_option autoImplicit false

namespace LoopTape.Config

variable {σ : Type} {host : HostTable σ} {tape : Tape}

theorem step_at_end {c : Config σ} (atEnd : tape.length ≤ c.machine.pc) :
    c.step host tape = (.ok .halted, c) := by
  simp [step, List.getElem?_eq_none atEnd]

theorem runFrom_cancelled {c : Config σ} (cancelled : c.world.cancelled = true) (steps left : Nat) :
    c.runFrom host tape steps left = ⟨.ok .cancelled, steps, c⟩ := by
  unfold runFrom
  exact if_pos cancelled

/-- Makes `n` steps, none of which halts or fails, without being cancelled before any of them. -/
inductive Moves (host : HostTable σ) (tape : Tape) : Nat → Config σ → Config σ → Prop
  | refl (c : Config σ) : Moves host tape 0 c c
  | step {n : Nat} {c d e : Config σ} : c.world.cancelled = false →
      c.step host tape = (.ok .moved, d) → Moves host tape n d e → Moves host tape (n + 1) c e

namespace Moves

theorem single {c d : Config σ} (going : c.world.cancelled = false)
    (made : c.step host tape = (.ok .moved, d)) : Moves host tape 1 c d := .step going made (.refl d)

theorem trans {m n : Nat} {c d e : Config σ} (first : Moves host tape m c d)
    (second : Moves host tape n d e) : Moves host tape (m + n) c e := by
  induction first with
  | refl => simpa using second
  | @step m c d _ going made _ ih =>
    rw [Nat.add_right_comm]
    exact .step going made (ih second)

theorem split (m : Nat) {n : Nat} {c e : Config σ} (moves : Moves host tape (m + n) c e) :
    ∃ d, Moves host tape m c d ∧ Moves host tape n d e := by
  induction m generalizing c with
  | zero => exact ⟨c, .refl c, by simpa using moves⟩
  | succ m ih =>
    rw [Nat.add_right_comm] at moves
    cases moves with
    | step going made later =>
      obtain ⟨d, first, second⟩ := ih later
      exact ⟨d, .step going made first, second⟩

theorem runFrom {n : Nat} {c d : Config σ} (moves : Moves host tape n c d) (steps left : Nat) :
    c.runFrom host tape steps (n + left) = d.runFrom host tape (steps + n) left := by
  induction moves generalizing steps with
  | refl => simp
  | @step n c d e going made _ ih =>
    have first : c.runFrom host tape steps (n + left + 1) =
        d.runFrom host tape (steps + 1) (n + left) := by
      rw [Config.runFrom]
      simp [going, made]
    rw [Nat.add_right_comm, first, ih, Nat.add_assoc, Nat.add_comm 1 n]

theorem runFor_config {n : Nat} {c d : Config σ} (moves : Moves host tape n c d) :
    (c.runFor host tape n).config = d := by
  have ran := moves.runFrom 0 0
  rw [Nat.add_zero] at ran
  rw [runFor, ran, Config.runFrom]
  split <;> rfl

theorem run?_finished {n : Nat} {c d : Config σ} (moves : Moves host tape n c d)
    (going : d.world.cancelled = false) (atEnd : d.machine.pc = tape.length) {patience : Nat}
    (enough : n ≤ patience) :
    c.run? host tape patience none = some ⟨.ok .finished, n, d⟩ := by
  obtain ⟨more, rfl⟩ := Nat.exists_eq_add_of_le enough
  have ran : c.runFor host tape (n + more) = ⟨.ok .finished, n, d⟩ := by
    rw [runFor, moves.runFrom, Nat.zero_add]
    cases more with
    | zero =>
      rw [Config.runFrom]
      simp [going, Machine.halted, atEnd]
    | succ more =>
      rw [Config.runFrom]
      simp [going, step_at_end (Nat.le_of_eq atEnd.symm)]
  simp [run?, ran]

theorem run?_failed {n : Nat} {c d e : Config σ} (moves : Moves host tape n c d)
    (going : d.world.cancelled = false) {error : MachineError}
    (failed : d.step host tape = (.error error, e)) {patience : Nat} (enough : n < patience) :
    c.run? host tape patience none = some ⟨.error error, n, e⟩ := by
  obtain ⟨more, rfl⟩ := Nat.exists_eq_add_of_lt enough
  have ran : c.runFor host tape (n + (more + 1)) = ⟨.error error, n, e⟩ := by
    rw [runFor, moves.runFrom, Nat.zero_add, Config.runFrom]
    simp [going, failed]
  simp [run?, Nat.add_assoc, ran]

/-- A machine that makes more steps has only used up its limit. -/
theorem runFor_of_lt {n limit : Nat} {c e : Config σ} (moves : Moves host tape n c e)
    (before : limit < n) :
    ∃ d, Moves host tape limit c d ∧ c.runFor host tape limit = ⟨.ok .stepLimit, limit, d⟩ := by
  obtain ⟨more, rfl⟩ := Nat.exists_eq_add_of_lt before
  obtain ⟨d, first, second⟩ := split limit (show Moves host tape (limit + (more + 1)) c e from moves)
  refine ⟨d, first, ?_⟩
  cases second with
  | step going made later =>
    have onTape : ¬ tape.length ≤ d.machine.pc := by
      intro atEnd
      simp [step_at_end atEnd] at made
    have ran := first.runFrom 0 0
    rw [Nat.add_zero, Nat.zero_add] at ran
    rw [runFor, ran, Config.runFrom]
    simp [going, Machine.halted, onTape]

theorem run?_endless {c : Config σ} (endless : ∀ n, ∃ m d, n ≤ m ∧ Moves host tape m c d)
    (patience : Nat) : c.run? host tape patience none = none := by
  obtain ⟨m, e, larger, moves⟩ := endless (patience + 1)
  obtain ⟨d, _, ran⟩ := moves.runFor_of_lt larger
  simp [run?, ran]

end Moves

end LoopTape.Config
