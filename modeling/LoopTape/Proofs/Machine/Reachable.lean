import LoopTape.Machine.Run

/-! The configurations that a machine can get into.

Its owner may step it and run it in any order, go on after a step that failed, and change the world
behind its back, the flag that cancels a run included.
-/

set_option autoImplicit false

namespace LoopTape

variable {σ : Type} {host : HostTable σ} {tape : Tape}

inductive Config.Reachable (host : HostTable σ) (tape : Tape) : Config σ → Prop
  | fresh (world : World σ) : Reachable host tape ⟨.fresh, world⟩
  | step {c : Config σ} : Reachable host tape c → Reachable host tape (c.step host tape).2
  | run {c : Config σ} {run : Run σ} (patience : Nat) (limit : Option Nat) :
      Reachable host tape c → c.run? host tape patience limit = some run →
      Reachable host tape run.config
  | outside {c : Config σ} (world : World σ) : Reachable host tape c →
      Reachable host tape ⟨c.machine, world⟩

theorem Config.runFrom_keeps (Keeps : Config σ → Prop)
    (kept : ∀ c, Keeps c → Keeps (c.step host tape).2) (left steps : Nat) (c : Config σ)
    (before : Keeps c) : Keeps (c.runFrom host tape steps left).config := by
  induction left generalizing steps c with
  | zero =>
    unfold runFrom
    split <;> exact before
  | succ left ih =>
    unfold runFrom
    split
    · exact before
    · have after := kept c before
      dsimp only
      split
      · next next moved =>
        rw [moved] at after
        exact ih (steps + 1) next after
      · next next halted =>
        rw [halted] at after
        exact after
      · next next failed =>
        rw [failed] at after
        exact after

/-- What holds of a fresh machine in any world, is kept by each step and does not depend on the
world holds of every configuration that can be reached. -/
theorem Config.Reachable.induction {Keeps : Machine → Prop} (start : Keeps .fresh)
    (kept : ∀ c : Config σ, Keeps c.machine → Keeps (c.step host tape).2.machine) {c : Config σ}
    (reachable : c.Reachable host tape) : Keeps c.machine := by
  induction reachable with
  | fresh world => exact start
  | step _ ih => exact kept _ ih
  | @run c run patience limit _ ran ih =>
    have always (left : Nat) : Keeps (c.runFor host tape left).config.machine :=
      runFrom_keeps (fun c => Keeps c.machine) kept left 0 c ih
    -- A run without a limit is one with its patience as the limit, if it ends in time.
    unfold run? at ran
    split at ran
    · next limit =>
      obtain rfl := Option.some.inj ran
      exact always limit
    · dsimp only at ran
      split at ran
      · exact nomatch ran
      · obtain rfl := Option.some.inj ran
        exact always patience
  | outside world _ ih => exact ih

end LoopTape
