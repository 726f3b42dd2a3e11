import LoopTape.Proofs.Machine.Recorded

/-! Where runs stop.

A run makes steps until it is cancelled, is at the end of the tape, has used up its steps or meets a step
that fails. To be cancelled counts before all else, and to be at the end before the limit. So a run that
was stopped and did not fail can be gone on with as if it had not been stopped, and a run without a limit
is one whose limit is large enough.
-/

set_option autoImplicit false

namespace LoopTape

variable {σ : Type} {host : HostTable σ} {tape : Tape}

def Run.goOn (host : HostTable σ) (tape : Tape) (limit : Nat) (first : Run σ) : Run σ :=
  let second := first.config.runFor host tape limit
  ⟨second.ending, first.steps + second.steps, second.config⟩

namespace Config

/-- Why a run that may make `left` more steps, or any number of them, makes none at a configuration, and
where that leaves it. -/
inductive Stops (host : HostTable σ) (tape : Tape) (left : Option Nat) (c : Config σ) :
    Except MachineError Ending → Config σ → Prop
  | cancelled : c.world.cancelled = true → Stops host tape left c (.ok .cancelled) c
  | finished : c.world.cancelled = false → c.machine.halted tape = true →
      Stops host tape left c (.ok .finished) c
  | stepLimit : c.world.cancelled = false → c.machine.halted tape = false → left = some 0 →
      Stops host tape left c (.ok .stepLimit) c
  | failed {e : MachineError} {d : Config σ} : c.world.cancelled = false → left ≠ some 0 →
      c.step host tape = (.error e, d) → Stops host tape left c (.error e) d

/-- A run under a limit, or without one: it makes as many steps as it counts, none of them cancelled,
halted or failed, and stops behind them. -/
structure Makes (host : HostTable σ) (tape : Tape) (limit : Option Nat) (c : Config σ)
    (run : Run σ) : Prop where
  within : ∀ most ∈ limit, run.steps ≤ most
  stops : ∃ last, Moves host tape run.steps c last ∧
    Stops host tape (limit.map (· - run.steps)) last run.ending run.config

variable {c d : Config σ}

theorem call_ne_halted {name : String} {inputs : List Nat} {output : Option Nat} :
    (c.call host name inputs output).1 ≠ .ok .halted := by
  unfold call
  split
  · exact nofun
  · split
    · exact nofun
    · exact nofun
    · dsimp only
      split <;> exact nofun

theorem halted_of_step (halts : c.step host tape = (.ok .halted, d)) :
    c.machine.halted tape = true ∧ d = c := by
  unfold step at halts
  dsimp only at halts
  split at halts
  · next atEnd =>
    obtain ⟨-, rfl⟩ := Prod.mk.inj halts
    exact ⟨by simpa [Machine.halted] using atEnd, rfl⟩
  · exact absurd (congrArg Prod.fst halts) call_ne_halted
  · split at halts
    · cases halts
    · split at halts <;> cases halts
  · cases halts
  · split at halts <;> cases halts

theorem runFrom_halted (going : c.world.cancelled = false) (halted : c.machine.halted tape = true)
    (steps left : Nat) : c.runFrom host tape steps left = ⟨.ok .finished, steps, c⟩ := by
  have atEnd : tape.length ≤ c.machine.pc := by simpa [Machine.halted] using halted
  unfold runFrom
  cases left with
  | zero => simp [going, halted]
  | succ left => simp [going, step_at_end atEnd]

namespace Stops

variable {ending : Except MachineError Ending}

theorem runFrom {left : Nat} (stops : Stops host tape (some left) c ending d) (steps : Nat) :
    c.runFrom host tape steps left = ⟨ending, steps, d⟩ := by
  cases stops with
  | cancelled cancelled => exact runFrom_cancelled cancelled steps left
  | finished going halted => exact runFrom_halted going halted steps left
  | stepLimit going onTape used =>
    obtain rfl := Option.some.inj used
    unfold Config.runFrom
    simp [going, onTape]
  | failed going more failed =>
    obtain ⟨left, rfl⟩ := Nat.exists_eq_succ_of_ne_zero fun none => more (congrArg some none)
    unfold Config.runFrom
    simp [going, failed]

theorem unlimited {left : Option Nat} (stops : Stops host tape left c ending d)
    (notLimit : ending ≠ .ok .stepLimit) : Stops host tape none c ending d := by
  cases stops with
  | cancelled cancelled => exact .cancelled cancelled
  | finished going halted => exact .finished going halted
  | stepLimit => exact absurd rfl notLimit
  | failed going _ failed => exact .failed going nofun failed

/-- A limit makes no difference to a run that stops before it, and a step that does not fail may be the
last one allowed. -/
theorem limited (stops : Stops host tape none c ending d) {left : Nat}
    (more : ∀ e, ending = .error e → 0 < left) : Stops host tape (some left) c ending d := by
  cases stops with
  | cancelled cancelled => exact .cancelled cancelled
  | finished going halted => exact .finished going halted
  | stepLimit _ _ none => exact nomatch none
  | failed going _ failed =>
    have some := more _ rfl
    exact .failed going (fun none => by cases none; omega) failed

theorem ne_stepLimit (stops : Stops host tape none c ending d) : ending ≠ .ok .stepLimit := by
  cases stops with
  | stepLimit _ _ none => exact nomatch none
  | _ => exact nofun

end Stops

theorem moves_runFrom (steps left : Nat) (c : Config σ) :
    ∃ made last, made ≤ left ∧ (c.runFrom host tape steps left).steps = steps + made ∧
      Moves host tape made c last ∧ Stops host tape (some (left - made)) last
        (c.runFrom host tape steps left).ending (c.runFrom host tape steps left).config := by
  induction left generalizing steps c with
  | zero =>
    have stops : Stops host tape (some 0) c (c.runFrom host tape steps 0).ending
        (c.runFrom host tape steps 0).config := by
      unfold runFrom
      by_cases cancelled : c.world.cancelled = true
      · simpa [cancelled] using Stops.cancelled cancelled
      · rw [Bool.not_eq_true] at cancelled
        cases halted : c.machine.halted tape with
        | true => simpa [cancelled, halted] using Stops.finished cancelled halted
        | false => simpa [cancelled, halted] using Stops.stepLimit cancelled halted rfl
    refine ⟨0, c, Nat.le_refl 0, ?_, .refl c, stops⟩
    unfold runFrom
    split <;> rfl
  | succ left ih =>
    by_cases cancelled : c.world.cancelled = true
    · rw [runFrom_cancelled cancelled]
      exact ⟨0, c, Nat.zero_le _, rfl, .refl c, .cancelled cancelled⟩
    · have going : c.world.cancelled = false := Bool.not_eq_true _ ▸ cancelled
      unfold runFrom
      simp only [going, Bool.false_eq_true, if_false]
      split
      · next next made =>
        obtain ⟨more, last, within, counted, moves, stops⟩ := ih (steps + 1) next
        refine ⟨more + 1, last, by omega, by omega, .step going made moves, ?_⟩
        rwa [Nat.add_sub_add_right]
      · next next halts =>
        obtain ⟨halted, rfl⟩ := halted_of_step halts
        exact ⟨0, next, Nat.zero_le _, rfl, .refl next, .finished going halted⟩
      · next e next failed =>
        exact ⟨0, c, Nat.zero_le _, rfl, .refl c, .failed going nofun failed⟩

theorem makes_runFor (limit : Nat) (c : Config σ) :
    c.Makes host tape (some limit) (c.runFor host tape limit) := by
  obtain ⟨made, last, within, counted, moves, stops⟩ :=
    @moves_runFrom σ host tape 0 limit c
  have steps : (c.runFor host tape limit).steps = made := by rw [runFor, counted, Nat.zero_add]
  constructor
  case within =>
    intro most member
    cases member
    rw [steps]
    exact within
  case stops =>
    rw [steps]
    exact ⟨last, moves, stops⟩

/-- What a run under a limit makes is all that can be made of its configuration. -/
theorem Makes.runFor_eq {limit : Nat} {run : Run σ} (makes : c.Makes host tape (some limit) run) :
    c.runFor host tape limit = run := by
  obtain ⟨last, moves, stops⟩ := makes.stops
  have within : run.steps ≤ limit := makes.within limit rfl
  calc c.runFor host tape limit
      = c.runFrom host tape 0 (run.steps + (limit - run.steps)) := by
        rw [runFor, Nat.add_sub_cancel' within]
    _ = last.runFrom host tape run.steps (limit - run.steps) := by
        rw [moves.runFrom, Nat.zero_add]
    _ = run := stops.runFrom run.steps

theorem Makes.limited {run : Run σ} (makes : c.Makes host tape none run) {limit : Nat}
    (within : run.steps ≤ limit) (more : ∀ e, run.ending = .error e → run.steps < limit) :
    c.Makes host tape (some limit) run := by
  obtain ⟨last, moves, stops⟩ := makes.stops
  constructor
  case within =>
    intro most member
    cases member
    exact within
  case stops =>
    refine ⟨last, moves, stops.limited ?_⟩
    intro e failed
    exact Nat.sub_pos_of_lt (more e failed)

theorem run?_none_eq_some_iff {patience : Nat} {run : Run σ} :
    c.run? host tape patience none = some run ↔
      c.runFor host tape patience = run ∧ run.ending ≠ .ok .stepLimit := by
  unfold run?
  dsimp only
  split
  · next limited =>
    constructor
    · exact nofun
    · rintro ⟨rfl, notLimit⟩
      exact absurd limited notLimit
  · next notLimit =>
    constructor
    · intro ran
      obtain rfl := Option.some.inj ran
      exact ⟨rfl, notLimit⟩
    · rintro ⟨rfl, -⟩
      rfl

/-- A run, under a limit or without one, does what is asked of it, and nothing else is. -/
theorem exists_run?_iff {limit : Option Nat} {run : Run σ} :
    (∃ patience, c.run? host tape patience limit = some run) ↔ c.Makes host tape limit run := by
  cases limit with
  | some limit =>
    constructor
    · rintro ⟨_, ran⟩
      obtain rfl := Option.some.inj ran
      exact makes_runFor limit c
    · intro makes
      exact ⟨0, congrArg some makes.runFor_eq⟩
  | none =>
    constructor
    · rintro ⟨patience, ran⟩
      obtain ⟨rfl, notLimit⟩ := run?_none_eq_some_iff.mp ran
      obtain ⟨last, moves, stops⟩ := (makes_runFor patience c).stops
      exact ⟨nofun, last, moves, stops.unlimited notLimit⟩
    · intro makes
      obtain ⟨last, moves, stops⟩ := makes.stops
      have ran := (makes.limited (Nat.le_succ _) fun _ _ => Nat.lt_succ_self _).runFor_eq
      exact ⟨run.steps + 1, run?_none_eq_some_iff.mpr ⟨ran, stops.ne_stepLimit⟩⟩

/-- A run that did not fail goes on as if it had not been stopped. -/
theorem runFor_add {n : Nat} {ending : Ending} (stopped : (c.runFor host tape n).ending = .ok ending)
    (m : Nat) : c.runFor host tape (n + m) = (c.runFor host tape n).goOn host tape m := by
  have makes : c.Makes host tape (some n) (c.runFor host tape n) := makes_runFor n c
  generalize c.runFor host tape n = first at stopped makes
  obtain ⟨last, moves, stops⟩ := makes.stops
  have within : first.steps ≤ n := makes.within n rfl
  have split : n + m = first.steps + (n - first.steps + m) := by omega
  rw [runFor, split, moves.runFrom, Nat.zero_add, Run.goOn]
  obtain ⟨reason, made, config⟩ := first
  obtain rfl : reason = .ok ending := stopped
  dsimp only at stops within ⊢
  cases stops with
  | cancelled cancelled =>
    rw [runFor, runFrom_cancelled cancelled, runFrom_cancelled cancelled]
    rfl
  | finished going halted =>
    rw [runFor, runFrom_halted going halted, runFrom_halted going halted]
    rfl
  | stepLimit going onTape used =>
    have used : n - made = 0 := Option.some.inj used
    rw [used, Nat.zero_add, runFrom_steps]
    rfl

theorem callsFor_add {n : Nat} {ending : Ending}
    (stopped : (c.runFor host tape n).ending = .ok ending) (m : Nat) :
    c.callsFor host tape (n + m) =
      c.callsFor host tape n ++ (c.runFor host tape n).config.callsFor host tape m := by
  have first := runFor_withCalls host tape c n []
  have stopped : ((c.withCalls []).runFor host.recorded tape n).ending = .ok ending := by
    rw [first]
    exact stopped
  rw [callsFor, runFor_add stopped, Run.goOn, first, List.nil_append]
  dsimp only
  rw [runFor_withCalls]
  rfl

/-- To run in pieces is to run at once: a run that did not fail, gone on with, ends where one run of all
the steps ends, with the same calls. A run without a limit is the run under any limit from its last step
on. And a run makes exactly the steps that it counts, and stops for the first reason there is. -/
theorem run_in_pieces (host : HostTable σ) (tape : Tape) (c : Config σ) :
    (∀ n m ending, (c.runFor host tape n).ending = .ok ending →
      c.runFor host tape (n + m) = (c.runFor host tape n).goOn host tape m ∧
        c.callsFor host tape (n + m) =
          c.callsFor host tape n ++ (c.runFor host tape n).config.callsFor host tape m) ∧
      (∀ patience run, c.run? host tape patience none = some run → ∀ limit, run.steps ≤ limit →
        (∀ e, run.ending = .error e → run.steps < limit) → c.runFor host tape limit = run) ∧
      ∀ limit run, (∃ patience, c.run? host tape patience limit = some run) ↔
        c.Makes host tape limit run := by
  refine ⟨?_, ?_, fun limit run => exists_run?_iff⟩
  · intro n m ending stopped
    exact ⟨runFor_add stopped m, callsFor_add stopped m⟩
  · intro patience run ran limit within more
    have makes : c.Makes host tape none run := exists_run?_iff.mp ⟨patience, ran⟩
    exact (makes.limited within more).runFor_eq

example : ((⟨.fresh, ⟨(), false⟩⟩ : Config Unit).runFor .empty [.grow 1, .shrink 1] 2).ending =
    .ok .finished := rfl

end Config

end LoopTape
