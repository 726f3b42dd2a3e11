import LoopTape.Command.Execute
import LoopTape.Proofs.Machine.Reachable
import LoopTape.Proofs.Machine.Stopping
import LoopTape.Proofs.Result

/-! What steps and runs leave behind when they fail.

A step checks all that can be wrong before it changes anything. Only a host function that fails has been
called by then, so its world may have changed, but the machine has not. The reserved cell is never freed,
whatever the tape, so there is always a cell to count down to. A run that fails stands in front of the
instruction that failed.
-/

set_option autoImplicit false

namespace LoopTape

variable {σ : Type} {host : HostTable σ} {tape : Tape}

theorem Memory.read_eq_error {memory : Memory} {slot : Nat} {e : MachineError}
    (failed : memory.read slot = .error e) : e = .slotOutOfRange slot memory.length := by
  unfold read at failed
  split at failed
  · cases failed
  · exact (Except.error.inj failed).symm

theorem Memory.readAll_eq_error {memory : Memory} {slots : List Nat} {e : MachineError}
    (failed : memory.readAll slots = .error e) :
    ∃ slot ∈ slots, e = .slotOutOfRange slot memory.length := by
  induction slots with
  | nil => cases failed
  | cons slot rest ih =>
    unfold readAll at failed
    cases first : memory.read slot with
    | error other =>
      rw [first] at failed
      cases failed
      exact ⟨slot, List.mem_cons_self, read_eq_error first⟩
    | ok value =>
      rw [first] at failed
      cases later : memory.readAll rest with
      | ok values => simp only [later] at failed; cases failed
      | error other =>
        simp only [later] at failed
        cases failed
        obtain ⟨slot, member, missing⟩ := ih later
        exact ⟨slot, List.mem_cons_of_mem _ member, missing⟩

theorem Memory.checkOutput_eq_error {memory : Memory} {output : Option Nat} {e : MachineError}
    (failed : memory.checkOutput output = .error e) :
    ∃ slot ∈ output, e = .slotOutOfRange slot memory.length := by
  cases output with
  | none => cases failed
  | some slot =>
    cases there : memory.read slot with
    | ok value => simp only [checkOutput, there] at failed; cases failed
    | error other =>
      simp only [checkOutput, there] at failed
      cases failed
      exact ⟨slot, rfl, read_eq_error there⟩

theorem Memory.lt_of_checkOutput {memory : Memory} {output : Option Nat}
    (checked : memory.checkOutput output = .ok ()) : ∀ slot ∈ output, slot < memory.length := by
  intro slot member
  obtain rfl := Option.mem_def.mp member
  obtain ⟨value, there, -⟩ := Except.map_eq_ok.mp checked
  exact (List.getElem?_eq_some_iff.mp (read_eq_ok.mp there)).1

namespace Config

def ask (function : HostFunction σ) (args : List Value) (c : Config σ) : Reply σ :=
  function args c.world.cancelled c.world.state

def stepCalls (host : HostTable σ) (tape : Tape) (c : Config σ) : List HostCall :=
  ((c.withCalls []).step host.recorded tape).2.world.state.2

/-- What a step can do: its result, where it leads and the calls that it makes. -/
inductive Does (host : HostTable σ) (tape : Tape) (c : Config σ) :
    Except MachineError Step → Config σ → List HostCall → Prop
  | halt (past : tape.length ≤ c.machine.pc) : Does host tape c (.ok .halted) c []
  | jump {condition target : Nat} (fetched : tape[c.machine.pc]? = some (.jump condition target))
    (taken : condition = 0 ∨ c.machine.memory[condition]? = some (.bool true)) :
    Does host tape c (.ok .moved) (c.goto target) []
  | pass {condition target : Nat} (fetched : tape[c.machine.pc]? = some (.jump condition target))
    (notTaken : condition ≠ 0 ∧ c.machine.memory[condition]? = some (.bool false)) :
    Does host tape c (.ok .moved) (c.next c.machine.memory) []
  | grow {count : Nat} (fetched : tape[c.machine.pc]? = some (.grow count)) :
    Does host tape c (.ok .moved) (c.next (c.machine.memory ++ List.replicate count .nil)) []
  | shrink {count : Nat} (fetched : tape[c.machine.pc]? = some (.shrink count))
    (enough : count ≤ c.machine.memory.length - 1) :
    Does host tape c (.ok .moved)
      (c.next (c.machine.memory.take (c.machine.memory.length - count))) []
  | call (function : HostFunction σ) {name : String} {inputs : List Nat} {output : Option Nat}
    {args : List Value} {value : Value}
    (fetched : tape[c.machine.pc]? = some (.call name inputs output))
    (inside : ∀ slot ∈ output, slot < c.machine.memory.length)
    (answer : (c.ask function args).result = .ok value) :
    Does host tape c (.ok .moved)
      ⟨⟨c.machine.pc + 1, c.machine.memory.store output value⟩, c.world.after (c.ask function args)⟩
      [⟨name, args, .ok value⟩]
  | fail (function : HostFunction σ) {name message : String} {inputs : List Nat}
    {output : Option Nat} {args : List Value}
    (fetched : tape[c.machine.pc]? = some (.call name inputs output))
    (inside : ∀ slot ∈ output, slot < c.machine.memory.length)
    (answer : (c.ask function args).result = .error message) :
    Does host tape c (.error (.host name message))
      ⟨c.machine, c.world.after (c.ask function args)⟩ [⟨name, args, .error message⟩]
  | refuse {e : MachineError} (onTape : c.machine.pc < tape.length)
    (early : ∀ name message, e ≠ .host name message) : Does host tape c (.error e) c []

variable {c d : Config σ}

theorem does_call {name : String} {inputs : List Nat} {output : Option Nat}
    (fetched : tape[c.machine.pc]? = some (.call name inputs output)) :
    c.Does host tape (c.call host name inputs output).1 (c.call host name inputs output).2
      ((c.withCalls []).call host.recorded name inputs output).2.world.state.2 := by
  have onTape : c.machine.pc < tape.length := (List.getElem?_eq_some_iff.mp fetched).1
  simp only [call, HostTable.get?_recorded]
  cases host.get? name with
  | none => exact .refuse onTape (by rintro _ _ ⟨⟩)
  | some function =>
    cases read : c.machine.memory.readAll inputs with
    | error e =>
      obtain ⟨slot, -, rfl⟩ := Memory.readAll_eq_error read
      simp only [withCalls, Option.map_some, read]
      exact .refuse onTape (by rintro _ _ ⟨⟩)
    | ok args =>
      cases checked : c.machine.memory.checkOutput output with
      | error e =>
        obtain ⟨slot, -, rfl⟩ := Memory.checkOutput_eq_error checked
        simp only [withCalls, Option.map_some, read, checked]
        exact .refuse onTape (by rintro _ _ ⟨⟩)
      | ok _ =>
        have inside := Memory.lt_of_checkOutput checked
        simp only [withCalls, Option.map_some, read, checked, HostFunction.recorded, World.after,
          List.nil_append]
        cases answer : (function args c.world.cancelled c.world.state).result with
        | error message => exact .fail function fetched inside answer
        | ok value => exact .call function fetched inside answer

/-- Every step does one of these things. -/
theorem does_step (host : HostTable σ) (tape : Tape) (c : Config σ) :
    c.Does host tape (c.step host tape).1 (c.step host tape).2 (c.stepCalls host tape) := by
  unfold stepCalls step
  dsimp only [withCalls]
  cases fetched : tape[c.machine.pc]? with
  | none => exact .halt (List.getElem?_eq_none_iff.mp fetched)
  | some instr =>
    have onTape : c.machine.pc < tape.length := (List.getElem?_eq_some_iff.mp fetched).1
    cases instr with
    | call name inputs output => exact does_call fetched
    | jump condition target =>
      by_cases always : condition = 0
      · simp only [always, if_true]
        exact .jump fetched (.inl always)
      · simp only [always, if_false]
        cases read : c.machine.memory.read condition with
        | error e =>
          obtain rfl := Memory.read_eq_error read
          exact .refuse onTape (by rintro _ _ ⟨⟩)
        | ok value =>
          have there := Memory.read_eq_ok.mp read
          cases value with
          | bool holds =>
            cases holds with
            | true => exact .jump fetched (.inr there)
            | false => exact .pass fetched ⟨always, there⟩
          | _ => exact .refuse onTape (by rintro _ _ ⟨⟩)
    | grow count => exact .grow fetched
    | shrink count =>
      dsimp only
      by_cases enough : count ≤ c.machine.memory.length - 1
      · rw [if_neg (Nat.not_lt.mpr enough), if_neg (Nat.not_lt.mpr enough)]
        exact .shrink fetched enough
      · rw [if_pos (Nat.not_le.mp enough), if_pos (Nat.not_le.mp enough)]
        exact .refuse onTape (by rintro _ _ ⟨⟩)

namespace Does

variable {result : Except MachineError Step} {calls : List HostCall}

theorem length_pos (does : c.Does host tape result d calls) (cells : 0 < c.machine.memory.length) :
    0 < d.machine.memory.length := by
  cases does with
  | halt | jump | pass | fail | refuse => exact cells
  | grow =>
    simp only [next, List.length_append]
    omega
  | shrink _ enough =>
    simp only [next, List.length_take]
    omega
  | call =>
    rw [Memory.length_store]
    exact cells

theorem failed {e : MachineError} (does : c.Does host tape (.error e) d calls) :
    c.machine.pc < tape.length ∧ d.machine = c.machine ∧
      ((∃ name args message, e = .host name message ∧ calls = [⟨name, args, .error message⟩]) ∨
        (∀ name message, e ≠ .host name message) ∧ d = c ∧ calls = []) := by
  cases does with
  | fail function fetched =>
    exact ⟨(List.getElem?_eq_some_iff.mp fetched).1, rfl, .inl ⟨_, _, _, rfl, rfl⟩⟩
  | refuse onTape early => exact ⟨onTape, rfl, .inr ⟨early, rfl, rfl⟩⟩

theorem inside (does : c.Does host tape result d calls) (called : calls ≠ []) {name : String}
    {inputs : List Nat} {slot : Nat}
    (fetched : tape[c.machine.pc]? = some (.call name inputs (some slot))) :
    slot < c.machine.memory.length := by
  cases does with
  | halt | jump | pass | grow | shrink | refuse => exact absurd rfl called
  | call function same inside | fail function same inside =>
    cases fetched.symm.trans same
    exact inside slot rfl

theorem freed (does : c.Does host tape (.ok .moved) d calls) {count : Nat}
    (cells : 0 < c.machine.memory.length)
    (fetched : tape[c.machine.pc]? = some (.shrink count)) :
    d.machine.memory.length + count = c.machine.memory.length := by
  cases does with
  | jump same | pass same | grow same | call function same => cases fetched.symm.trans same
  | shrink same enough =>
    cases fetched.symm.trans same
    simp only [next, List.length_take]
    omega

end Does

theorem does_of_step {result : Except MachineError Step} (stepped : c.step host tape = (result, d)) :
    c.Does host tape result d (c.stepCalls host tape) := by
  have does := does_step host tape c
  rwa [stepped] at does

theorem Reachable.length_pos (reachable : c.Reachable host tape) : 0 < c.machine.memory.length := by
  let Keeps (machine : Machine) : Prop := 0 < machine.memory.length
  have start : Keeps .fresh := Nat.one_pos
  have kept (c : Config σ) (cells : Keeps c.machine) : Keeps (c.step host tape).2.machine :=
    (does_step host tape c).length_pos cells
  exact reachable.induction start kept

theorem step_jump {condition target : Nat}
    (fetched : tape[c.machine.pc]? = some (.jump condition target))
    (taken : condition = 0 ∨ c.machine.memory[condition]? = some (.bool true)) :
    c.step host tape = (.ok .moved, c.goto target) := by
  unfold step
  rw [fetched]
  by_cases always : condition = 0
  · simp only [always, if_true]
  · have read := Memory.read_eq_ok.mpr (taken.resolve_left always)
    simp only [always, if_false, read]

/-- A failed run made its steps one after the other and stands where the next one failed. -/
theorem failed_run {patience : Nat} {limit : Option Nat} {run : Run σ} {e : MachineError}
    (ran : c.run? host tape patience limit = some run) (failed : run.ending = .error e) :
    ∃ last, Moves host tape run.steps c last ∧ last.step host tape = (.error e, run.config) := by
  have makes : c.Makes host tape limit run := exists_run?_iff.mp ⟨patience, ran⟩
  obtain ⟨last, moves, stops⟩ := makes.stops
  rw [failed] at stops
  cases stops with
  | failed _ _ stepped => exact ⟨last, moves, stepped⟩

/-- What failures at a configuration are: none is about a cell that is not there, a step that fails has
changed nothing but the world of a host function that failed, and a run that fails stands at the
instruction that failed, which is the one that its report names. -/
structure FailsCleanly (host : HostTable σ) (tape : Tape) (c : Config σ) : Prop where
  cells : 0 < c.machine.memory.length
  freed : ∀ count d, tape[c.machine.pc]? = some (.shrink count) →
    c.step host tape = (.ok .moved, d) →
      0 < d.machine.memory.length ∧ d.machine.memory.length + count = c.machine.memory.length
  stored : ∀ name inputs slot, tape[c.machine.pc]? = some (.call name inputs (some slot)) →
    c.stepCalls host tape ≠ [] → slot < c.machine.memory.length
  step : ∀ e d, c.step host tape = (.error e, d) → d.machine = c.machine ∧
    ((∃ name args message, e = .host name message ∧
        c.stepCalls host tape = [⟨name, args, .error message⟩]) ∨
      (∀ name message, e ≠ .host name message) ∧ d = c ∧ c.stepCalls host tape = [])
  run : ∀ patience limit run e, c.run? host tape patience limit = some run →
    run.ending = .error e →
      ∃ last instr, Moves host tape run.steps c last ∧
        last.step host tape = (.error e, run.config) ∧ run.config.machine = last.machine ∧
        tape[run.config.machine.pc]? = some instr ∧
        runFailure tape run = some (e.diagnostic.withNote ("at instruction " ++
          toString run.config.machine.pc ++ ": " ++ instr.text))
  beyond : ∀ condition target, tape[c.machine.pc]? = some (.jump condition target) →
    (condition = 0 ∨ c.machine.memory[condition]? = some (.bool true)) → tape.length ≤ target →
      c.step host tape = (.ok .moved, c.goto target) ∧
        (c.goto target).step host tape = (.ok .halted, c.goto target) ∧
        ∀ limit, c.world.cancelled = false →
          (c.goto target).runFor host tape limit = ⟨.ok .finished, 0, c.goto target⟩

/-- Whatever the tape, the host and what was done before, failures change nothing. -/
theorem Reachable.failsCleanly (reachable : c.Reachable host tape) : c.FailsCleanly host tape where
  cells := reachable.length_pos
  freed := by
    intro count d fetched stepped
    have does := does_of_step stepped
    exact ⟨does.length_pos reachable.length_pos, does.freed reachable.length_pos fetched⟩
  stored := by
    intro name inputs slot fetched called
    exact (does_step host tape c).inside called fetched
  step := by
    intro e d stepped
    exact (does_of_step stepped).failed.2
  run := by
    intro patience limit run e ran failed
    obtain ⟨last, moves, stepped⟩ := failed_run ran failed
    obtain ⟨onTape, same, -⟩ := (does_of_step stepped).failed
    rw [← same] at onTape
    have fetched := List.getElem?_eq_getElem onTape
    refine ⟨last, tape[run.config.machine.pc], moves, stepped, same, fetched, ?_⟩
    simp only [runFailure, failed, instructionText, fetched]
  beyond := by
    intro condition target fetched taken past
    have halted : (c.goto target).machine.halted tape = true := decide_eq_true past
    refine ⟨step_jump fetched taken, step_at_end past, ?_⟩
    intro limit going
    have going : (c.goto target).world.cancelled = false := going
    exact runFrom_halted going halted 0 limit

def brokenHost : HostTable Nat := ⟨[("boom", fun _ _ calls => ⟨.error "exploded", calls + 1, false⟩)]⟩

/-- Fails at a call once, is started again and fails there once more, with a jump past the end ahead. -/
theorem brokenHost_failsCleanly :
    ∃ c : Config Nat, c.Reachable brokenHost [.grow 1, .call "boom" [0] (some 1), .jump 0 9] ∧
      c.machine = ⟨1, [.nil, .nil]⟩ ∧ c.world.state = 2 ∧
      c.FailsCleanly brokenHost [.grow 1, .call "boom" [0] (some 1), .jump 0 9] := by
  have fresh : Reachable brokenHost [.grow 1, .call "boom" [0] (some 1), .jump 0 9]
      ⟨.fresh, ⟨0, false⟩⟩ := .fresh _
  have again := (Reachable.run 5 none fresh rfl).step
  exact ⟨_, again, rfl, rfl, again.failsCleanly⟩

end Config

end LoopTape
