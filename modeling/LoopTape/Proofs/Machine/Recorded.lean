import LoopTape.Proofs.Machine.Moves

/-! Hosts that keep a record of their calls.

The record is a part of the host's state, so that all that is proved about a host and its state holds of
the calls as well. A host with a record answers as it does without one, and only adds to the record.
-/

set_option autoImplicit false

namespace LoopTape

variable {σ : Type}

structure HostCall where
  name : String
  args : List Value
  result : Except String Value

def HostFunction.recorded (name : String) (function : HostFunction σ) :
    HostFunction (σ × List HostCall) :=
  fun args cancelled state =>
    let reply := function args cancelled state.1
    ⟨reply.result, (reply.state, state.2 ++ [⟨name, args, reply.result⟩]), reply.cancels⟩

/-- The host that also keeps a record of all calls, the first one first. -/
def HostTable.recorded (host : HostTable σ) : HostTable (σ × List HostCall) :=
  ⟨host.entries.map fun entry => (entry.1, HostFunction.recorded entry.1 entry.2)⟩

theorem HostTable.get?_recorded (host : HostTable σ) (name : String) :
    host.recorded.get? name = (host.get? name).map (HostFunction.recorded name) := by
  obtain ⟨entries⟩ := host
  simp only [recorded, get?]
  induction entries with
  | nil => rfl
  | cons entry rest ih =>
    rw [List.map_cons, List.lookup_cons, List.lookup_cons]
    by_cases same : name = entry.1
    · simp [same]
    · rw [beq_false_of_ne same]
      exact ih

namespace Config

def withCalls (calls : List HostCall) (c : Config σ) : Config (σ × List HostCall) :=
  ⟨c.machine, ⟨(c.world.state, calls), c.world.cancelled⟩⟩

section

variable (host : HostTable σ) (tape : Tape) (c : Config σ)

theorem call_withCalls (name : String) (inputs : List Nat) (output : Option Nat) :
    ∃ made, ∀ calls, (c.withCalls calls).call host.recorded name inputs output =
      ((c.call host name inputs output).1,
        (c.call host name inputs output).2.withCalls (calls ++ made)) := by
  have nothing (calls : List HostCall) : c.withCalls calls = c.withCalls (calls ++ []) := by
    rw [List.append_nil]
  simp only [call, HostTable.get?_recorded]
  cases host.get? name with
  | none => exact ⟨[], fun calls => by simp only [Option.map_none, ← nothing]⟩
  | some function =>
    simp only [Option.map_some]
    -- A call is recorded once its arguments were read, whatever the function answers.
    cases read : c.machine.memory.readAll inputs with
    | error e => exact ⟨[], fun calls => by simp only [withCalls, read, List.append_nil]⟩
    | ok args =>
      cases checked : c.machine.memory.checkOutput output with
      | error e => exact ⟨[], fun calls => by simp only [withCalls, read, checked, List.append_nil]⟩
      | ok _ =>
        refine ⟨[⟨name, args, (function args c.world.cancelled c.world.state).result⟩], ?_⟩
        intro calls
        simp only [withCalls, read, checked, HostFunction.recorded, World.after]
        cases (function args c.world.cancelled c.world.state).result <;> rfl

theorem step_withCalls :
    ∃ made, ∀ calls, (c.withCalls calls).step host.recorded tape =
      ((c.step host tape).1, (c.step host tape).2.withCalls (calls ++ made)) := by
  have quiet (x : Except MachineError Step × Config σ) :
      ∃ made, ∀ calls, (x.1, x.2.withCalls calls) = (x.1, x.2.withCalls (calls ++ made)) :=
    ⟨[], fun calls => by rw [List.append_nil]⟩
  unfold step
  dsimp only [withCalls]
  cases tape[c.machine.pc]? with
  | none => exact quiet (.ok .halted, c)
  | some instr =>
    cases instr with
    | call name inputs output => exact call_withCalls host c name inputs output
    | jump condition target =>
      by_cases always : condition = 0
      · simp only [always, if_true]
        exact quiet (.ok .moved, c.goto target)
      · simp only [always, if_false]
        split
        · exact quiet (_, c)
        · exact quiet (_, c.goto target)
        · exact quiet (_, c.next c.machine.memory)
        · exact quiet (_, c)
    | grow count => exact quiet (.ok .moved, c.next _)
    | shrink count =>
      dsimp only
      split
      · exact quiet (_, c)
      · exact quiet (_, c.next _)

/-- A run does the same with a record, to which it adds the calls that it makes. -/
theorem runFrom_withCalls (steps left : Nat) :
    ∃ made, ∀ calls, (c.withCalls calls).runFrom host.recorded tape steps left =
      ⟨(c.runFrom host tape steps left).ending, (c.runFrom host tape steps left).steps,
        (c.runFrom host tape steps left).config.withCalls (calls ++ made)⟩ := by
  induction left generalizing steps c with
  | zero =>
    refine ⟨[], fun calls => ?_⟩
    rw [List.append_nil]
    by_cases cancelled : c.world.cancelled = true
    · rw [runFrom_cancelled cancelled, runFrom_cancelled (c := c.withCalls calls) cancelled]
    · simp [runFrom, withCalls, cancelled]
  | succ left ih =>
    by_cases cancelled : c.world.cancelled = true
    · refine ⟨[], fun calls => ?_⟩
      rw [List.append_nil]
      rw [runFrom_cancelled cancelled, runFrom_cancelled (c := c.withCalls calls) cancelled]
    · obtain ⟨made, here⟩ := step_withCalls host tape c
      have going (calls : List HostCall) : (c.withCalls calls).world.cancelled ≠ true := cancelled
      simp only [runFrom, cancelled, going, here, Bool.false_eq_true, if_false]
      cases c.step host tape with
      | mk outcome next =>
        cases outcome with
        | error e => exact ⟨made, fun calls => rfl⟩
        | ok progress =>
          cases progress with
          | halted => exact ⟨made, fun calls => rfl⟩
          | moved =>
            obtain ⟨later, behind⟩ := ih next (steps + 1)
            exact ⟨made ++ later, fun calls => by simp only [behind, List.append_assoc]⟩

/-- The calls that a run of at most `limit` steps makes, the first one first. -/
def callsFor (limit : Nat) : List HostCall :=
  ((c.withCalls []).runFor host.recorded tape limit).config.world.state.2

theorem runFor_withCalls (limit : Nat) (calls : List HostCall) :
    (c.withCalls calls).runFor host.recorded tape limit =
      ⟨(c.runFor host tape limit).ending, (c.runFor host tape limit).steps,
        (c.runFor host tape limit).config.withCalls (calls ++ c.callsFor host tape limit)⟩ := by
  obtain ⟨made, ran⟩ := runFrom_withCalls host tape c 0 limit
  have calledOnly : c.callsFor host tape limit = made := by
    rw [callsFor, runFor, ran]
    rfl
  rw [calledOnly]
  exact ran calls

end

section

variable {host : HostTable σ} {tape : Tape} {c d : Config (σ × List HostCall)}

theorem calls_step : c.world.state.2 <+: (c.step host.recorded tape).2.world.state.2 := by
  obtain ⟨made, stepped⟩ := step_withCalls host tape ⟨c.machine, ⟨c.world.state.1, c.world.cancelled⟩⟩
  exact ⟨made, (congrArg (·.2.world.state.2) (stepped c.world.state.2)).symm⟩

theorem Moves.calls {n : Nat} (moves : Moves host.recorded tape n c d) :
    c.world.state.2 <+: d.world.state.2 := by
  induction moves with
  | refl => exact List.prefix_rfl
  | @step n c d e _ made _ ih =>
    have first : c.world.state.2 <+: (c.step host.recorded tape).2.world.state.2 := calls_step
    rw [made] at first
    exact first.trans ih

end

end Config

end LoopTape
