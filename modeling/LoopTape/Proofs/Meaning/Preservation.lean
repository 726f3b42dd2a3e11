import LoopTape.Proofs.Machine.Recorded
import LoopTape.Proofs.Meaning.Simulation

/-! Compiled tapes mean what their trees mean.

A run of the tape on a fresh machine and the interpreter on the tree make the same calls in the same
order and end alike. What a host sees is recorded in its own state, so that two runs that leave the
same state behind have made the same calls with the same results.
-/

set_option autoImplicit false

namespace LoopTape

open Config

variable {σ : Type}

theorem HostTable.NeverCancels.recorded {host : HostTable σ} (quiet : host.NeverCancels) :
    host.recorded.NeverCancels := by
  intro name function known args state
  rw [HostTable.get?_recorded] at known
  obtain ⟨original, found, rfl⟩ := Option.map_eq_some_iff.mp known
  exact quiet name original found args state.1

theorem HostTable.neverCancels_of_entries {host : HostTable σ}
    (quiet : ∀ entry ∈ host.entries, ∀ args state, (entry.2 args false state).cancels = false) :
    host.NeverCancels := by
  intro name function known
  obtain ⟨before, behind, split, _⟩ := List.lookup_eq_some_iff.mp known
  exact quiet (name, function) (split ▸ List.mem_append_right before List.mem_cons_self)

def Config.start (state : σ) : Config σ := ⟨.fresh, ⟨state, false⟩⟩

def Block.meaning (host : HostTable σ) (root : Block) (fuel : Nat) (state : σ) : Completion σ :=
  root.execute host fuel [] ⟨[], state⟩

/-- The interpreter on a tree and a run of a tape make the same calls and end alike. -/
inductive SameMeaning (host : HostTable σ) (root : Block) (tape : Tape) (state : σ) : Prop
  | finished (after : σ × List HostCall) (fuel steps : Nat)
      (tree : ∀ more, fuel ≤ more → root.meaning host.recorded more (state, []) = .done ⟨[], after⟩)
      (machine : ∀ patience, steps ≤ patience →
        (start (state, [])).run? host.recorded tape patience none =
          some ⟨.ok .finished, steps, ⟨⟨tape.length, [.nil]⟩, ⟨after, false⟩⟩⟩)
  | failed (fault : Fault) (store : Store (σ × List HostCall)) (error : MachineError)
      (fuel steps pc : Nat)
      (tree : ∀ more, fuel ≤ more →
        root.meaning host.recorded more (state, []) = .failed fault store)
      (same : fault.error? store.scopes = some error)
      (machine : ∀ patience, steps < patience →
        (start (state, [])).run? host.recorded tape patience none =
          some ⟨.error error, steps, store.config pc⟩)
  | endless
      (tree : ∀ fuel, ∃ store, root.meaning host.recorded fuel (state, []) = .unfinished store)
      (machine : ∀ patience, (start (state, [])).run? host.recorded tape patience none = none)
      (treeCalls : ∀ fuel store, root.meaning host.recorded fuel (state, []) = .unfinished store →
        ∃ steps, store.state.2 =
          ((start (state, [])).runFor host.recorded tape steps).config.world.state.2)
      (machineCalls : ∀ steps, ∃ fuel store,
        root.meaning host.recorded fuel (state, []) = .unfinished store ∧
          ((start (state, [])).runFor host.recorded tape steps).config.world.state.2 <+:
            store.state.2)

theorem Scopes.eq_nil_of_frames {scopes : Scopes} (none : scopes.frames = []) : scopes = [] := by
  cases scopes with
  | nil => rfl
  | cons scope rest => exact nomatch none

section

variable {host : HostTable σ} {root : Block} {tape : Tape} {state : σ}

/-- An interpreter that settles, and a machine that does the same. -/
theorem SameMeaning.of_settled {fuel : Nat}
    (simulated : (root.meaning host.recorded fuel (state, [])).Simulated host.recorded tape fuel
      .empty [] (start (state, [])) tape.length)
    (settled : (root.meaning host.recorded fuel (state, [])).Settled) :
    SameMeaning host root tape state := by
  have stable (more : Nat) (enough : fuel ≤ more) : root.meaning host.recorded more (state, []) =
      root.meaning host.recorded fuel (state, []) :=
    Block.execute_below root enough [] _ settled
  -- A break cannot be left over, because no loop is around a root block.
  match root.meaning host.recorded fuel (state, []), simulated, settled, stable with
  | .done ⟨scopes, after⟩, ⟨closed, steps, moves⟩, _, stable =>
    obtain rfl := Scopes.eq_nil_of_frames closed
    exact .finished after fuel steps stable fun patience enough =>
      moves.run?_finished rfl rfl enough
  | .left label store, ⟨_, target, _, found, _⟩, _, _ =>
    exact nomatch Surroundings.mem_of_target? found
  | .failed fault store, ⟨steps, d, pc, error, moves, going, fails, same⟩, _, stable =>
    exact .failed fault store error fuel steps pc stable same fun patience enough =>
      moves.run?_failed going fails enough

/-- An interpreter that uses up any amount of fuel, and a machine that is kept busy as long. -/
theorem SameMeaning.of_unfinished
    (unfinished : ∀ fuel, ∃ store,
      root.meaning host.recorded fuel (state, []) = .unfinished store)
    (busy : ∀ fuel store, root.meaning host.recorded fuel (state, []) = .unfinished store →
      ∃ n d, fuel ≤ n ∧ Moves host.recorded tape n (start (state, [])) d ∧
        d.world.state = store.state) :
    SameMeaning host root tape state := by
  refine .endless unfinished ?machine ?treeCalls ?machineCalls
  case machine =>
    apply Moves.run?_endless
    intro fuel
    obtain ⟨store, reached⟩ := unfinished fuel
    obtain ⟨n, d, enough, moves, _⟩ := busy fuel store reached
    exact ⟨n, d, enough, moves⟩
  case treeCalls =>
    intro fuel store reached
    obtain ⟨n, d, _, moves, same⟩ := busy fuel store reached
    exact ⟨n, by rw [moves.runFor_config, same]⟩
  case machineCalls =>
    -- with as much fuel as steps, the machine gets at least as far as it does in those steps
    intro steps
    obtain ⟨store, reached⟩ := unfinished steps
    obtain ⟨n, d, enough, moves, same⟩ := busy steps store reached
    obtain ⟨more, rfl⟩ := Nat.exists_eq_add_of_le enough
    obtain ⟨e, first, rest⟩ := moves.split
    refine ⟨steps, store, reached, ?_⟩
    rw [first.runFor_config, ← same]
    exact rest.calls

end

/-- For every host that never cancels a run, a compiled tape does what its tree says. -/
theorem Block.compile_sameMeaning {root : Block} {tape : Tape} (compiled : root.compile = .ok tape)
    {host : HostTable σ} (quiet : host.NeverCancels) (state : σ) :
    SameMeaning host root tape state := by
  have ordered : Surroundings.empty.Ordered := fun _ member => nomatch member
  have simulated (fuel : Nat) :
      (root.meaning host.recorded fuel (state, [])).Simulated host.recorded tape fuel .empty []
        (start (state, [])) tape.length :=
    Block.simulated quiet.recorded root (Block.occupies_of_generate compiled) rfl ordered rfl
  -- Either some fuel is enough, or the interpreter uses up any amount of it.
  by_cases settles : ∃ fuel, (root.meaning host.recorded fuel (state, [])).Settled
  · obtain ⟨fuel, settled⟩ := settles
    exact .of_settled (simulated fuel) settled
  · apply SameMeaning.of_unfinished
    · intro fuel
      have unsettled := fun settled => settles ⟨fuel, settled⟩
      cases reached : root.meaning host.recorded fuel (state, []) with
      | unfinished store => exact ⟨store, rfl⟩
      | _ => exact absurd (reached ▸ trivial) unsettled
    · intro fuel store reached
      have here := simulated fuel
      rw [reached] at here
      exact here

/-- Polls until something is there. The `found` of the inner block is not the one that is reported at
the end, which the root block declares only there. -/
def pollLoop : Block :=
  .unscoped [
    .loop (some "poll") (.unscoped [
      .call (some (.unbound "ready")) "check" [] .unknown,
      .cond (.variable (.unbound "ready"))
        (.unscoped [.call (some (.unbound "found")) "fetch" [] .unknown,
          .leave (some "poll") .unknown])
        (some (.unscoped [.call none "wait" [.variable (.unbound "ready")] .unknown]))]) .unknown,
    .call none "report" [.variable (.unbound "found")] .unknown]

def slowHost : HostTable Nat :=
  ⟨[("check", fun _ _ checks => ⟨.ok (.bool (2 ≤ checks)), checks + 1, false⟩),
    ("fetch", fun _ _ checks => ⟨.ok (.text "answer"), checks, false⟩),
    ("wait", fun _ _ checks => ⟨.ok .nil, checks, false⟩),
    ("report", fun args _ checks => ⟨.ok (args.headD .nil), checks, false⟩)]⟩

theorem pollLoop_sameMeaning :
    ∃ tape : Tape, pollLoop.compile = .ok tape ∧ slowHost.NeverCancels ∧
      SameMeaning slowHost pollLoop tape 0 := by
  have compiled : ∃ tape, pollLoop.compile = .ok tape := ⟨_, rfl⟩
  have quiet : slowHost.NeverCancels :=
    HostTable.neverCancels_of_entries (by simp [slowHost])
  obtain ⟨tape, compiled⟩ := compiled
  exact ⟨tape, compiled, quiet, Block.compile_sameMeaning compiled quiet 0⟩

example : pollLoop.meaning slowHost.recorded 3 (0, []) = .done ⟨[], 3,
    [⟨"check", [], .ok (.bool false)⟩, ⟨"wait", [.bool false], .ok .nil⟩,
      ⟨"check", [], .ok (.bool false)⟩, ⟨"wait", [.bool false], .ok .nil⟩,
      ⟨"check", [], .ok (.bool true)⟩, ⟨"fetch", [], .ok (.text "answer")⟩,
      ⟨"report", [.nil], .ok .nil⟩]⟩ := rfl

end LoopTape
