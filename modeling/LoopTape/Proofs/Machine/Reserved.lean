import LoopTape.Host.Prelude
import LoopTape.Proofs.Machine.Failing
import LoopTape.Proofs.Machine.Safety

/-! What becomes of the reserved cell.

The cell is never freed, and as the condition of a jump slot 0 is not read at all. As the place of a
result, though, slot 0 is a cell like the others: a call that names it stores there. Tapes of compiled
trees have no such call, but a tape may be given in other ways. On every tape these calls are the only
instructions that change the cell.
-/

set_option autoImplicit false

namespace LoopTape

variable {σ : Type} {host : HostTable σ} {tape : Tape}

def Instr.storesReserved : Instr → Bool
  | .call _ _ output => output = some 0
  | .jump .. | .grow .. | .shrink .. => false

theorem Memory.store_elsewhere {memory : Memory} {output : Option Nat} (value : Value)
    (elsewhere : output ≠ some 0) : (memory.store output value)[0]? = memory[0]? := by
  apply store_reserved
  intro slot member
  obtain rfl := Option.mem_toList.mp member
  exact Nat.pos_of_ne_zero fun zero => elsewhere (congrArg some zero)

namespace Config

variable {c d : Config σ} {result : Except MachineError Step} {calls : List HostCall}

namespace Does

/-- No instruction but a call that names it changes the reserved cell. -/
theorem reserved (does : c.Does host tape result d calls) (cells : 0 < c.machine.memory.length)
    (elsewhere : ∀ instr, tape[c.machine.pc]? = some instr → instr.storesReserved = false) :
    d.machine.memory[0]? = c.machine.memory[0]? := by
  cases does with
  | halt | jump | pass | fail | refuse => rfl
  | grow => exact List.getElem?_append_left cells
  | shrink _ enough => exact List.getElem?_take_of_lt (by omega)
  | @call _ name inputs output args value fetched =>
    have other : output ≠ some 0 := by simpa [Instr.storesReserved] using elsewhere _ fetched
    exact Memory.store_elsewhere value other

theorem stored (does : c.Does host tape (.ok .moved) d calls) {name : String} {inputs : List Nat}
    (fetched : tape[c.machine.pc]? = some (.call name inputs (some 0))) :
    ∃ args value, calls = [⟨name, args, .ok value⟩] ∧ d.machine.memory[0]? = some value := by
  cases does with
  | jump same | pass same | grow same | shrink same => cases fetched.symm.trans same
  | @call _ _ _ _ args value same inside =>
    cases fetched.symm.trans same
    exact ⟨args, value, rfl, List.getElem?_set_self (inside 0 rfl)⟩

end Does

theorem Reachable.reserved (unused : ∀ instr ∈ tape, instr.storesReserved = false)
    (reachable : c.Reachable host tape) : c.machine.memory[0]? = some .nil := by
  let Keeps (machine : Machine) : Prop := machine.memory[0]? = some .nil
  have kept (c : Config σ) (empty : Keeps c.machine) : Keeps (c.step host tape).2.machine := by
    have cells : 0 < c.machine.memory.length := (List.getElem?_eq_some_iff.mp empty).1
    have same := (does_step host tape c).reserved cells fun instr fetched =>
      unused instr (List.mem_of_getElem? fetched)
    exact same.trans empty
  have fresh : Keeps .fresh := rfl
  exact reachable.induction fresh kept

/-- What holds of the reserved cell at a configuration: it is there, and it is empty unless the tape has
a call that names it. A step changes it at such a call only, and then to what the function answered. -/
structure ReservedCell (host : HostTable σ) (tape : Tape) (c : Config σ) : Prop where
  cell : 0 < c.machine.memory.length
  empty : (∀ instr ∈ tape, instr.storesReserved = false) → c.machine.memory[0]? = some .nil
  kept : ∀ result d, c.step host tape = (result, d) →
    (∀ instr, tape[c.machine.pc]? = some instr → instr.storesReserved = false) →
      d.machine.memory[0]? = c.machine.memory[0]?
  stored : ∀ name inputs d, tape[c.machine.pc]? = some (.call name inputs (some 0)) →
    c.step host tape = (.ok .moved, d) →
      ∃ args value, c.stepCalls host tape = [⟨name, args, .ok value⟩] ∧
        d.machine.memory[0]? = some value

/-- Whatever the tape, the host and what was done before, the reserved cell is not freed, and only the
results of calls that name it get there. -/
theorem Reachable.reservedCell (reachable : c.Reachable host tape) : c.ReservedCell host tape where
  cell := reachable.length_pos
  empty := fun unused => reachable.reserved unused
  kept := by
    intro result d stepped elsewhere
    exact (does_of_step stepped).reserved reachable.length_pos elsewhere
  stored := by
    intro name inputs d fetched stepped
    exact (does_of_step stepped).stored fetched

/-- Stores a truth value in the reserved cell, and then frees all that there is to free. -/
def overwriting : Tape := [.grow 2, .call "true" [] (some 0), .shrink 2]

theorem overwriting_reservedCell :
    ∃ c : Config Unit, c.Reachable (Prelude.table fun _ state => state) overwriting ∧
      c.machine = ⟨3, [.bool true]⟩ ∧
      c.ReservedCell (Prelude.table fun _ state => state) overwriting := by
  have fresh : Reachable (Prelude.table fun _ state => state) overwriting ⟨.fresh, ⟨(), false⟩⟩ :=
    .fresh _
  have done := Reachable.run 5 none fresh rfl
  exact ⟨_, done, rfl, done.reservedCell⟩

/-- The reserved cell does not stay empty on every tape. -/
theorem reserved_overwritten :
    ¬ ∀ (host : HostTable Unit) (tape : Tape) (c : Config Unit), c.Reachable host tape →
      c.machine.memory[0]? = some .nil := by
  intro empty
  have fresh : Reachable (Prelude.table fun _ state => state) [.call "true" [] (some 0)]
      ⟨.fresh, ⟨(), false⟩⟩ := .fresh _
  have found : some (Value.bool true) = some .nil := empty _ _ _ fresh.step
  cases found

end Config

end LoopTape
