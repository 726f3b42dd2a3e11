import LoopTape.Proofs.Machine.Reachable
import LoopTape.Proofs.Scope.Slots

/-! A machine never leaves its memory on a compiled tape.

The number of slots that the tape has allocated at an index is the number of cells above the reserved
one whenever a machine gets there. Every step keeps this, also one that fails, so that each slot that
an instruction names is a cell and no more cells are freed than there are.
-/

set_option autoImplicit false

namespace LoopTape

variable {σ : Type} {host : HostTable σ} {tape : Tape} {depth : Nat → Nat}

def MachineError.ofMemory : MachineError → Bool
  | .slotOutOfRange .. | .shrinkUnderflow .. => true
  | .unknownFunction .. | .conditionNotBool .. | .host .. => false

theorem noFault (made : Step) (e : MachineError) (failed : Except.ok made = Except.error e) :
    e.ofMemory = false := by
  simp at failed

theorem Memory.read_of_lt {memory : Memory} {slot : Nat} (inside : slot < memory.length) :
    ∃ value, memory.read slot = .ok value :=
  ⟨memory[slot], read_eq_ok.mpr (List.getElem?_eq_getElem inside)⟩

theorem Memory.readAll_of_lt {memory : Memory} {slots : List Nat}
    (inside : ∀ slot ∈ slots, slot < memory.length) :
    ∃ values, memory.readAll slots = .ok values := by
  induction slots with
  | nil => exact ⟨[], rfl⟩
  | cons slot rest ih =>
    obtain ⟨here, others⟩ := List.forall_mem_cons.mp inside
    obtain ⟨value, first⟩ := read_of_lt here
    obtain ⟨values, later⟩ := ih others
    exact ⟨value :: values, by rw [readAll, first]; simp only [later]; rfl⟩

theorem Memory.checkOutput_of_lt {memory : Memory} {output : Option Nat}
    (inside : ∀ slot ∈ output.toList, slot < memory.length) : memory.checkOutput output = .ok () := by
  cases output with
  | none => rfl
  | some slot =>
    obtain ⟨value, there⟩ := read_of_lt (inside slot (by simp))
    simp only [checkOutput, there]
    rfl

/-- Only the reserved cell has index 0, and nothing is stored there. -/
theorem Memory.store_reserved {memory : Memory} {output : Option Nat} (value : Value)
    (positive : ∀ slot ∈ output.toList, 0 < slot) : (memory.store output value)[0]? = memory[0]? := by
  cases output with
  | none => rfl
  | some slot => exact List.getElem?_set_ne (Nat.ne_of_gt (positive slot (by simp)))

/-- The machine is on the tape or at its end, it has the reserved cell and one for each slot
allocated there, and the reserved cell was never stored to. -/
structure Machine.Fits (tape : Tape) (depth : Nat → Nat) (machine : Machine) : Prop where
  onTape : machine.pc ≤ tape.length
  cells : machine.memory.length = 1 + depth machine.pc
  reserved : machine.memory[0]? = some .nil

theorem Config.call_fits {name : String} {inputs : List Nat} {output : Option Nat} {c : Config σ}
    (fits : c.machine.Fits tape depth) (more : c.machine.pc < tape.length)
    (sound : (Instr.call name inputs output).SoundAt tape.length depth SlotUsed c.machine.pc) :
    (c.call host name inputs output).2.machine.Fits tape depth ∧
      ∀ e, (c.call host name inputs output).1 = .error e → e.ofMemory = false := by
  -- All slots of the call are allocated here, so neither reading nor storing can miss.
  have cell (slot : Nat) (used : slot ∈ inputs ++ output.toList) : slot < c.machine.memory.length := by
    have := (sound.uses slot used).2
    have := fits.cells
    omega
  obtain ⟨args, read⟩ := Memory.readAll_of_lt fun slot member =>
    cell slot (List.mem_append_left _ member)
  have checked := Memory.checkOutput_of_lt fun slot member =>
    cell slot (List.mem_append_right _ member)
  unfold call
  cases host.get? name with
  | none => exact ⟨fits, fun e failed => by cases failed; rfl⟩
  | some function =>
    simp only [read, checked]
    split
    · exact ⟨fits, fun e failed => by cases failed; rfl⟩
    · next value _ =>
      refine ⟨⟨more, ?_, ?_⟩, noFault _⟩
      · rw [Memory.length_store, fits.cells]
        exact congrArg (1 + ·) sound.respects.symm
      · rw [Memory.store_reserved value fun slot member =>
          (sound.uses slot (List.mem_append_right _ member)).1]
        exact fits.reserved

/-- A step keeps the machine in its memory, and does not fail because of it. -/
theorem Config.step_fits (sound : tape.SoundIn depth SlotUsed 0 tape.length) {c : Config σ}
    (fits : c.machine.Fits tape depth) :
    (c.step host tape).2.machine.Fits tape depth ∧
      ∀ e, (c.step host tape).1 = .error e → e.ofMemory = false := by
  unfold step
  cases fetched : tape[c.machine.pc]? with
  | none => exact ⟨fits, noFault _⟩
  | some instr =>
    have more := (List.getElem?_eq_some_iff.mp fetched).1
    have here := sound c.machine.pc instr (Nat.zero_le _) more fetched
    have cells := fits.cells
    cases instr with
    | call name inputs output => exact call_fits fits more here
    | jump condition target =>
      obtain ⟨⟨goal, next⟩, inside, uses⟩ := here
      have jumped : (c.goto target).machine.Fits tape depth :=
        ⟨inside target rfl, cells.trans (congrArg (1 + ·) goal.symm), fits.reserved⟩
      dsimp only
      by_cases always : condition = 0
      · rw [if_pos always]
        exact ⟨jumped, noFault _⟩
      -- The condition goes to one of two places. Slot 0 is no condition and is not read.
      · have stayed : (c.next c.machine.memory).machine.Fits tape depth :=
          ⟨more, cells.trans (congrArg (1 + ·) (next always).symm), fits.reserved⟩
        have used := uses condition (by simp [Instr.slots, always])
        obtain ⟨value, read⟩ : ∃ value, c.machine.memory.read condition = .ok value :=
          Memory.read_of_lt (by have := used.2; omega)
        rw [if_neg always, read]
        split
        · next failed => simp at failed
        · exact ⟨jumped, noFault _⟩
        · exact ⟨stayed, noFault _⟩
        · exact ⟨fits, fun e failed => by cases failed; rfl⟩
    | grow count =>
      refine ⟨⟨more, ?_, ?_⟩, noFault _⟩
      · have respects : depth (c.machine.pc + 1) = _ := here.respects
        simp only [next, List.length_append, List.length_replicate]
        omega
      · exact (List.getElem?_append_left (by omega)).trans fits.reserved
    | shrink count =>
      obtain ⟨enough, respects⟩ := here.respects
      dsimp only
      rw [if_neg (by omega)]
      refine ⟨⟨more, ?_, ?_⟩, noFault _⟩
      · simp only [next, List.length_take]
        omega
      · exact (List.getElem?_take_of_lt (by omega)).trans fits.reserved

/-- What memory safety asks of a configuration: as many cells as the index tells, the reserved one
untouched, no error about memory in the next step, and nothing left behind at the end. -/
structure Config.MemorySafe (host : HostTable σ) (tape : Tape) (cellsAt : Nat → Nat)
    (c : Config σ) : Prop where
  cells : c.machine.memory.length = cellsAt c.machine.pc
  reserved : c.machine.memory[0]? = some .nil
  nextStep : ∀ e, (c.step host tape).1 = .error e → e.ofMemory = false
  finished : c.machine.halted tape = true →
    c.machine.pc = tape.length ∧ c.machine.memory = [.nil]

theorem Machine.Fits.memorySafe (sound : tape.SoundIn depth SlotUsed 0 tape.length)
    (balanced : tape.Balanced depth) {c : Config σ} (fits : c.machine.Fits tape depth) :
    c.MemorySafe host tape (1 + depth ·) := by
  refine ⟨fits.cells, fits.reserved, (Config.step_fits sound fits).2, ?_⟩
  intro halted
  have past : tape.length ≤ c.machine.pc := by simpa [Machine.halted] using halted
  have finish : c.machine.pc = tape.length := Nat.le_antisymm fits.onTape past
  -- At the end no slot is allocated, so the reserved cell is the only one.
  have one : c.machine.memory.length = 1 := by rw [fits.cells, finish, balanced.finish]
  obtain ⟨value, single⟩ := List.length_eq_one_iff.mp one
  have reserved := fits.reserved
  rw [single] at reserved
  exact ⟨finish, single.trans (congrArg (fun v => [v]) (Option.some.inj reserved))⟩

/-- Whatever the host does and however the machine is stepped, run, cancelled and started again, it
stays safe, with no more cells than the reserved one and those up to the highest slot. -/
theorem Block.compile_memorySafe {root : Block} {tape : Tape} (compiled : root.compile = .ok tape) :
    ∃ cellsAt : Nat → Nat, (∀ pc, cellsAt pc ≤ 1 + root.peakSlot) ∧
      ∀ {σ : Type} (host : HostTable σ) (c : Config σ), c.Reachable host tape →
        c.MemorySafe host tape cellsAt := by
  have balanced := Block.balanced_of_generate compiled
  obtain ⟨start, sound⟩ := Block.sound_of_generate compiled SlotUsed
    (Block.slotUses_bind root [] Frames.stacked_nil)
  refine ⟨(1 + root.resolve.depthAt ·), ?_, ?_⟩
  · intro pc
    exact Nat.add_le_add_left (Block.depthAt_resolve_le root pc) 1
  · intro σ host c reachable
    have fresh : Machine.fresh.Fits tape root.resolve.depthAt :=
      ⟨Nat.zero_le _, by rw [show Machine.fresh.pc = 0 from rfl, start]; rfl, rfl⟩
    have fits : c.machine.Fits tape root.resolve.depthAt :=
      reachable.induction fresh fun _ fits => (Config.step_fits sound fits).1
    exact fits.memorySafe sound balanced

/-- Looks for an item that is accepted and keeps it, with a break out of two blocks. -/
def firstAccepted : Block :=
  .unscoped [.call (some (.unbound "item")) "next" [] .unknown,
    .loop none (.unscoped [
      .call (some (.unbound "good")) "accepts" [.variable (.unbound "item")] .unknown,
      .cond (.variable (.unbound "good")) (.unscoped [
        .call (some (.unbound "copy")) "keep" [.variable (.unbound "item")] .unknown,
        .leave none .unknown]) none,
      .call (some (.unbound "item")) "next" [] .unknown]) .unknown]

theorem firstAccepted_memorySafe :
    ∃ tape : Tape, firstAccepted.compile = .ok tape ∧ tape.length = 15 ∧
      ∃ cellsAt : Nat → Nat, (∀ pc, cellsAt pc ≤ 4) ∧
        ∀ {σ : Type} (host : HostTable σ) (c : Config σ), c.Reachable host tape →
          c.MemorySafe host tape cellsAt := by
  have compiled : firstAccepted.compile = .ok [.grow 1, .call "next" [] (some 1), .grow 1,
      .call "accepts" [1] (some 2), .jump 2 6, .jump 0 11, .grow 1, .call "keep" [1] (some 3),
      .shrink 1, .jump 0 13, .shrink 1, .call "next" [] (some 1), .jump 0 3, .shrink 1,
      .shrink 1] := rfl
  exact ⟨_, compiled, rfl, Block.compile_memorySafe compiled⟩

end LoopTape
