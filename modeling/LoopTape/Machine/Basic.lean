import LoopTape.Host.Table
import LoopTape.Tape.Basic

/-! The machine that runs tapes.

Memory starts as one cell that is no variable's, so slot `n` is cell `n`. Each step executes the
instruction at the program counter; past the end of the tape the machine is halted. A step that fails
leaves the machine as it was.
-/

set_option autoImplicit false

namespace LoopTape

variable {σ : Type}

inductive MachineError where
  | unknownFunction (name : String)
  | slotOutOfRange (slot cells : Nat)
  | shrinkUnderflow (count available : Nat)
  | conditionNotBool (slot : Nat) (found : String)
  | host (name message : String)
  deriving Repr, DecidableEq

namespace MachineError

def message : MachineError → String
  | .unknownFunction name => "unknown function: " ++ name
  | .slotOutOfRange slot cells =>
    "slot $" ++ toString slot ++ " out of range (memory holds " ++ toString cells ++ " cells)"
  | .shrinkUnderflow count available =>
    "cannot shrink by " ++ toString count ++ ": only " ++ toString available ++ " slots allocated"
  | .conditionNotBool slot found =>
    "condition $" ++ toString slot ++ " holds " ++ found ++ ", expected bool"
  | .host name message => "host function " ++ name ++ " failed: " ++ message

def code : MachineError → String
  | .unknownFunction .. => "LL-R001"
  | .slotOutOfRange .. => "LL-R002"
  | .shrinkUnderflow .. => "LL-R003"
  | .conditionNotBool .. => "LL-R004"
  | .host .. => "LL-R005"

end MachineError

abbrev Memory := List Value

namespace Memory

def read (memory : Memory) (slot : Nat) : Except MachineError Value :=
  match memory[slot]? with
  | some value => .ok value
  | none => .error (.slotOutOfRange slot memory.length)

def readAll (memory : Memory) : List Nat → Except MachineError (List Value)
  | [] => .ok []
  | slot :: rest => do
    let value ← memory.read slot
    let values ← memory.readAll rest
    return value :: values

def checkOutput (memory : Memory) : Option Nat → Except MachineError Unit
  | none => .ok ()
  | some slot => (memory.read slot).map fun _ => ()

def store (memory : Memory) (output : Option Nat) (value : Value) : Memory :=
  match output with
  | none => memory
  | some slot => memory.set slot value

theorem length_store (memory : Memory) (output : Option Nat) (value : Value) :
    (memory.store output value).length = memory.length := by
  cases output <;> simp [store]

theorem read_eq_ok {memory : Memory} {slot : Nat} {value : Value} :
    memory.read slot = .ok value ↔ memory[slot]? = some value := by
  unfold read
  split <;> simp_all

end Memory

structure Machine where
  pc : Nat
  memory : Memory
  deriving Repr, DecidableEq

def Machine.fresh : Machine := ⟨0, [.nil]⟩

def Machine.halted (tape : Tape) (machine : Machine) : Bool := tape.length ≤ machine.pc

structure Config (σ : Type) where
  machine : Machine
  world : World σ

inductive Step where
  | moved | halted
  deriving Repr, DecidableEq

namespace Config

def goto (c : Config σ) (pc : Nat) : Config σ := ⟨⟨pc, c.machine.memory⟩, c.world⟩

def next (c : Config σ) (memory : Memory) : Config σ := ⟨⟨c.machine.pc + 1, memory⟩, c.world⟩

/-- Calls a host function: the arguments and the place of the result are checked first. -/
def call (host : HostTable σ) (name : String) (inputs : List Nat) (output : Option Nat)
    (c : Config σ) : Except MachineError Step × Config σ :=
  match host.get? name with
  | none => (.error (.unknownFunction name), c)
  | some function =>
    match c.machine.memory.readAll inputs, c.machine.memory.checkOutput output with
    | .error e, _ => (.error e, c)
    | .ok _, .error e => (.error e, c)
    | .ok args, .ok _ =>
      let reply := function args c.world.cancelled c.world.state
      let world := c.world.after reply
      match reply.result with
      | .error message => (.error (.host name message), ⟨c.machine, world⟩)
      | .ok value => (.ok .moved, ⟨⟨c.machine.pc + 1, c.machine.memory.store output value⟩, world⟩)

def step (host : HostTable σ) (tape : Tape) (c : Config σ) :
    Except MachineError Step × Config σ :=
  let memory := c.machine.memory
  match tape[c.machine.pc]? with
  | none => (.ok .halted, c)
  | some (.call name inputs output) => c.call host name inputs output
  | some (.jump condition target) =>
    if condition = 0 then (.ok .moved, c.goto target)
    else
      match memory.read condition with
      | .error e => (.error e, c)
      | .ok (.bool true) => (.ok .moved, c.goto target)
      | .ok (.bool false) => (.ok .moved, c.next memory)
      | .ok other => (.error (.conditionNotBool condition other.typeName), c)
  | some (.grow count) => (.ok .moved, c.next (memory ++ List.replicate count .nil))
  | some (.shrink count) =>
    let available := memory.length - 1
    if available < count then (.error (.shrinkUnderflow count available), c)
    else (.ok .moved, c.next (memory.take (memory.length - count)))

end Config

end LoopTape
