import LoopTape.Machine.Run

/-! Several machines that share a tape and a world.

One machine at a time is the current one. Each keeps its own memory and program counter; what their
calls do to the host's state, and whether they were cancelled, all of them see.
-/

set_option autoImplicit false

namespace LoopTape

variable {σ : Type}

structure Session (σ : Type) where
  machines : List Machine
  current : Nat
  world : World σ

namespace Session

def start (state : σ) : Session σ := ⟨[.fresh], 0, ⟨state, false⟩⟩

/-- The current machine; a machine that was never selected is a fresh one. -/
def machine (s : Session σ) : Machine := s.machines[s.current]?.getD .fresh

def config (s : Session σ) : Config σ := ⟨s.machine, s.world⟩

def update (s : Session σ) (c : Config σ) : Session σ :=
  { s with machines := s.machines.set s.current c.machine, world := c.world }

def step (host : HostTable σ) (tape : Tape) (s : Session σ) :
    Except MachineError Step × Session σ :=
  let (result, c) := s.config.step host tape
  (result, s.update c)

def run? (host : HostTable σ) (tape : Tape) (patience : Nat) (limit : Option Nat)
    (s : Session σ) : Option (Except MachineError Ending × Nat × Session σ) := do
  let run ← s.config.run? host tape patience limit
  return (run.ending, run.steps, s.update run.config)

def setCancelled (s : Session σ) (cancelled : Bool) : Session σ :=
  { s with world := ⟨s.world.state, cancelled⟩ }

/-- Makes a machine the current one, with fresh machines up to it where there are none. -/
def select (s : Session σ) (index : Nat) : Session σ :=
  let missing := index + 1 - s.machines.length
  { s with machines := s.machines ++ List.replicate missing .fresh, current := index }

end Session

end LoopTape
