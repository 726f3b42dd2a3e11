import LoopTape.Host.Value
import LoopTape.Text.Quoted

/-! Host functions: the only way in which a program reaches the world outside its memory.

A host keeps a state of its own, of any type `σ`. A function sees its arguments, that state and
whether the run was cancelled; it answers with a value or an error message, and may cancel the run.
-/

set_option autoImplicit false

namespace LoopTape

variable {σ : Type}

structure Reply (σ : Type) where
  result : Except String Value
  state : σ
  cancels : Bool

abbrev HostFunction (σ : Type) := List Value → Bool → σ → Reply σ

/-- The host's state and the flag that asks a run to stop. The flag is never taken back. -/
structure World (σ : Type) where
  state : σ
  cancelled : Bool

def World.after (world : World σ) (reply : Reply σ) : World σ :=
  ⟨reply.state, world.cancelled || reply.cancels⟩

/-- Functions by name, at most one of each name. -/
structure HostTable (σ : Type) where
  entries : List (String × HostFunction σ)

namespace HostTable

def empty : HostTable σ := ⟨[]⟩

def register (table : HostTable σ) (name : String) (function : HostFunction σ) : HostTable σ :=
  ⟨(name, function) :: table.entries.filter (·.1 ≠ name)⟩

def get? (table : HostTable σ) (name : String) : Option (HostFunction σ) :=
  table.entries.lookup name

def contains (table : HostTable σ) (name : String) : Bool := (table.get? name).isSome

def names (table : HostTable σ) : List String :=
  (table.entries.map Prod.fst).mergeSort (fun a b => a ≤ b)

def summary (table : HostTable σ) : String :=
  "HostFunctions \x7b names: [" ++ ", ".intercalate (table.names.map quoted) ++ "] \x7d"

end HostTable

end LoopTape
