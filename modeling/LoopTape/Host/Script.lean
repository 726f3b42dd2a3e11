import LoopTape.Host.Prelude

/-! Host functions that are given as data.

A scripted host records what was printed and which of its scripted functions were called with which
arguments, so that a run can be looked at afterwards. A sequence does what its next item does, and goes on
with the last one for ever.
-/

set_option autoImplicit false

namespace LoopTape

inductive Behavior where
  | ret (value : Value)
  | fail (message : String)
  | cancel
  | isCancelled
  | count
  | arg (index : Nat)
  | join (separator : String)
  | seq (used : Nat) (items : List Behavior)

namespace Behavior

mutual

/-- What a call results in, whether it cancels the run, and what the next call will do. -/
def act (args : List Value) (cancelled : Bool) : Behavior → Except String Value × Bool × Behavior
  | .ret value => (.ok value, false, .ret value)
  | .fail message => (.error message, false, .fail message)
  | .cancel => (.ok .nil, true, .cancel)
  | .isCancelled => (.ok (.bool cancelled), false, .isCancelled)
  | .count => (.ok (.number (.ofInt args.length)), false, .count)
  | .arg index =>
    match args[index]? with
    | some value => (.ok value, false, .arg index)
    | none => (.error ("missing arg " ++ toString index), false, .arg index)
  | .join separator => (.ok (.text (Value.join separator args)), false, .join separator)
  | .seq used items =>
    let (result, cancels, items) := actAt args cancelled (min used (items.length - 1)) items
    (result, cancels, .seq (used + 1) items)

def actAt (args : List Value) (cancelled : Bool) (index : Nat) :
    List Behavior → Except String Value × Bool × List Behavior
  | [] => (.ok .nil, false, [])
  | item :: rest =>
    match index with
    | 0 =>
      let (result, cancels, item) := act args cancelled item
      (result, cancels, item :: rest)
    | index + 1 =>
      let (result, cancels, rest) := actAt args cancelled index rest
      (result, cancels, item :: rest)

end

end Behavior

/-- The state of a scripted host. Calls are kept with the last one first. -/
structure Script where
  printed : String
  calls : List (String × List Value)
  behaviors : List (String × Behavior)

namespace Script

def emit (text : String) (script : Script) : Script :=
  { script with printed := script.printed ++ text }

def clear (script : Script) : Script := { script with printed := "", calls := [] }

def log (script : Script) : List (String × List Value) := script.calls.reverse

def setBehavior (name : String) (behavior : Behavior) (script : Script) : Script :=
  { script with behaviors := (name, behavior) :: script.behaviors.filter (·.1 ≠ name) }

def function (name : String) : HostFunction Script := fun args cancelled script =>
  let script := { script with calls := (name, args) :: script.calls }
  match script.behaviors.lookup name with
  | none => ⟨.ok .nil, script, false⟩
  | some behavior =>
    let (result, cancels, next) := behavior.act args cancelled
    ⟨result, script.setBehavior name next, cancels⟩

end Script

structure ScriptedHost where
  table : HostTable Script
  start : Script

namespace ScriptedHost

def base (prelude : Bool) : ScriptedHost :=
  ⟨if prelude then Prelude.table Script.emit else .empty, ⟨"", [], []⟩⟩

def register (host : ScriptedHost) (name : String) (behavior : Behavior) : ScriptedHost :=
  ⟨host.table.register name (Script.function name), host.start.setBehavior name behavior⟩

end ScriptedHost

end LoopTape
