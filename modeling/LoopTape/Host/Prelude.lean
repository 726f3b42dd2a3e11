import LoopTape.Host.Table

/-! The functions that every program can call: the two truth values, logic, equality and printing. -/

set_option autoImplicit false

namespace LoopTape.Prelude

variable {σ : Type}

inductive Refusal where
  | wrongCount (expected found : Nat)
  | notBool (found : String)
  deriving Repr, DecidableEq

def Refusal.message (function : String) : Refusal → String
  | .wrongCount expected found =>
    function ++ ": expected " ++ toString expected ++ " args, got " ++ toString found
  | .notBool found => function ++ " requires bool, got " ++ found

def asBool : Value → Except Refusal Bool
  | .bool value => .ok value
  | other => .error (.notBool other.typeName)

def constant (value : Bool) : List Value → Except Refusal Bool
  | [] => .ok value
  | args => .error (.wrongCount 0 args.length)

def negation : List Value → Except Refusal Bool
  | [a] => (!·) <$> asBool a
  | args => .error (.wrongCount 1 args.length)

def conjunction : List Value → Except Refusal Bool
  | [a, b] => do if ← asBool a then asBool b else return false
  | args => .error (.wrongCount 2 args.length)

def disjunction : List Value → Except Refusal Bool
  | [a, b] => do if ← asBool a then return true else asBool b
  | args => .error (.wrongCount 2 args.length)

def equality : List Value → Except Refusal Bool
  | [a, b] => .ok (a.equal b)
  | args => .error (.wrongCount 2 args.length)

def decision (name : String) (test : List Value → Except Refusal Bool) :
    String × HostFunction σ :=
  (name, fun args _ state =>
    ⟨match test args with
      | .ok value => .ok (.bool value)
      | .error refusal => .error (refusal.message name), state, false⟩)

/-- Prints its arguments on a line, with a space between them; `emit` adds text to what the host has
printed. -/
def print (emit : String → σ → σ) : HostFunction σ :=
  fun args _ state => ⟨.ok .nil, emit (Value.join " " args ++ "\n") state, false⟩

def table (emit : String → σ → σ) : HostTable σ :=
  ⟨[decision "true" (constant true),
    decision "false" (constant false),
    decision "not" negation,
    decision "and" conjunction,
    decision "or" disjunction,
    decision "eq" equality,
    ("print", print emit)]⟩

end LoopTape.Prelude
