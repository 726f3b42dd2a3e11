import LoopTape.Diagnostic.Basic
import LoopTape.Machine.Run
import LoopTape.Symbolic.Linking

/-! From source text to a run. -/

set_option autoImplicit false

namespace LoopTape

inductive Failure where
  | lex (e : LexError)
  | parse (e : ParseError)
  | compile (e : CompileError)
  | run (e : MachineError)
  deriving Repr, DecidableEq

namespace Failure

def message : Failure → String
  | .lex e => e.message
  | .parse e => e.message
  | .compile e => e.message
  | .run e => e.message

def diagnostic : Failure → Diagnostic
  | .lex e => e.diagnostic
  | .parse e => e.diagnostic
  | .compile e => e.diagnostic
  | .run e => e.diagnostic

end Failure

def parseSource (source : String) : Except Failure Block := do
  let tokens ← (lex source).mapError .lex
  (parse tokens).mapError .parse

def compileSource (source : String) : Except Failure Tape := do
  let root ← parseSource source
  root.compile.mapError .compile

variable {σ : Type}

/-- A source compiled and run on a fresh machine. There is no answer if a run without a limit still
goes on after `patience` steps. -/
def runSource (source : String) (host : HostTable σ) (world : World σ) (patience : Nat)
    (limit : Option Nat) : Except Failure (Option (Run σ)) := do
  let tape ← compileSource source
  return Config.run? host tape patience limit ⟨.fresh, world⟩

end LoopTape
