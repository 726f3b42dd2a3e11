import LoopTape.Command.Arguments
import LoopTape.Diagnostic.Record
import LoopTape.Diagnostic.Terminal
import LoopTape.Host.Prelude
import LoopTape.Json.Writing
import LoopTape.Pipeline
import LoopTape.Tape.Listing
import LoopTape.Tape.Record
import LoopTape.Tree.Layout
import LoopTape.Tree.Record

/-! What the commands do.

Commands only read the file they are given; what they print is returned. A failure is shown as a
diagnostic, after what was printed before it.
-/

set_option autoImplicit false

namespace LoopTape

inductive ReadError where
  | notFound
  | isDirectory
  | notDirectory
  | notPermitted
  | nameTooLong
  | linkLoop
  | notText
  deriving Repr, DecidableEq

def ReadError.message : ReadError → String
  | .notFound => "No such file or directory (os error 2)"
  | .isDirectory => "Is a directory (os error 21)"
  | .notDirectory => "Not a directory (os error 20)"
  | .notPermitted => "Permission denied (os error 13)"
  | .nameTooLong => "File name too long (os error 36)"
  | .linkLoop => "Too many levels of symbolic links (os error 40)"
  | .notText => "stream did not contain valid UTF-8"

def decodeText (content : ByteArray) : Except ReadError String :=
  match String.fromUTF8? content with
  | some text => .ok text
  | none => .error .notText

abbrev Files := String → Except ReadError String

structure Report where
  printed : String
  failure : Option Diagnostic

def Report.ok (printed : String) : Report := ⟨printed, none⟩

def Report.failed (d : Diagnostic) : Report := ⟨"", some d⟩

def Report.of {α : Type} (print : α → String) : Except Diagnostic α → Report
  | .ok value => .ok (print value)
  | .error d => .failed d

def readFile (files : Files) (file : String) : Except Diagnostic String :=
  (files file).mapError fun e => .error ("cannot read " ++ file ++ ": " ++ e.message)

def explain {α : Type} (source : String) (result : Except Failure α) : Except Diagnostic α :=
  result.mapError fun e => e.diagnostic.withSource source

def parseFile (files : Files) (file : String) : Except Diagnostic (String × Block) := do
  let source ← readFile files file
  let root ← explain source (parseSource source)
  return (source, root)

def compileFile (files : Files) (file : String) : Except Diagnostic Tape := do
  let (source, root) ← parseFile files file
  explain source (root.compile.mapError .compile)

def symbolicFile (files : Files) (file : String) : Except Diagnostic (List Symbolic) := do
  let (source, root) ← parseFile files file
  explain source (root.resolve.symbolic.mapError .compile)

def fmtReport (files : Files) (file : String) (annotate : Bool) : Report :=
  .of (fun (_, root) => if annotate then root.resolve.format .slots else root.format .plain)
    (parseFile files file)

def dumpReport (files : Files) (file : String) : DumpForm → Report
  | .listing => .of Tape.listing (compileFile files file)
  | .json => .of (fun tape => tape.toJson.pretty ++ "\n") (compileFile files file)
  | .symbolic =>
    .of (fun code => String.join (code.map fun instr => instr.text ++ "\n"))
      (symbolicFile files file)

def astReport (files : Files) (file : String) : Report :=
  .of (fun (_, root) => root.toJson.pretty ++ "\n") (parseFile files file)

def instructionText (tape : Tape) (index : Nat) : String :=
  match tape[index]? with
  | some instr => instr.text
  | none => "end of program"

def runFailure {σ : Type} (tape : Tape) (run : Run σ) : Option Diagnostic :=
  match run.ending with
  | .ok .finished => none
  | .ok .stepLimit =>
    some (((Diagnostic.error ("step limit reached after " ++ toString run.steps ++
      " instructions")).withCode "LL-R006").withSuggestion
        "raise --max-steps or check for a loop without a break")
  | .ok .cancelled =>
    some (.error ("cancelled after " ++ toString run.steps ++ " instructions"))
  | .error e =>
    let index := run.config.machine.pc
    some (e.diagnostic.withNote
      ("at instruction " ++ toString index ++ ": " ++ instructionText tape index))

def commandHost : HostTable String := Prelude.table fun text printed => printed ++ text

/-- Nothing if a run without a limit still goes on after `patience` steps. -/
def runReport? (files : Files) (file : String) (patience : Nat) (limit : Option Nat) :
    Option Report :=
  match compileFile files file with
  | .error d => some (.failed d)
  | .ok tape => do
    let run ← Config.run? commandHost tape patience limit ⟨.fresh, ⟨"", false⟩⟩
    return ⟨run.config.world.state, runFailure tape run⟩

def Command.report? (files : Files) (patience : Nat) : Command → Option Report
  | .run file limit => runReport? files file patience limit
  | .fmt file annotate => some (fmtReport files file annotate)
  | .dump file form => some (dumpReport files file form)
  | .ast file => some (astReport files file)

structure Outcome where
  exit : Nat
  stdout : String
  stderr : String
  deriving Repr, DecidableEq

def usage : String :=
  "Usage: looplang [--json-errors] [--no-color] <COMMAND>\n\nCommands:\n" ++
  "  run   Compile a program and run it with the built-in host functions\n" ++
  "  fmt   Print a program in canonical layout\n" ++
  "  dump  Print the compiled bytecode\n" ++
  "  ast   Print the syntax tree as JSON\n"

def Invocation.show (i : Invocation) (terminal : Bool) (d : Diagnostic) : String :=
  if i.jsonErrors then d.record ++ "\n" else d.render (terminal && !i.noColor)

def Invocation.outcome? (i : Invocation) (files : Files) (terminal : Bool) (patience : Nat) :
    Option Outcome := do
  let report ← i.command.report? files patience
  match report.failure with
  | none => return ⟨0, report.printed, ""⟩
  | some d => return ⟨1, report.printed, i.show terminal d⟩

/-- Carries out what the arguments ask for; `terminal` says whether errors go to one. There is no
outcome if a run without a limit still goes on after `patience` steps. -/
def Request.outcome? (files : Files) (terminal : Bool) (patience : Nat) : Request → Option Outcome
  | .invocation i => i.outcome? files terminal patience
  | .version => some ⟨0, "looplang 0.1.0\n", ""⟩
  | .help => some ⟨0, usage, ""⟩
  | .wrongUsage => some ⟨2, "", usage⟩

end LoopTape
