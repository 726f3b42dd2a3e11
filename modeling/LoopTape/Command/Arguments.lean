/-! The arguments of the command line.

    [--json-errors] [--no-color] run FILE [--max-steps N]
                               | fmt FILE [--annotate]
                               | dump FILE [--json | --ir]
                               | ast FILE
                               | help [COMMAND]

The two options in front may also stand after the command. Options may stand on both sides of the
file, and after `--` everything is a file. No option may be repeated.
-/

set_option autoImplicit false

namespace LoopTape

inductive DumpForm where
  | listing | json | symbolic
  deriving Repr, DecidableEq

inductive Command where
  | run (file : String) (maxSteps : Option Nat)
  | fmt (file : String) (annotate : Bool)
  | dump (file : String) (form : DumpForm)
  | ast (file : String)
  deriving Repr, DecidableEq

structure Invocation where
  jsonErrors : Bool
  noColor : Bool
  command : Command
  deriving Repr, DecidableEq

inductive Request where
  | invocation (i : Invocation)
  | version
  | help
  | wrongUsage
  deriving Repr, DecidableEq

/-- The options that every command takes; each stands at most once on either side of the command. -/
structure Globals where
  jsonErrors : Bool
  noColor : Bool
  deriving Repr, DecidableEq

def Globals.empty : Globals := ⟨false, false⟩

def Globals.or (a b : Globals) : Globals :=
  ⟨a.jsonErrors || b.jsonErrors, a.noColor || b.noColor⟩

def Globals.add? (g : Globals) (arg : String) : Option Globals :=
  if arg = "--json-errors" ∧ !g.jsonErrors then some { g with jsonErrors := true }
  else if arg = "--no-color" ∧ !g.noColor then some { g with noColor := true }
  else none

inductive Verb where
  | run | fmt | dump | ast
  deriving Repr, DecidableEq

def Verb.ofName? : String → Option Verb
  | "run" => some .run
  | "fmt" => some .fmt
  | "dump" => some .dump
  | "ast" => some .ast
  | _ => none

structure Operands where
  globals : Globals
  file : Option String
  maxSteps : Option Nat
  annotate : Bool
  json : Bool
  symbolic : Bool
  deriving Repr, DecidableEq

def Operands.empty : Operands := ⟨.empty, none, none, false, false, false⟩

/-- A number of steps: digits after an optional plus sign, below 2^64. -/
def steps? (text : String) : Option Nat :=
  let digits :=
    match text.toList with
    | '+' :: rest => rest
    | chars => chars
  if !digits.isEmpty && digits.all Char.isDigit then
    let value := digits.foldl (fun n c => n * 10 + (c.toNat - 48)) 0
    if value < Nat.pow 2 64 then some value else none
  else none

def Operands.withFile? (o : Operands) (file : String) : Option Operands :=
  if o.file.isNone && file ≠ "" then some { o with file := some file } else none

def Operands.withSteps? (o : Operands) (text : String) : Option Operands := do
  let steps ← steps? text
  if o.maxSteps.isNone then return { o with maxSteps := some steps } else none

def Operands.add? (verb : Verb) (o : Operands) (arg : String) : Option Operands :=
  if arg = "--annotate" ∧ verb = .fmt ∧ !o.annotate then some { o with annotate := true }
  else if arg = "--json" ∧ verb = .dump ∧ !o.json then some { o with json := true }
  else if arg = "--ir" ∧ verb = .dump ∧ !o.symbolic then some { o with symbolic := true }
  else if arg.toList.head? = some '-' ∧ arg ≠ "-" then
    (o.globals.add? arg).map fun globals => { o with globals }
  else o.withFile? arg

def Operands.command? (verb : Verb) (o : Operands) : Option Command := do
  let file ← o.file
  match verb with
  | .run => return .run file o.maxSteps
  | .fmt => return .fmt file o.annotate
  | .dump =>
    if o.json && o.symbolic then none
    else return .dump file (if o.json then .json else if o.symbolic then .symbolic else .listing)
  | .ast => return .ast file

def Operands.request (outer : Globals) (verb : Verb) (o : Operands) : Request :=
  match o.command? verb with
  | some command =>
    let globals := outer.or o.globals
    .invocation ⟨globals.jsonErrors, globals.noColor, command⟩
  | none => .wrongUsage

def isHelp (arg : String) : Bool := arg = "--help" || "-h".isPrefixOf arg

/-- Whether an argument is the option for the limit joined to its value; the value if it is. -/
def joinedSteps? (arg : String) : Option String :=
  let option := "--max-steps=".toList
  if option.isPrefixOf arg.toList then some (String.ofList (arg.toList.drop option.length))
  else none

def readFiles (outer : Globals) (verb : Verb) (o : Operands) : List String → Request
  | [] => o.request outer verb
  | arg :: rest =>
    match o.withFile? arg with
    | some o => readFiles outer verb o rest
    | none => .wrongUsage

def readOperands (outer : Globals) (verb : Verb) (o : Operands) : List String → Request
  | [] => o.request outer verb
  | arg :: rest =>
    if arg = "--" then readFiles outer verb o rest
    else if isHelp arg then .help
    else if arg = "--max-steps" ∧ verb = .run then
      match rest with
      | [] => .wrongUsage
      | value :: rest =>
        match o.withSteps? value with
        | some o => readOperands outer verb o rest
        | none => .wrongUsage
    else
      let next :=
        match joinedSteps? arg with
        | some value => if verb = .run then o.withSteps? value else none
        | none => o.add? verb arg
      match next with
      | some o => readOperands outer verb o rest
      | none => .wrongUsage

/-- Reads the arguments after `help`: at most the name of one command, `help` among them. -/
def readTopic : List String → Request
  | [] => .help
  | [name] => if name = "help" || (Verb.ofName? name).isSome then .help else .wrongUsage
  | _ => .wrongUsage

def readArguments (globals : Globals) : List String → Request
  | [] => .wrongUsage
  | arg :: rest =>
    if arg = "--version" || "-V".isPrefixOf arg then .version
    else if isHelp arg then .help
    else if arg = "help" then readTopic rest
    else
      match Verb.ofName? arg with
      | some verb => readOperands globals verb .empty rest
      | none =>
        match globals.add? arg with
        | some globals => readArguments globals rest
        | none => .wrongUsage

def Request.ofArguments (args : List String) : Request := readArguments .empty args

end LoopTape
