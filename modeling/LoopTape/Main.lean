import LoopTape.Command.Execute

/-! The command line: reads arguments and the file they name, and prints what the command leaves. -/

set_option autoImplicit false

namespace LoopTape

def ReadError.ofSystem : IO.Error → ReadError
  -- the numbers may come with their signs turned round
  | .permissionDenied .. => .notPermitted
  | .inappropriateType _ code _ =>
    if code = 20 ∨ code = -20 then .notDirectory else .isDirectory
  | .invalidArgument _ code _ =>
    if code = 40 ∨ code = -40 then .linkLoop else .nameTooLong
  | _ => .notFound

def loadFile (file : String) : IO (Except ReadError String) := do
  try
    return decodeText (← IO.FS.readBinFile file)
  catch e => return .error (.ofSystem e)

def Command.file : Command → String
  | .run file _ | .fmt file _ | .dump file _ | .ast file => file

/-- Waits for the outcome, each time twice as long as before. -/
partial def awaitOutcome (request : Request) (files : Files) (terminal : Bool) (patience : Nat) :
    IO Outcome :=
  match request.outcome? files terminal patience with
  | some outcome => return outcome
  | none => awaitOutcome request files terminal (2 * patience)

end LoopTape

open LoopTape in
def main (args : List String) : IO UInt32 := do
  let request := Request.ofArguments args
  let content ← match request with
    | .invocation i => loadFile i.command.file
    | _ => pure (.error .notFound)
  let terminal ← (← IO.getStderr).isTty
  let outcome ← awaitOutcome request (fun _ => content) terminal (Nat.pow 2 62)
  IO.print outcome.stdout
  IO.eprint outcome.stderr
  return outcome.exit.toUInt32
