import LoopTape.Command.Execute
import LoopTape.Text.Span

/-! A directory that holds one file, as commands see it from inside.

A path is walked part by part, and the first part that leads nowhere decides the error. Around the
directory there are only the directories that it lies in.
-/

set_option autoImplicit false

namespace LoopTape

inductive Location where
  | inside
  | outside
  | file
  deriving Repr, DecidableEq

def maxPartLength : Nat := 255

def maxPathLength : Nat := 4095

/-- Goes one part further, in a directory whose one file is `name`. Nothing can follow a file, not even
the empty part after a last `/`. -/
def Location.enter (name : String) (here : Location) (part : List Char) :
    Except ReadError Location :=
  if here = .file then .error .notDirectory
  else if part = [] ∨ part = ['.'] then .ok here
  else if part = ['.', '.'] then .ok .outside
  else if maxPartLength < byteLength part then .error .nameTooLong
  else if here = .inside ∧ part = name.toList then .ok .file
  else .error .notFound

def walkPath (name path : String) : Except ReadError Location :=
  let start := if path.toList.head? = some '/' then Location.outside else .inside
  if maxPathLength < byteLength path.toList then .error .nameTooLong
  else (path.toList.splitOn '/').foldlM (Location.enter name) start

def directoryOf (name : String) (content : ByteArray) : Files := fun path => do
  match ← walkPath name path with
  | .file => decodeText content
  | .inside | .outside => .error .isDirectory

end LoopTape
