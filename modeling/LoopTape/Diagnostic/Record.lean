import LoopTape.Diagnostic.Basic
import LoopTape.Json.Writing
import LoopTape.Text.Position

/-! Diagnostics as JSON objects on one line.

Labels have a line and a column if the source is known. A code or suggestion that is missing is left
out.
-/

set_option autoImplicit false

namespace LoopTape

def Label.toJson (source : Option String) (label : Label) : Json :=
  let place :=
    match source with
    | some source =>
      let position := locate source.toList label.span.start
      [("line", Json.ofNat position.line), ("col", Json.ofNat position.column)]
    | none => []
  .obj ([("start", .ofNat label.span.start), ("end", .ofNat label.span.stop),
    ("message", .str label.message), ("primary", .bool label.primary)] ++ place)

def optionalMember (name : String) (value : Option String) : List (String × Json) :=
  value.toList.map fun text => (name, .str text)

namespace Diagnostic

def toJson (d : Diagnostic) : Json :=
  .obj ([("severity", .str "error")] ++ optionalMember "code" d.code ++
    [("message", .str d.message), ("labels", .arr (d.labels.map (Label.toJson d.source))),
      ("notes", .arr (d.notes.map .str))] ++ optionalMember "suggestion" d.suggestion)

def record (d : Diagnostic) : String := d.toJson.compact

end Diagnostic

end LoopTape
