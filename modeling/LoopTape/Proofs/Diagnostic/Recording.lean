import LoopTape.Diagnostic.Record
import LoopTape.Proofs.Diagnostic.Carets
import LoopTape.Proofs.Json.ReadBack
import Mathlib.Data.List.Forall2

/-! Diagnostics that are read back from their records.

A record is one line, whatever the texts in it are, since controls are escaped. Reading it gives the parts
of the diagnostic and, for each label, the position of its span if there is a text to look it up in. The
rendering for a terminal shows the same position.
-/

set_option autoImplicit false

namespace LoopTape

namespace Json

def Printable (text : String) : Prop := ∀ c ∈ text.toList, 32 ≤ c.toNat

@[simp] theorem printable_append (a b : String) :
    Printable (a ++ b) ↔ Printable a ∧ Printable b := by
  simp only [Printable, String.toList_append, List.forall_mem_append]

end Json

structure Label.RecordedAs (source : Option String) (label : Label) (value : Json) : Prop where
  object : ∃ members, value = .obj members ∧ (members.map Prod.fst).Nodup
  start : value.get? "start" = some (.ofNat label.span.start)
  stop : value.get? "end" = some (.ofNat label.span.stop)
  message : value.get? "message" = some (.str label.message)
  primary : value.get? "primary" = some (.bool label.primary)
  line : value.get? "line" =
    source.map fun text => .ofNat (locate text.toList label.span.start).line
  column : value.get? "col" =
    source.map fun text => .ofNat (locate text.toList label.span.start).column

/-- What an object says about a diagnostic; `labels` are the records of its labels. -/
structure Diagnostic.RecordedAs (d : Diagnostic) (value : Json) (labels : List Json) : Prop where
  object : ∃ members, value = .obj members ∧ (members.map Prod.fst).Nodup
  message : value.get? "message" = some (.str d.message)
  code : value.get? "code" = d.code.map .str
  suggestion : value.get? "suggestion" = d.suggestion.map .str
  notes : value.get? "notes" = some (.arr (d.notes.map .str))
  listed : value.get? "labels" = some (.arr labels)
  each : List.Forall₂ (Label.RecordedAs d.source) d.labels labels

theorem Label.whole_toJson (source : Option String) (label : Label) : (label.toJson source).Whole := by
  cases source
  case none => exact ⟨trivial, trivial, trivial, trivial, trivial⟩
  case some => exact ⟨trivial, trivial, trivial, trivial, trivial, trivial, trivial⟩

theorem Diagnostic.whole_toJson (d : Diagnostic) : d.toJson.Whole := by
  have labels := Json.wholeItems_map (Label.whole_toJson d.source) d.labels
  have notes : Json.WholeItems (d.notes.map .str) :=
    Json.wholeItems_map (fun text => show (Json.str text).Whole from trivial) d.notes
  obtain ⟨code, message, _, _, suggestion, source⟩ := d
  cases code <;> cases suggestion
  case none.none => exact ⟨trivial, trivial, ⟨labels, notes, trivial⟩⟩
  case none.some => exact ⟨trivial, trivial, labels, notes, trivial, trivial⟩
  case some.none => exact ⟨trivial, trivial, trivial, labels, notes, trivial⟩
  case some.some => exact ⟨trivial, trivial, trivial, labels, notes, trivial, trivial⟩

theorem Label.nesting_toJson (source : Option String) (label : Label) :
    (label.toJson source).nesting = 1 := by
  cases source <;> rfl

theorem Diagnostic.nesting_toJson_le (d : Diagnostic) : d.toJson.nesting ≤ 3 := by
  obtain ⟨code, message, labels, notes, suggestion, source⟩ := d
  have each := Json.nestingItems_map_le (fun label => (Label.nesting_toJson source label).le) labels
  have plain : Json.nestingItems (notes.map .str) ≤ 0 :=
    Json.nestingItems_map_le (fun _ => Nat.le_refl 0) notes
  cases code <;> cases suggestion <;>
    simp [toJson, optionalMember, Json.nesting, Json.nestingMembers] <;> omega

theorem ofNat_inj {n m : Nat} (same : some (Json.ofNat n) = some (Json.ofNat m)) : n = m := by
  cases same
  rfl

theorem Label.RecordedAs.unique {a b : Option String} {label other : Label} {value : Json}
    (one : label.RecordedAs a value) (two : other.RecordedAs b value) : label = other := by
  obtain ⟨⟨start, stop⟩, message, primary⟩ := label
  obtain ⟨⟨start', stop'⟩, message', primary'⟩ := other
  obtain rfl : start = start' := ofNat_inj (one.start.symm.trans two.start)
  obtain rfl : stop = stop' := ofNat_inj (one.stop.symm.trans two.stop)
  cases one.message.symm.trans two.message
  cases one.primary.symm.trans two.primary
  rfl

theorem Label.eq_of_recordedAs {a b : Option String} {labels others : List Label} {records : List Json}
    (one : List.Forall₂ (Label.RecordedAs a) labels records)
    (two : List.Forall₂ (Label.RecordedAs b) others records) : labels = others := by
  induction one generalizing others with
  | nil => cases two; rfl
  | cons first _ ih =>
    cases two with
    | cons first' later => rw [first.unique first', ih later]

/-- Diagnostics with the same record differ in the text that they are about at most. -/
theorem Diagnostic.RecordedAs.unique {d other : Diagnostic} {value : Json} {labels labels' : List Json}
    (one : d.RecordedAs value labels) (two : other.RecordedAs value labels') :
    { other with source := d.source } = d := by
  have text : Function.Injective Json.str := fun _ _ => Json.str.inj
  cases one.listed.symm.trans two.listed
  have notes := Json.arr.inj (Option.some.inj (one.notes.symm.trans two.notes))
  have code := Option.map_injective text (one.code.symm.trans two.code)
  have suggestion := Option.map_injective text (one.suggestion.symm.trans two.suggestion)
  have labels := Label.eq_of_recordedAs one.each two.each
  have message := Json.str.inj (Option.some.inj (one.message.symm.trans two.message))
  rw [← message, ← code, ← suggestion, ← labels, ← List.map_injective_iff.mpr text notes]

end LoopTape
