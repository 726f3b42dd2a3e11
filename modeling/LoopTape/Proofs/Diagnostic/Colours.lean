import LoopTape.Diagnostic.Terminal
import LoopTape.Proofs.Diagnostic.Carets
import LoopTape.Proofs.Text.Cut

/-! Colours are all that colours add.

An escape sequence is an escape character, a bracket and parameters that end with the next `m`. A coloured
rendering without its sequences is the rendering without colours, whatever brackets, digits and letters
the texts of the diagnostic hold, as long as they have no escape character of their own; and its sequences
switch a style on and all styles off by turns.
-/

set_option autoImplicit false

namespace LoopTape

inductive Signal where
  | glyph (c : Char)
  | switch (parameters : List Char)
  deriving Repr, DecidableEq

def sequence? : List Char → Option (List Char × List Char)
  | '\x1b' :: '[' :: rest => cut? 'm' rest
  | _ => none

theorem length_lt_of_sequence? {text parameters behind : List Char}
    (found : sequence? text = some (parameters, behind)) : behind.length < text.length := by
  unfold sequence? at found
  split at found
  · rw [eq_append_of_cut? found]
    simp only [List.length_cons, List.length_append]
    omega
  · cases found

/-- The signals of a text from left to right. An escape character that starts no sequence is a glyph. -/
def signals : List Char → List Signal
  | [] => []
  | c :: rest =>
    match _found : sequence? (c :: rest) with
    | some (parameters, behind) => .switch parameters :: signals behind
    | none => .glyph c :: signals rest
termination_by text => text.length
decreasing_by
  · exact length_lt_of_sequence? _found
  · exact Nat.lt_succ_self _

@[simp] def Signal.glyph? : Signal → Option Char
  | .glyph c => some c
  | .switch _ => none

@[simp] def Signal.switch? : Signal → Option (List Char)
  | .glyph _ => none
  | .switch parameters => some parameters

def withoutSequences (text : List Char) : List Char := (signals text).filterMap Signal.glyph?

def switches (text : List Char) : List (List Char) := (signals text).filterMap Signal.switch?

def resetParameters : List Char := ['0']

/-- Each style that is switched on is reset before the next one is switched on, and the last one too. -/
inductive ByTurns : List (List Char) → Prop
  | nil : ByTurns []
  | styled (style : Style) {rest : List (List Char)}
    (opens : style.parameters.toList ≠ resetParameters) (later : ByTurns rest) :
    ByTurns (style.parameters.toList :: resetParameters :: rest)

theorem ByTurns.append {first second : List (List Char)} (before : ByTurns first)
    (after : ByTurns second) : ByTurns (first ++ second) := by
  induction before with
  | nil => exact after
  | styled style opens _ ih => exact .styled style opens ih

theorem ByTurns.flatMap {α : Type} {items : List α} {each : α → List (List Char)}
    (byTurns : ∀ item ∈ items, ByTurns (each item)) : ByTurns (items.flatMap each) := by
  induction items with
  | nil => exact .nil
  | cons item rest ih =>
    obtain ⟨first, others⟩ := List.forall_mem_cons.mp byTurns
    exact first.append (ih others)

theorem signals_glyph {c : Char} (rest : List Char) (other : c ≠ '\x1b') :
    signals (c :: rest) = .glyph c :: signals rest := by
  have unmarked : sequence? (c :: rest) = none := by
    unfold sequence?
    split
    · next same => exact absurd (List.cons.inj same).1 other
    · rfl
  rw [signals]
  split
  · next found => rw [unmarked] at found; cases found
  · rfl

theorem signals_append {text : List Char} (rest : List Char) (free : '\x1b' ∉ text) :
    signals (text ++ rest) = text.map .glyph ++ signals rest := by
  induction text with
  | nil => rfl
  | cons c more ih =>
    obtain ⟨other, later⟩ := List.ne_and_not_mem_of_not_mem_cons free
    rw [List.cons_append, signals_glyph _ (Ne.symm other), ih later]
    rfl

/-- A sequence ends with the first `m`, so its parameters hold none. -/
theorem signals_sequence {parameters : List Char} (rest : List Char) (unended : 'm' ∉ parameters) :
    signals ('\x1b' :: '[' :: (parameters ++ 'm' :: rest)) = .switch parameters :: signals rest := by
  have found : sequence? ('\x1b' :: '[' :: (parameters ++ 'm' :: rest)) =
      some (parameters, rest) := cut?_append rest unended
  rw [signals]
  split
  · next same =>
    rw [found] at same
    cases same
    rfl
  · next unmarked => rw [found] at unmarked; cases unmarked

example : withoutSequences "\x1b[1mm\x1b[0m[0m".toList = "m[0m".toList := by cbv

def EscapeFree (text : String) : Prop := '\x1b' ∉ text.toList

instance : DecidablePred EscapeFree := fun text => inferInstanceAs (Decidable ('\x1b' ∉ text.toList))

namespace Painted

def signals (piece : Painted) : List Signal :=
  match piece.style with
  | some style =>
    .switch style.parameters.toList :: piece.text.toList.map .glyph ++ [.switch resetParameters]
  | none => piece.text.toList.map .glyph

theorem parameters_opens (style : Style) :
    'm' ∉ style.parameters.toList ∧ style.parameters.toList ≠ resetParameters := by
  cases style <;> decide

theorem signals_write {piece : Painted} (free : EscapeFree piece.text) (rest : List Char) :
    LoopTape.signals ((piece.write true).toList ++ rest) =
      piece.signals ++ LoopTape.signals rest := by
  obtain ⟨style, text⟩ := piece
  cases style with
  | none => exact signals_append rest free
  | some style =>
    have written : (write true ⟨some style, text⟩).toList ++ rest =
        '\x1b' :: '[' :: (style.parameters.toList ++ 'm' ::
          (text.toList ++ '\x1b' :: '[' :: (resetParameters ++ 'm' :: rest))) := by
      simp [write, resetParameters]
    rw [written, signals_sequence _ (parameters_opens style).1, signals_append _ free,
      signals_sequence _ (by decide)]
    simp [signals]

/-- A terminal takes the signals of each piece, one piece behind the other. -/
theorem signals_writeAll {pieces : List Painted} (free : ∀ piece ∈ pieces, EscapeFree piece.text) :
    LoopTape.signals (writeAll true pieces).toList = pieces.flatMap signals := by
  induction pieces with
  | nil => simp [LoopTape.signals]
  | cons piece rest ih =>
    obtain ⟨first, others⟩ := List.forall_mem_cons.mp free
    rw [writeAll_cons, String.toList_append, signals_write first, ih others, List.flatMap_cons]

theorem glyphs_signals (piece : Painted) :
    piece.signals.filterMap Signal.glyph? = piece.text.toList := by
  obtain ⟨style, text⟩ := piece
  cases style <;> simp [signals, List.filterMap_cons, List.filterMap_map, Function.comp_def]

theorem toList_writeAll_false (pieces : List Painted) :
    (writeAll false pieces).toList = pieces.flatMap (·.text.toList) := by
  induction pieces with
  | nil => rfl
  | cons piece rest ih =>
    rw [writeAll_cons, String.toList_append, ih, List.flatMap_cons]
    rfl

theorem byTurns_signals (piece : Painted) : ByTurns (piece.signals.filterMap Signal.switch?) := by
  obtain ⟨style, text⟩ := piece
  cases style with
  | none => simpa [signals, List.filterMap_cons, List.filterMap_map, Function.comp_def] using ByTurns.nil
  | some style =>
    have turn := ByTurns.styled style (parameters_opens style).2 .nil
    simpa [signals, List.filterMap_cons, List.filterMap_map, Function.comp_def] using turn

end Painted

@[simp] theorem escapeFree_append (a b : String) :
    EscapeFree (a ++ b) ↔ EscapeFree a ∧ EscapeFree b := by
  simp [EscapeFree, not_or]

@[simp] theorem escapeFree_repr (n : Nat) : EscapeFree n.repr := by
  intro member
  rw [Nat.toList_repr] at member
  exact absurd (Nat.isDigit_of_mem_toDigits (by decide) (by decide) member) (by decide)

theorem escapeFree_replicate {c : Char} (other : c ≠ '\x1b') (count : Nat) :
    EscapeFree (String.ofList (List.replicate count c)) := by
  simp [EscapeFree, Ne.symm other]

theorem lineText_locate_subset (text : List Char) (offset : Nat) :
    lineText text (locate text offset).line ⊆ text := by
  obtain ⟨index, piece, number, line⟩ := exists_line_locate text offset
  obtain ⟨returns, split, -⟩ := piece_eq_lineText line
  obtain ⟨front, back, whole, -⟩ := exists_of_line 0 line
  intro c member
  rw [number] at member
  have inPiece : c ∈ piece := split ▸ List.mem_append_left _ member
  exact whole ▸ List.mem_append_right _ (List.mem_append_left _ inPiece)

namespace Diagnostic

def texts (d : Diagnostic) : List String :=
  d.code.toList ++ d.message :: d.labels.map (·.message) ++ d.notes ++ d.suggestion.toList ++
    d.source.toList

theorem escapeFree_headline {d : Diagnostic} (code : ∀ code ∈ d.code, EscapeFree code)
    (message : EscapeFree d.message) : ∀ piece ∈ d.headline, EscapeFree piece.text := by
  unfold headline
  cases known : d.code with
  | none =>
    simp only [List.forall_mem_cons]
    exact ⟨by decide, by decide, message, by decide, List.forall_mem_nil _⟩
  | some text =>
    have head : EscapeFree ("error[" ++ text ++ "]") := by
      simp only [escapeFree_append, code text known, and_true]
      decide
    simp only [List.forall_mem_cons]
    exact ⟨head, by decide, message, by decide, List.forall_mem_nil _⟩

theorem escapeFree_snippet {source : List Char} {label : Label} (clean : '\x1b' ∉ source)
    (message : EscapeFree label.message) :
    ∀ piece ∈ snippet source label, EscapeFree piece.text := by
  have line : EscapeFree (String.ofList (lineText source (locate source label.span.start).line)) := by
    rw [EscapeFree, String.toList_ofList]
    exact fun member => clean (lineText_locate_subset source _ member)
  have blanks (count : Nat) : EscapeFree (spaces count) := escapeFree_replicate (by decide) count
  have carets (count : Nat) : EscapeFree (String.ofList (List.replicate count '^')) :=
    escapeFree_replicate (by decide) count
  have marks : EscapeFree " " ∧ EscapeFree ":" ∧ EscapeFree "\n" ∧ EscapeFree "|" ∧
      EscapeFree "-->" := by
    decide
  unfold snippet
  by_cases silent : label.message = "" <;>
    simp [Painted.plain, Painted.blue, Painted.red, silent, line, blanks, carets, marks, message]

theorem escapeFree_remark {text : String} (clean : EscapeFree text) :
    ∀ piece ∈ remark text, EscapeFree piece.text := by
  have line : EscapeFree (" " ++ text ++ "\n") := by
    simp only [escapeFree_append, clean, and_true]
    decide
  simp only [remark, List.forall_mem_cons]
  exact ⟨by decide, by decide, line, List.forall_mem_nil _⟩

theorem escapeFree_aside (source : Option String) {label : Label} (clean : EscapeFree label.message) :
    ∀ piece ∈ aside source label, EscapeFree piece.text := by
  cases source with
  | none => exact escapeFree_remark clean
  | some source =>
    apply escapeFree_remark
    have marks : EscapeFree ":" ∧ EscapeFree ": " := by decide
    simp [marks, clean]

/-- The pieces of a rendering hold no escape character unless the texts of the diagnostic do. -/
theorem escapeFree_pieces {d : Diagnostic} (free : ∀ text ∈ d.texts, EscapeFree text) :
    ∀ piece ∈ d.pieces, EscapeFree piece.text := by
  simp only [texts, List.forall_mem_append, List.forall_mem_cons, Option.mem_toList,
    List.forall_mem_map] at free
  obtain ⟨⟨⟨⟨code, message, labels⟩, notes⟩, suggestion⟩, source⟩ := free
  have shown : ∀ piece ∈ d.shown, EscapeFree piece.text := by
    unfold shown
    split
    · next label text primary known =>
      exact escapeFree_snippet (source text known) (labels label (List.mem_of_find?_eq_some primary))
    · exact List.forall_mem_nil _
  have additions : ∀ piece ∈ d.additions, EscapeFree piece.text := by
    have prefixes : EscapeFree "note: " ∧ EscapeFree "help: " := by decide
    simp only [additions, List.forall_mem_append, List.forall_mem_flatMap]
    refine ⟨⟨fun label member => ?_, fun note member => ?_⟩, fun help member => ?_⟩
    · exact escapeFree_aside d.source (labels label (List.mem_of_mem_filter member))
    · exact escapeFree_remark ((escapeFree_append _ _).mpr ⟨prefixes.1, notes note member⟩)
    · have own := suggestion help (Option.mem_toList.mp member)
      exact escapeFree_remark ((escapeFree_append _ _).mpr ⟨prefixes.2, own⟩)
  simp only [pieces, List.forall_mem_append]
  exact ⟨⟨escapeFree_headline code message, shown⟩, additions⟩

/-- If no text of a diagnostic holds an escape character, its coloured rendering without the escape
sequences is the other rendering, which holds no escape character at all; and the sequences switch styles
on and off by turns. -/
theorem render_colours {d : Diagnostic} (free : ∀ text ∈ d.texts, EscapeFree text) :
    withoutSequences (d.render true).toList = (d.render false).toList ∧
    EscapeFree (d.render false) ∧ ByTurns (switches (d.render true).toList) := by
  have clean := escapeFree_pieces free
  have taken : signals (d.render true).toList = d.pieces.flatMap Painted.signals :=
    Painted.signals_writeAll clean
  have plain : (d.render false).toList = d.pieces.flatMap (·.text.toList) :=
    Painted.toList_writeAll_false d.pieces
  refine ⟨?deleted, ?unescaped, ?turns⟩
  case deleted =>
    rw [withoutSequences, taken, plain, List.filterMap_flatMap]
    simp only [Painted.glyphs_signals]
  case unescaped =>
    intro member
    rw [plain, List.mem_flatMap] at member
    obtain ⟨piece, inPieces, inText⟩ := member
    exact clean piece inPieces inText
  case turns =>
    rw [switches, taken, List.filterMap_flatMap]
    exact .flatMap fun piece _ => Painted.byTurns_signals piece

end Diagnostic

def brackets : Diagnostic :=
  (((Diagnostic.error "[1;31m is no name").withLabel ⟨⟨2, 8⟩, "here", true⟩).withLabel
    ⟨⟨0, 1⟩, "[0m", false⟩).withSource "m [1;31m"

theorem brackets_colours :
    (∀ text ∈ brackets.texts, EscapeFree text) ∧
      withoutSequences (brackets.render true).toList = (brackets.render false).toList ∧
      EscapeFree (brackets.render false) ∧ ByTurns (switches (brackets.render true).toList) := by
  have free : ∀ text ∈ brackets.texts, EscapeFree text := by decide
  exact ⟨free, brackets.render_colours free⟩

end LoopTape
