import LoopTape.Proofs.Json.Words

/-! What is written is read back.

The lexemes of a value do not depend on how it is laid out, and reading them gives the value. Numbers
that are not whole are left out: they are kept as texts, which need not be those of numbers.
-/

set_option autoImplicit false

namespace LoopTape.Json

mutual

def Whole : Json → Prop
  | .real _ => False
  | .arr items => WholeItems items
  | .obj members => WholeMembers members
  | .null | .bool _ | .int _ | .str _ => True

def WholeItems : List Json → Prop
  | [] => True
  | item :: rest => item.Whole ∧ WholeItems rest

def WholeMembers : List (String × Json) → Prop
  | [] => True
  | (_, value) :: rest => value.Whole ∧ WholeMembers rest

end

theorem wholeItems_map {α : Type} {write : α → Json} (each : ∀ a, (write a).Whole) (items : List α) :
    WholeItems (items.map write) := by
  induction items with
  | nil => trivial
  | cons a rest ih => exact ⟨each a, ih⟩

mutual

/-- How many arrays and objects are open at once in the text of a value. -/
def nesting : Json → Nat
  | .arr items => nestingItems items + 1
  | .obj members => nestingMembers members + 1
  | .null | .bool _ | .int _ | .real _ | .str _ => 0

def nestingItems : List Json → Nat
  | [] => 0
  | item :: rest => max item.nesting (nestingItems rest)

def nestingMembers : List (String × Json) → Nat
  | [] => 0
  | (_, value) :: rest => max value.nesting (nestingMembers rest)

end

theorem nestingItems_map_le {α : Type} {write : α → Json} {bound : Nat}
    (each : ∀ a, (write a).nesting ≤ bound) (items : List α) : nestingItems (items.map write) ≤ bound := by
  induction items with
  | nil => exact Nat.zero_le _
  | cons a rest ih => exact Nat.max_le.mpr ⟨each a, ih⟩

mutual

def spelling : Json → List Lexeme
  | .str value => [.text value]
  | .arr [] => [.openArray, .closeArray]
  | .arr (item :: rest) => .openArray :: (item.spelling ++ (itemsSpelling rest ++ [.closeArray]))
  | .obj [] => [.openObject, .closeObject]
  | .obj ((name, value) :: rest) =>
    .openObject :: .text name :: .colon ::
      (value.spelling ++ (membersSpelling rest ++ [.closeObject]))
  | .null => [.scalar .null]
  | .bool value => [.scalar (.bool value)]
  | .int value => [.scalar (.int value)]
  | .real text => [.scalar (.real text)]

def itemsSpelling : List Json → List Lexeme
  | [] => []
  | item :: rest => .comma :: (item.spelling ++ itemsSpelling rest)

def membersSpelling : List (String × Json) → List Lexeme
  | [] => []
  | (name, value) :: rest =>
    .comma :: .text name :: .colon :: (value.spelling ++ membersSpelling rest)

end

/-- The blanks of a written value: those in front of its items and members, at their depth of nesting, and
those behind the colons. -/
structure Layout where
  gap : Nat → String
  colon : String
  blank : ∀ depth, ∀ c ∈ (gap depth).toList, isBlank c = true
  marks : Marks colon.toList [.colon]

def Layout.tall : Layout := ⟨newLine, ": ", isBlank_newLine, fun _ _ => rfl⟩

mutual

def laidOut (layout : Layout) (depth : Nat) : Json → String
  | .null => "null"
  | .bool true => "true"
  | .bool false => "false"
  | .int value => toString value
  | .real text => text
  | .str value => quote value
  | .arr [] => "[]"
  | .arr (item :: rest) =>
    "[" ++ layout.gap (depth + 1) ++ item.laidOut layout (depth + 1) ++
      laidOutItems layout (depth + 1) rest ++ layout.gap depth ++ "]"
  | .obj [] => "\x7b\x7d"
  | .obj ((name, value) :: rest) =>
    "\x7b" ++ layout.gap (depth + 1) ++ quote name ++ layout.colon ++
      value.laidOut layout (depth + 1) ++ laidOutMembers layout (depth + 1) rest ++ layout.gap depth ++
      "\x7d"

def laidOutItems (layout : Layout) (depth : Nat) : List Json → String
  | [] => ""
  | item :: rest =>
    "," ++ layout.gap depth ++ item.laidOut layout depth ++ laidOutItems layout depth rest

def laidOutMembers (layout : Layout) (depth : Nat) : List (String × Json) → String
  | [] => ""
  | (name, value) :: rest =>
    "," ++ layout.gap depth ++ quote name ++ layout.colon ++ value.laidOut layout depth ++
      laidOutMembers layout depth rest

end

theorem indented_eq_laidOut :
    (∀ depth value, indented depth value = value.laidOut .tall depth) ∧
    (∀ depth members, indentedMembers depth members = laidOutMembers .tall depth members) ∧
    ∀ depth items, indentedItems depth items = laidOutItems .tall depth items := by
  apply indented.mutual_induct <;> intros <;>
    simp only [indented, indentedItems, indentedMembers, laidOut, laidOutItems, laidOutMembers,
      Layout.tall, *]

section

variable (layout : Layout)

theorem closes_comma (depth : Nat) {text : List Char} {spelled : List Lexeme}
    (marks : Marks text spelled) :
    Closes (",".toList ++ ((layout.gap depth).toList ++ text)) (.comma :: spelled) := by
  have comma : Marks [','] [.comma] := fun _ _ => rfl
  exact .of_marks rfl (comma.append ((marks_blanks (layout.blank depth)).append marks))

theorem marks_name (name : String) :
    Marks (quote name ++ layout.colon).toList [.text name, .colon] := by
  rw [String.toList_append]
  exact (marks_quote name).append layout.marks

theorem closes_gap (depth : Nat) (close : Char) {spelled : List Lexeme}
    (other : isWordChar close = false) (marks : Marks [close] spelled) :
    Closes ((layout.gap depth).toList ++ [close]) spelled :=
  (Closes.of_marks other marks).after_blanks (layout.blank depth)

mutual

theorem spells_laidOut (value : Json) (whole : value.Whole) (depth : Nat) :
    Spells (value.laidOut layout depth).toList value.spelling := by
  match value with
  | .null =>
    rw [laidOut]
    show Spells ['n', 'u', 'l', 'l'] _
    exact spells_word (List.all_eq_true.mp rfl) rfl
  | .bool true =>
    rw [laidOut]
    show Spells ['t', 'r', 'u', 'e'] _
    exact spells_word (List.all_eq_true.mp rfl) rfl
  | .bool false =>
    rw [laidOut]
    show Spells ['f', 'a', 'l', 's', 'e'] _
    exact spells_word (List.all_eq_true.mp rfl) rfl
  | .int value => exact spells_int value
  | .real text => exact whole.elim
  | .str value => exact (marks_quote value).spells
  | .arr [] =>
    rw [laidOut]
    show Spells ['[', ']'] [.openArray, .closeArray]
    exact Marks.spells fun _ _ => rfl
  | .arr (item :: rest) =>
    have opening : Marks "[".toList [.openArray] := fun _ _ => rfl
    have bracket : Marks [']'] [.closeArray] := fun _ _ => rfl
    have closing := closes_gap layout depth ']' rfl bracket
    have first := spells_laidOut item whole.1 (depth + 1)
    -- The first item is followed by a comma, a blank or the bracket, so it may end in a word.
    have later := closes_laidOutItems rest whole.2 (depth + 1) closing
    have all := (opening.append (marks_blanks (layout.blank (depth + 1)))).append (first.closed later)
    simpa [laidOut, spelling] using all.spells
  | .obj [] =>
    rw [laidOut]
    show Spells ['\x7b', '\x7d'] [.openObject, .closeObject]
    exact Marks.spells fun _ _ => rfl
  | .obj ((name, value) :: rest) =>
    have opening : Marks "\x7b".toList [.openObject] := fun _ _ => rfl
    have bracket : Marks ['\x7d'] [.closeObject] := fun _ _ => rfl
    have closing := closes_gap layout depth '\x7d' rfl bracket
    have first := spells_laidOut value whole.1 (depth + 1)
    have later := closes_laidOutMembers rest whole.2 (depth + 1) closing
    have all := (opening.append (marks_blanks (layout.blank (depth + 1)))).append
      ((marks_name layout name).append (first.closed later))
    simpa [laidOut, spelling] using all.spells

theorem closes_laidOutItems (items : List Json) (whole : WholeItems items) (depth : Nat)
    {close : List Char} {spelled : List Lexeme} (closes : Closes close spelled) :
    Closes ((laidOutItems layout depth items).toList ++ close) (itemsSpelling items ++ spelled) := by
  cases items with
  | nil => exact closes
  | cons item rest =>
    have first := spells_laidOut item whole.1 depth
    have later := closes_laidOutItems rest whole.2 depth closes
    simpa [laidOutItems, itemsSpelling] using closes_comma layout depth (first.closed later)

theorem closes_laidOutMembers (members : List (String × Json)) (whole : WholeMembers members)
    (depth : Nat) {close : List Char} {spelled : List Lexeme} (closes : Closes close spelled) :
    Closes ((laidOutMembers layout depth members).toList ++ close)
      (membersSpelling members ++ spelled) := by
  match members with
  | [] => exact closes
  | (name, value) :: rest =>
    have first := spells_laidOut value whole.1 depth
    have later := closes_laidOutMembers rest whole.2 depth closes
    have all := closes_comma layout depth ((marks_name layout name).append (first.closed later))
    simpa [laidOutMembers, membersSpelling] using all

end

end

theorem Reading.run_firstItem (item : Json) (around : List Open) (rest : List Lexeme) :
    (Reading.atFirstItem around).run (item.spelling ++ rest) =
      (Reading.atValue (.array [] :: around)).run (item.spelling ++ rest) := by
  match item with
  | .null | .bool _ | .int _ | .real _ | .str _ | .arr [] | .arr (_ :: _) | .obj []
  | .obj ((_, _) :: _) =>
    rw [spelling]
    rfl

theorem Reading.run_openArray (around : List Open) (rest : List Lexeme) :
    (Reading.atValue around).run (.openArray :: rest) =
      if around.length < depthLimit then (Reading.atFirstItem around).run rest else none := by
  rw [run, feed, startValue, opened]
  split <;> rfl

theorem Reading.run_openObject (around : List Open) (rest : List Lexeme) :
    (Reading.atValue around).run (.openObject :: rest) =
      if around.length < depthLimit then (Reading.atFirstName around).run rest else none := by
  rw [run, feed, startValue, opened]
  split <;> rfl

mutual

/-- A value is read if it is not nested too deep for the arrays and objects that are open around it. -/
theorem Reading.run_spelling (value : Json) (around : List Open) (room : around.length ≤ depthLimit)
    (rest : List Lexeme) :
    (Reading.atValue around).run (value.spelling ++ rest) =
      if around.length + value.nesting ≤ depthLimit then (Reading.after value around).run rest
      else none := by
  match value with
  | .null | .bool _ | .int _ | .real _ | .str _ =>
    rw [spelling, nesting, Nat.add_zero, if_pos room]
    rfl
  | .arr [] =>
    rw [spelling, nesting, nestingItems, List.cons_append, Reading.run_openArray]
    rfl
  | .obj [] =>
    rw [spelling, nesting, nestingMembers, List.cons_append, Reading.run_openObject]
    rfl
  | .arr (item :: items) =>
    rw [spelling, nesting, nestingItems, List.cons_append, List.append_assoc, List.append_assoc,
      Reading.run_openArray]
    split
    case isFalse full => rw [if_neg (by omega)]
    case isTrue free =>
      have first := Reading.run_spelling item (.array [] :: around) free
        (itemsSpelling items ++ .closeArray :: rest)
      have later := Reading.run_items items item [] free rest
      rw [Reading.run_firstItem, List.singleton_append, first, later, List.length_cons]
      split_ifs <;> first | rfl | omega
  | .obj ((name, value) :: members) =>
    rw [spelling, nesting, nestingMembers, List.cons_append, Reading.run_openObject]
    split
    case isFalse full => rw [if_neg (by omega)]
    case isTrue free =>
      have first := Reading.run_spelling value (.object [] name :: around) free
        (membersSpelling members ++ .closeObject :: rest)
      have later := Reading.run_members members value [] name free rest
      have named : (Reading.atFirstName around).run
          (.text name :: .colon :: (value.spelling ++ (membersSpelling members ++ [.closeObject])) ++ rest) =
          (Reading.atValue (.object [] name :: around)).run
            (value.spelling ++ (membersSpelling members ++ .closeObject :: rest)) := by
        rw [List.cons_append, List.cons_append, List.append_assoc, List.append_assoc]
        rfl
      rw [named, first, later, List.length_cons]
      split_ifs <;> first | rfl | omega

theorem Reading.run_items (items : List Json) (value : Json) (before : List Json) {around : List Open}
    (free : around.length < depthLimit) (rest : List Lexeme) :
    (Reading.after value (.array before :: around)).run
        (itemsSpelling items ++ .closeArray :: rest) =
      if around.length + 1 + nestingItems items ≤ depthLimit then
        (Reading.after (.arr (before.reverse ++ value :: items)) around).run rest
      else none := by
  cases items with
  | nil =>
    rw [itemsSpelling, nestingItems, Nat.add_zero, if_pos (Nat.succ_le_of_lt free), List.nil_append,
      Reading.run, Reading.feed, List.reverse_cons]
    rfl
  | cons item items =>
    have first := Reading.run_spelling item (.array (value :: before) :: around) free
      (itemsSpelling items ++ .closeArray :: rest)
    have later := Reading.run_items items item (value :: before) free rest
    have next : (Reading.after value (.array before :: around)).run
        (itemsSpelling (item :: items) ++ .closeArray :: rest) =
        (Reading.atValue (.array (value :: before) :: around)).run
          (item.spelling ++ (itemsSpelling items ++ .closeArray :: rest)) := by
      rw [itemsSpelling, List.cons_append, List.append_assoc]
      rfl
    rw [next, first, later, nestingItems, List.length_cons, List.reverse_cons, List.append_assoc,
      List.singleton_append]
    split_ifs <;> first | rfl | omega

theorem Reading.run_members (members : List (String × Json)) (value : Json)
    (before : List (String × Json)) (name : String) {around : List Open}
    (free : around.length < depthLimit) (rest : List Lexeme) :
    (Reading.after value (.object before name :: around)).run
        (membersSpelling members ++ .closeObject :: rest) =
      if around.length + 1 + nestingMembers members ≤ depthLimit then
        (Reading.after (.obj (before.reverse ++ (name, value) :: members)) around).run rest
      else none := by
  match members with
  | [] =>
    rw [membersSpelling, nestingMembers, Nat.add_zero, if_pos (Nat.succ_le_of_lt free), List.nil_append,
      Reading.run, Reading.feed, List.reverse_cons]
    rfl
  | (next, held) :: members =>
    have first := Reading.run_spelling held (.object ((name, value) :: before) next :: around) free
      (membersSpelling members ++ .closeObject :: rest)
    have later := Reading.run_members members held ((name, value) :: before) next free rest
    have named : (Reading.after value (.object before name :: around)).run
        (membersSpelling ((next, held) :: members) ++ .closeObject :: rest) =
        (Reading.atValue (.object ((name, value) :: before) next :: around)).run
          (held.spelling ++ (membersSpelling members ++ .closeObject :: rest)) := by
      rw [membersSpelling, List.cons_append, List.cons_append, List.cons_append, List.append_assoc]
      rfl
    rw [named, first, later, nestingMembers, List.length_cons, List.reverse_cons, List.append_assoc,
      List.singleton_append]
    split_ifs <;> first | rfl | omega

end

theorem parse_of_spells {text : String} {value : Json} (spells : Spells text.toList value.spelling) :
    parse text = if value.nesting ≤ depthLimit then some value else none := by
  have read := Reading.run_spelling value [] (Nat.zero_le _) []
  rw [List.append_nil, List.length_nil, Nat.zero_add] at read
  rw [parse, spells.lexemes]
  exact read

theorem parse_pretty {value : Json} (whole : value.Whole) :
    parse value.pretty = if value.nesting ≤ depthLimit then some value else none := by
  rw [pretty, indented_eq_laidOut.1]
  exact parse_of_spells (spells_laidOut .tall value whole 0)

theorem parse_pretty_line {value : Json} (whole : value.Whole) :
    parse (value.pretty ++ "\n") = if value.nesting ≤ depthLimit then some value else none := by
  have lineEnd : Closes ['\n'] [] := .of_marks rfl (marks_blanks (by simp [isBlank]))
  have spells : Spells (value.pretty ++ "\n").toList value.spelling := by
    rw [pretty, indented_eq_laidOut.1, String.toList_append, ← List.append_nil value.spelling]
    exact ((spells_laidOut .tall value whole 0).closed lineEnd).spells
  exact parse_of_spells spells

end LoopTape.Json
