import LoopTape.Token.Lexing
import LoopTape.Tree.Layout

/-! Words that are read as what they were written for.

A name is a letter or an underscore and then letters, underscores and digits; a word is a name that is
no keyword. A name is only cut off where it ends if what follows could not go on with it. What follows
a variable must not look like an annotation either.
-/

set_option autoImplicit false

namespace LoopTape

def isName (name : String) : Bool :=
  match name.toList with
  | first :: more => isNameStart first && more.all isNameChar
  | [] => false

def isWord (name : String) : Bool :=
  isName name && !List.contains ["cond", "else", "loop", "break"] name

def Lexes (text : List Char) (tokens : List Token) : Prop :=
  ∀ offset, ∃ placed, lexFrom offset text = .ok placed ∧ placed.map Placed.token = tokens

/-- A text that goes on with no name and no annotation that was begun before it. -/
def Delimited (text : List Char) : Prop :=
  ∀ c ∈ text.head?, isNameChar c = false ∧ c ≠ ':'

theorem delimited_cons {c : Char} {rest : List Char} (name : isNameChar c = false)
    (annotated : c ≠ ':') : Delimited (c :: rest) := by
  intro first same
  obtain rfl : c = first := by simpa using same
  exact ⟨name, annotated⟩

theorem takeWhile_delimited {p : Char → Bool} {word rest : List Char} (all : ∀ c ∈ word, p c = true)
    (stops : ∀ c ∈ rest.head?, p c = false) : (word ++ rest).takeWhile p = word := by
  rw [List.takeWhile_append_of_pos all]
  cases rest with
  | nil => simp
  | cons c more => simp [stops c (by simp)]

theorem lexes_nil : Lexes [] [] := fun _ => ⟨[], by rw [lexFrom], rfl⟩

theorem Lexes.trivia {c : Char} {rest : List Char} {n : Nat} {tokens : List Token}
    (trivia : triviaLength? c rest = some n) (after : Lexes (rest.drop n) tokens) :
    Lexes (c :: rest) tokens := by
  intro offset
  obtain ⟨placed, lexed, same⟩ := after (offset + byteLength (c :: rest.take n))
  refine ⟨placed, ?_, same⟩
  rw [lexFrom, trivia]
  exact lexed

theorem Lexes.token {c : Char} {rest : List Char} {n : Nat} {token : Token} {tokens : List Token}
    (visible : triviaLength? c rest = none) (scanned : Token.scan c rest = some (token, n))
    (after : Lexes (rest.drop n) tokens) : Lexes (c :: rest) (token :: tokens) := by
  intro offset
  obtain ⟨placed, lexed, same⟩ := after (offset + byteLength (c :: rest.take n))
  refine ⟨⟨token, offset, offset + byteLength (c :: rest.take n)⟩ :: placed, ?_, ?_⟩
  · rw [lexFrom, visible]
    simp only [scanned, lexed]
    rfl
  · exact congrArg (token :: ·) same

theorem Lexes.blanks {gap rest : List Char} {tokens : List Token}
    (blank : ∀ c ∈ gap, isBlank c = true) (after : Lexes rest tokens) :
    Lexes (gap ++ rest) tokens := by
  induction gap with
  | nil => exact after
  | cons c more ih =>
    obtain ⟨first, others⟩ := List.forall_mem_cons.mp blank
    refine .trivia (show triviaLength? c (more ++ rest) = some 0 from ?_) (ih others)
    rw [triviaLength?, if_pos first]

def markToken? (c : Char) : Option Token :=
  if c = '\x7b' then some .openBrace
  else if c = '\x7d' then some .closeBrace
  else if c = '(' then some .openParen
  else if c = ')' then some .closeParen
  else if c = '=' then some .assign
  else if c = ';' then some .semicolon
  else none

theorem triviaLength?_of_mark {c : Char} {token : Token} (mark : markToken? c = some token)
    (rest : List Char) : triviaLength? c rest = none := by
  unfold markToken? at mark
  unfold triviaLength? isBlank
  grind

theorem scan_mark {c : Char} {token : Token} (mark : markToken? c = some token)
    (rest : List Char) : Token.scan c rest = some (token, 0) := by
  unfold markToken? at mark
  unfold Token.scan
  grind

theorem Lexes.mark {c : Char} {rest : List Char} {token : Token} {tokens : List Token}
    (mark : markToken? c = some token) (after : Lexes rest tokens) :
    Lexes (c :: rest) (token :: tokens) :=
  .token (triviaLength?_of_mark mark rest) (scan_mark mark rest) after

theorem ne_of_isNameStart {c other : Char} (start : isNameStart c = true)
    (none : isNameStart other = false) : c ≠ other := by
  rintro rfl
  simp [start] at none

theorem triviaLength?_of_isNameStart {c : Char} (start : isNameStart c = true) (rest : List Char) :
    triviaLength? c rest = none := by
  have blank : isBlank c = false := by
    simp [isBlank, ne_of_isNameStart start (show isNameStart ' ' = false by decide),
      ne_of_isNameStart start (show isNameStart '\t' = false by decide),
      ne_of_isNameStart start (show isNameStart '\r' = false by decide),
      ne_of_isNameStart start (show isNameStart '\n' = false by decide)]
  have slash : c ≠ '/' := ne_of_isNameStart start (by decide)
  simp [triviaLength?, blank, slash]

theorem scan_of_isNameStart {c : Char} (start : isNameStart c = true) (rest : List Char) :
    Token.scan c rest =
      some (.ofWord (c :: rest.takeWhile isNameChar), (rest.takeWhile isNameChar).length) := by
  unfold Token.scan
  rw [if_neg (ne_of_isNameStart start (by decide)), if_neg (ne_of_isNameStart start (by decide)),
    if_neg (ne_of_isNameStart start (by decide)), if_neg (ne_of_isNameStart start (by decide)),
    if_neg (ne_of_isNameStart start (by decide)), if_neg (ne_of_isNameStart start (by decide)),
    if_neg (ne_of_isNameStart start (by decide)), if_pos start]

theorem isName_iff {name : String} :
    isName name = true ↔ ∃ first more, name.toList = first :: more ∧ isNameStart first = true ∧
      ∀ c ∈ more, isNameChar c = true := by
  unfold isName
  cases name.toList with
  | nil => simp
  | cons first more =>
    simp only [Bool.and_eq_true, List.all_eq_true]
    constructor
    · exact fun spelled => ⟨first, more, rfl, spelled⟩
    · rintro ⟨_, _, same, spelled⟩
      cases same
      exact spelled

theorem scan_name {first : Char} {more rest : List Char} (start : isNameStart first = true)
    (inside : ∀ c ∈ more, isNameChar c = true) (delimited : Delimited rest) :
    Token.scan first (more ++ rest) = some (.ofWord (first :: more), more.length) := by
  have stops := takeWhile_delimited inside fun c member => (delimited c member).1
  rw [scan_of_isNameStart start, stops]

theorem Lexes.name {name : String} {rest : List Char} {tokens : List Token}
    (spelled : isName name = true) (delimited : Delimited rest) (after : Lexes rest tokens) :
    Lexes (name.toList ++ rest) (.ofWord name.toList :: tokens) := by
  obtain ⟨first, more, split, start, inside⟩ := isName_iff.mp spelled
  rw [split, List.cons_append]
  apply Lexes.token (triviaLength?_of_isNameStart start _) (scan_name start inside delimited)
  rw [List.drop_left]
  exact after

theorem ofWord_of_isWord {name : String} (spelled : isWord name = true) :
    Token.ofWord name.toList = .identifier name := by
  have kept := (Bool.and_eq_true_iff.mp spelled).2
  have other (keyword : String) (member : ["cond", "else", "loop", "break"].contains keyword = true) :
      name.toList ≠ keyword.toList := by
    intro same
    obtain rfl : name = keyword := String.toList_injective same
    rw [member] at kept
    exact absurd kept (by decide)
  have noCond : name.toList ≠ ['c', 'o', 'n', 'd'] := other "cond" (by decide)
  have noElse : name.toList ≠ ['e', 'l', 's', 'e'] := other "else" (by decide)
  have noLoop : name.toList ≠ ['l', 'o', 'o', 'p'] := other "loop" (by decide)
  have noBreak : name.toList ≠ ['b', 'r', 'e', 'a', 'k'] := other "break" (by decide)
  rw [Token.ofWord, if_neg noCond, if_neg noElse, if_neg noLoop, if_neg noBreak,
    String.ofList_toList]

/-- What a written variable may carry behind its name: nothing, or a colon and digits. -/
def IsAnnotation (note : List Char) : Prop :=
  note = [] ∨ ∃ digits, digits ≠ [] ∧ (∀ c ∈ digits, Char.isDigit c = true) ∧ note = ':' :: digits

theorem annotationLength_append {note rest : List Char} (annotated : IsAnnotation note)
    (delimited : Delimited rest) : annotationLength (note ++ rest) = note.length := by
  rcases annotated with rfl | ⟨digits, some, all, rfl⟩
  · cases rest with
    | nil => rfl
    | cons c more =>
      have other := (delimited c (by simp)).2
      unfold annotationLength
      split
      · next same => simp_all
      · rfl
  · -- Digits go on with a name, so what cannot go on with a name ends the digits too.
    have stops := takeWhile_delimited all fun c member => by
      have name := (delimited c member).1
      simp only [isNameChar, Bool.or_eq_false_iff] at name
      exact name.2
    simp only [List.cons_append, annotationLength, stops, List.length_cons]
    rw [if_neg (by simpa using some)]

theorem scan_variable {first : Char} {more : List Char} (start : isNameStart first = true) :
    Token.scan '$' (first :: more) =
      let name := (first :: more).takeWhile isNameChar
      some (.variable (String.ofList name),
        name.length + annotationLength ((first :: more).drop name.length)) := by
  simp [Token.scan, start]

theorem isNameChar_of_isName {name : String} (spelled : isName name = true) :
    ∀ c ∈ name.toList, isNameChar c = true := by
  obtain ⟨first, more, split, start, inside⟩ := isName_iff.mp spelled
  rw [split]
  intro c member
  rcases List.mem_cons.mp member with rfl | later
  · simp [isNameChar, start]
  · exact inside c later

theorem scan_name_after_dollar {name : String} (spelled : isName name = true) (rest : List Char) :
    Token.scan '$' (name.toList ++ rest) =
      let found := (name.toList ++ rest).takeWhile isNameChar
      some (.variable (String.ofList found),
        found.length + annotationLength ((name.toList ++ rest).drop found.length)) := by
  obtain ⟨first, more, split, start, -⟩ := isName_iff.mp spelled
  rw [split, List.cons_append]
  exact scan_variable start

theorem scan_written {name : String} {note rest : List Char} (spelled : isName name = true)
    (annotated : IsAnnotation note) (delimited : Delimited rest) :
    Token.scan '$' (name.toList ++ (note ++ rest)) =
      some (.variable name, (name.toList ++ note).length) := by
  -- A colon goes on with no name, so the name ends where its annotation starts.
  have stops : (name.toList ++ (note ++ rest)).takeWhile isNameChar = name.toList := by
    apply takeWhile_delimited (isNameChar_of_isName spelled)
    intro c member
    rcases annotated with rfl | ⟨digits, _, _, rfl⟩
    · exact (delimited c member).1
    · obtain rfl : ':' = c := by simpa using member
      decide
  simp only [scan_name_after_dollar spelled, stops, List.drop_left, annotationLength_append annotated delimited,
    String.ofList_toList, List.length_append]

theorem Lexes.variable {name : String} {note rest : List Char} {tokens : List Token}
    (spelled : isName name = true) (annotated : IsAnnotation note) (delimited : Delimited rest)
    (after : Lexes rest tokens) :
    Lexes ('$' :: name.toList ++ note ++ rest) (.variable name :: tokens) := by
  rw [List.cons_append, List.cons_append, List.append_assoc]
  apply Lexes.token rfl (scan_written spelled annotated delimited)
  rw [← List.append_assoc, List.drop_left]
  exact after

theorem Variable.written_eq (detail : Detail) (v : Variable) :
    ∃ note, IsAnnotation note ∧ (v.written detail).toList = '$' :: v.name.toList ++ note := by
  unfold written
  split
  · next slot _ =>
    refine ⟨':' :: Nat.toDigits 10 slot, .inr ⟨_, Nat.toDigits_ne_nil, ?_, rfl⟩, ?_⟩
    · intro c member
      exact Nat.isDigit_of_mem_toDigits (by decide) (by decide) member
    · simp [Nat.toList_repr]
  · exact ⟨[], .inl rfl, by simp⟩

end LoopTape
