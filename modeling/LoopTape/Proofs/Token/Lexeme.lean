import LoopTape.Proofs.Token.Spelling

/-! The lexemes of the language, and that the longest one is scanned.

A lexeme is a text that denotes a token: a mark, a keyword, a name that is no keyword, or a variable
with or without an annotation. At each place scanning takes the longest lexeme that starts there,
and takes none only where none starts.
-/

set_option autoImplicit false

namespace LoopTape

def keywords : List (String × Token) :=
  [("cond", .condWord), ("else", .elseWord), ("loop", .loopWord), ("break", .breakWord)]

/-- The text denotes the token. What an annotation says is not part of it. -/
inductive Lexeme : List Char → Token → Prop where
  | mark {c : Char} {token : Token} (spelled : markToken? c = some token) : Lexeme [c] token
  | keyword {word : String} {token : Token} (kept : (word, token) ∈ keywords) :
    Lexeme word.toList token
  | identifier {name : String} (spelled : isWord name = true) :
    Lexeme name.toList (.identifier name)
  | variable {name : String} {note : List Char} (spelled : isName name = true)
    (annotated : IsAnnotation note) : Lexeme ('$' :: (name.toList ++ note)) (.variable name)

/-- The text denotes the token, and no longer text denotes one that starts where it starts, when
`rest` follows it. -/
structure Munch (text : List Char) (token : Token) (rest : List Char) : Prop where
  lexeme : Lexeme text token
  longest : ∀ longer other, longer <+: text ++ rest → Lexeme longer other →
    longer.length ≤ text.length

theorem isWord_or_keyword {name : String} (spelled : isName name = true) :
    isWord name = true ∨ (name, Token.ofWord name.toList) ∈ keywords := by
  by_cases kept : name ∈ ["cond", "else", "loop", "break"]
  · right
    simp only [List.mem_cons, List.not_mem_nil, or_false] at kept
    rcases kept with rfl | rfl | rfl | rfl <;> simp [keywords, Token.ofWord]
  · left
    simp [isWord, spelled, kept]

theorem Lexeme.name {name : String} (spelled : isName name = true) :
    Lexeme name.toList (.ofWord name.toList) := by
  rcases isWord_or_keyword spelled with word | keyword
  · rw [ofWord_of_isWord word]
    exact .identifier word
  · exact .keyword keyword

theorem name_of_keyword {word : String} {token : Token} (kept : (word, token) ∈ keywords) :
    isName word = true ∧ token = Token.ofWord word.toList := by
  simp only [keywords, List.mem_cons, Prod.mk.injEq, List.not_mem_nil, or_false] at kept
  rcases kept with ⟨rfl, rfl⟩ | ⟨rfl, rfl⟩ | ⟨rfl, rfl⟩ | ⟨rfl, rfl⟩ <;> decide

inductive Shape (c : Char) (more : List Char) (token : Token) : Prop where
  | mark (spelled : markToken? c = some token) (single : more = [])
  | word (start : isNameStart c = true) (inside : ∀ d ∈ more, isNameChar d = true)
    (denotes : token = .ofWord (c :: more))
  | variable {name : String} {note : List Char} (dollar : c = '$') (spelled : isName name = true)
    (annotated : IsAnnotation note) (split : more = name.toList ++ note)
    (denotes : token = .variable name)

theorem Shape.of_name {c : Char} {more : List Char} {name : String} (spelled : isName name = true)
    (text : name.toList = c :: more) : Shape c more (.ofWord (c :: more)) := by
  obtain ⟨first, others, split, start, inside⟩ := isName_iff.mp spelled
  rw [text] at split
  cases split
  exact .word start inside rfl

theorem Lexeme.shape {text : List Char} {token : Token} (lexeme : Lexeme text token) :
    ∃ c more, text = c :: more ∧ Shape c more token := by
  have named {name : String} (spelled : isName name = true) :
      ∃ c more, name.toList = c :: more ∧ Shape c more (.ofWord name.toList) := by
    obtain ⟨c, more, split, -⟩ := isName_iff.mp spelled
    exact ⟨c, more, split, split ▸ Shape.of_name spelled split⟩
  cases lexeme with
  | mark spelled => exact ⟨_, [], rfl, .mark spelled rfl⟩
  | keyword kept =>
    obtain ⟨spelled, rfl⟩ := name_of_keyword kept
    exact named spelled
  | identifier spelled =>
    rw [← ofWord_of_isWord spelled]
    exact named (Bool.and_eq_true_iff.mp spelled).1
  | «variable» spelled annotated => exact ⟨'$', _, rfl, .variable rfl spelled annotated rfl rfl⟩

theorem Lexeme.shape_cons {c : Char} {more : List Char} {token : Token}
    (lexeme : Lexeme (c :: more) token) : Shape c more token := by
  obtain ⟨first, others, same, shape⟩ := lexeme.shape
  cases same
  exact shape

theorem delimited_nil : Delimited [] := fun _ member => nomatch member

theorem Shape.scan {c : Char} {more : List Char} {token : Token} (shape : Shape c more token) :
    Token.scan c more = some (token, more.length) := by
  cases shape with
  | mark spelled single =>
    subst single
    exact scan_mark spelled []
  | word start inside denotes =>
    subst denotes
    have scanned := scan_name start inside delimited_nil
    rwa [List.append_nil] at scanned
  | «variable» dollar spelled annotated split denotes =>
    subst dollar split denotes
    have scanned := scan_written spelled annotated delimited_nil
    rwa [List.append_nil] at scanned

/-- Digits of an annotation are part of it, whatever follows. -/
theorem length_le_annotationLength {note : List Char} (annotated : IsAnnotation note)
    (rest : List Char) : note.length ≤ annotationLength (note ++ rest) := by
  rcases annotated with rfl | ⟨digits, some, all, rfl⟩
  · exact Nat.zero_le _
  · have taken : digits.length ≤ ((digits ++ rest).takeWhile Char.isDigit).length := by
      rw [List.takeWhile_append_of_pos all, List.length_append]
      exact Nat.le_add_right _ _
    have positive : 0 < digits.length := List.length_pos_iff.mpr some
    simp only [List.cons_append, annotationLength, List.length_cons]
    rw [if_neg (by omega)]
    omega

/-- With more text behind it something at least as long as the lexeme is scanned. -/
theorem Shape.scan_append {c : Char} {more : List Char} {token : Token}
    (shape : Shape c more token) (rest : List Char) :
    ∃ found n, Token.scan c (more ++ rest) = some (found, n) ∧ more.length ≤ n := by
  cases shape with
  | mark spelled single =>
    subst single
    exact ⟨_, _, scan_mark spelled _, Nat.le_refl 0⟩
  | word start inside denotes =>
    refine ⟨_, _, scan_of_isNameStart start _, ?_⟩
    rw [List.takeWhile_append_of_pos inside, List.length_append]
    exact Nat.le_add_right _ _
  | @«variable» name note dollar spelled annotated split denotes =>
    subst dollar split
    have inside := isNameChar_of_isName spelled
    rw [List.append_assoc]
    refine ⟨_, _, scan_name_after_dollar spelled _, ?_⟩
    rcases annotated with rfl | ⟨digits, some, all, rfl⟩
    · rw [List.takeWhile_append_of_pos inside]
      simp only [List.append_nil, List.length_append]
      omega
    · -- The name cannot go on over the colon, so the annotation is looked for where it stands.
      have stops : (name.toList ++ (':' :: digits ++ rest)).takeWhile isNameChar = name.toList := by
        apply takeWhile_delimited inside
        intro d member
        obtain rfl : ':' = d := by simpa using member
        decide
      have annotation := length_le_annotationLength (.inr ⟨digits, some, all, rfl⟩) rest
      rw [stops, List.drop_left, List.length_append]
      omega

theorem take_length_takeWhile (p : Char → Bool) (text : List Char) :
    text.take (text.takeWhile p).length = text.takeWhile p :=
  (List.prefix_iff_eq_take.mp (List.takeWhile_prefix p)).symm

theorem of_mem_takeWhile {p : Char → Bool} {text : List Char} {c : Char}
    (member : c ∈ text.takeWhile p) : p c = true :=
  List.all_eq_true.mp List.all_takeWhile c member

theorem isAnnotation_take (text : List Char) :
    IsAnnotation (text.take (annotationLength text)) := by
  unfold annotationLength
  split
  · next rest =>
    by_cases none : (rest.takeWhile Char.isDigit).length = 0
    · simp [none, IsAnnotation]
    · right
      simp only [none, if_false, List.take_succ_cons, take_length_takeWhile]
      refine ⟨_, ?_, fun c member => of_mem_takeWhile member, rfl⟩
      intro empty
      exact none (by rw [empty]; rfl)
  · exact .inl rfl

theorem scan_none {c : Char} (mark : markToken? c = none) (dollar : c ≠ '$')
    (start : isNameStart c = false) (rest : List Char) : Token.scan c rest = none := by
  unfold markToken? at mark
  unfold Token.scan
  grind

theorem isName_takeWhile {first : Char} (start : isNameStart first = true) (more : List Char) :
    isName (String.ofList ((first :: more).takeWhile isNameChar)) = true := by
  have name : isNameChar first = true := by simp [isNameChar, start]
  rw [isName_iff, String.toList_ofList, List.takeWhile_cons_of_pos name]
  exact ⟨first, _, rfl, start, fun c member => of_mem_takeWhile member⟩

theorem Lexeme.of_scan {c : Char} {rest : List Char} {token : Token} {n : Nat}
    (scanned : Token.scan c rest = some (token, n)) : Lexeme (c :: rest.take n) token := by
  cases mark : markToken? c with
  | some own =>
    rw [scan_mark mark] at scanned
    cases scanned
    exact .mark mark
  | none =>
    by_cases dollar : c = '$'
    · subst dollar
      cases rest with
      | nil => cases scanned
      | cons first more =>
        by_cases start : isNameStart first = true
        · rw [scan_variable start] at scanned
          cases scanned
          have named := isName_takeWhile start more
          have noted := isAnnotation_take
            ((first :: more).drop ((first :: more).takeWhile isNameChar).length)
          have whole := Lexeme.variable named noted
          rw [String.toList_ofList] at whole
          rwa [List.take_add, take_length_takeWhile]
        · simp [Token.scan, start] at scanned
    · by_cases start : isNameStart c = true
      · rw [scan_of_isNameStart start] at scanned
        cases scanned
        have name : isNameChar c = true := by simp [isNameChar, start]
        have named := Lexeme.name (isName_takeWhile start rest)
        rw [String.toList_ofList, List.takeWhile_cons_of_pos name] at named
        rwa [take_length_takeWhile]
      · rw [scan_none mark dollar (by simpa using start)] at scanned
        cases scanned

/-- A text denotes one token at most. -/
theorem Lexeme.unique {text : List Char} {token other : Token} (first : Lexeme text token)
    (second : Lexeme text other) : token = other := by
  obtain ⟨c, more, rfl, shape⟩ := first.shape
  have same := shape.scan.symm.trans second.shape_cons.scan
  cases same
  rfl

theorem Lexeme.scan_of_prefix {c : Char} {text rest : List Char} {token : Token}
    (lexeme : Lexeme text token) (starts : text <+: c :: rest) :
    ∃ found n, Token.scan c rest = some (found, n) ∧ text.length ≤ n + 1 := by
  obtain ⟨first, more, rfl, shape⟩ := lexeme.shape
  obtain ⟨rfl, after, rfl⟩ := List.cons_prefix_cons.mp starts
  obtain ⟨found, n, scanned, long⟩ := shape.scan_append after
  exact ⟨found, n, scanned, Nat.succ_le_succ long⟩

theorem Munch.of_scan {c : Char} {rest : List Char} {token : Token} {n : Nat}
    (scanned : Token.scan c rest = some (token, n)) :
    Munch (c :: rest.take n) token (rest.drop n) := by
  constructor
  case lexeme => exact .of_scan scanned
  case longest =>
    intro longer other starts lexeme
    rw [List.cons_append, List.take_append_drop] at starts
    obtain ⟨found, m, again, short⟩ := lexeme.scan_of_prefix starts
    rw [scanned] at again
    cases again
    rwa [List.length_cons, List.length_take_of_le (Token.scan_le scanned)]

theorem Munch.scan {c : Char} {more rest : List Char} {token : Token}
    (munch : Munch (c :: more) token rest) :
    Token.scan c (more ++ rest) = some (token, more.length) := by
  have starts : c :: more <+: c :: (more ++ rest) := List.prefix_append _ rest
  obtain ⟨found, n, scanned, long⟩ := munch.lexeme.scan_of_prefix starts
  have taken := Lexeme.of_scan scanned
  have bound := Token.scan_le scanned
  have short : n + 1 ≤ more.length + 1 := by
    have most := munch.longest _ _ (List.take_prefix (n + 1) (c :: (more ++ rest))) taken
    rwa [List.take_succ_cons, List.length_cons, List.length_take_of_le bound] at most
  obtain rfl : n = more.length := Nat.le_antisymm (by omega) (Nat.le_of_succ_le_succ long)
  rw [List.take_left] at taken
  rw [scanned, taken.unique munch.lexeme]

theorem Munch.cut {text rest shorter : List Char} {token : Token} (munch : Munch text token rest)
    (cut : shorter <+: rest) : Munch text token shorter := by
  constructor
  case lexeme => exact munch.lexeme
  case longest =>
    intro longer other starts lexeme
    apply munch.longest longer other _ lexeme
    exact starts.trans ((List.prefix_append_right_inj text).mpr cut)

theorem not_lexeme_of_scan {c : Char} {rest : List Char} (scanned : Token.scan c rest = none)
    {text : List Char} (starts : text <+: c :: rest) (token : Token) : ¬Lexeme text token := by
  intro lexeme
  obtain ⟨found, n, again, -⟩ := lexeme.scan_of_prefix starts
  rw [scanned] at again
  cases again

end LoopTape
