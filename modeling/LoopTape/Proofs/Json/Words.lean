import Mathlib.Data.List.TakeWhile
import LoopTape.Json.Reading
import LoopTape.Json.Writing

/-! The lexemes of what is written.

A text spells some lexemes if reading it between two others adds just these. A number or a literal word
ends only where something else begins, so what follows it must not go on with the word.
-/

set_option autoImplicit false

namespace LoopTape.Json

theorem digitsValue_toDigits (n : Nat) : digitsValue (Nat.toDigits 10 n) = n := by
  have same : digitsValue (Nat.toDigits 10 n) = Nat.ofDigitChars 10 (Nat.toDigits 10 n) 0 := by
    simp only [digitsValue, Nat.ofDigitChars_eq_foldl, Nat.mul_comm]
    rfl
  rw [same, Nat.ofDigitChars_ten_toDigits]

theorem isDigit_of_mem_toDigits {n : Nat} {c : Char} (member : c ∈ Nat.toDigits 10 n) :
    c.isDigit = true := Nat.isDigit_of_mem_toDigits (by decide) (by decide) member

theorem eq_zero_of_head?_toDigits (n : Nat) (zero : (Nat.toDigits 10 n).head? = some '0') : n = 0 := by
  rw [Nat.toDigits_eq_if (by decide)] at zero
  split at zero
  · simpa using zero
  · -- The first digit is that of the number without its last one.
    have front : (Nat.toDigits 10 (n / 10)).head? = some '0' := by
      cases listed : Nat.toDigits 10 (n / 10) with
      | nil => exact absurd listed Nat.toDigits_ne_nil
      | cons c rest => simpa [listed] using zero
    have none := eq_zero_of_head?_toDigits (n / 10) front
    omega
termination_by n

theorem isWhole_toDigits (n : Nat) : isWhole (Nat.toDigits 10 n) = true := by
  have digits : (Nat.toDigits 10 n).all Char.isDigit = true :=
    List.all_eq_true.mpr fun _ => isDigit_of_mem_toDigits
  have leading : (Nat.toDigits 10 n).head? ≠ some '0' ∨ (Nat.toDigits 10 n).length = 1 := by
    by_cases zero : (Nat.toDigits 10 n).head? = some '0'
    · rw [eq_zero_of_head?_toDigits n zero, Nat.toDigits_zero]
      exact .inr rfl
    · exact .inl zero
  simpa [isWhole, digits] using leading

theorem number?_whole {digits : List Char} (whole : isWhole digits = true) :
    number? digits = some (.int (digitsValue digits)) ∧
      number? ('-' :: digits) = some (.int (-(digitsValue digits))) := by
  have all : ∀ c ∈ digits, c.isDigit = true := by
    simp only [isWhole, Bool.and_eq_true, List.all_eq_true] at whole
    exact whole.1.2
  have taken : digits.takeWhile Char.isDigit = digits := List.takeWhile_eq_self_iff.mpr all
  have unsigned (rest : List Char) : digits ≠ '-' :: rest := by
    rintro rfl
    exact absurd (all '-' List.mem_cons_self) (by decide)
  constructor
  · simp [number?, taken, whole, isTail, isScale]
  · simp [number?, taken, whole, isTail, isScale]

theorem word?_of_number {c : Char} {rest : List Char} (letters : c ≠ 'n' ∧ c ≠ 't' ∧ c ≠ 'f') :
    word? (c :: rest) = number? (c :: rest) := by
  simp [word?, letters]

theorem toList_toString_ofNat (n : Nat) : (toString (Int.ofNat n)).toList = Nat.toDigits 10 n :=
  Nat.toList_repr

theorem toList_toString_negSucc (n : Nat) :
    (toString (Int.negSucc n)).toList = '-' :: Nat.toDigits 10 (n + 1) := by
  show ("-" ++ Nat.repr (n + 1)).toList = _
  rw [String.toList_append, Nat.toList_repr]
  rfl

theorem word?_int (value : Int) : word? (toString value).toList = some (.int value) := by
  cases value with
  | ofNat n =>
    have read : number? (Nat.toDigits 10 n) = some (.int n) := by
      rw [(number?_whole (isWhole_toDigits n)).1, digitsValue_toDigits]
    rw [toList_toString_ofNat]
    cases listed : Nat.toDigits 10 n with
    | nil => exact absurd listed Nat.toDigits_ne_nil
    | cons c rest =>
      have digit : c.isDigit = true := isDigit_of_mem_toDigits (listed ▸ List.mem_cons_self)
      have letters : c ≠ 'n' ∧ c ≠ 't' ∧ c ≠ 'f' := by
        refine ⟨?_, ?_, ?_⟩ <;> rintro rfl <;> exact absurd digit (by decide)
      rw [word?_of_number letters, ← listed, read]
      rfl
  | negSucc n =>
    rw [toList_toString_negSucc, word?_of_number (by decide),
      (number?_whole (isWhole_toDigits (n + 1))).2, digitsValue_toDigits]
    rfl

/-- Reading the text completes the lexemes, whatever came before and whatever follows. -/
def Marks (text : List Char) (spelled : List Lexeme) : Prop :=
  ∀ done rest,
    lexemesFrom done .between (text ++ rest) = lexemesFrom (spelled.reverse ++ done) .between rest

def Apart (text : List Char) : Prop := ∀ c ∈ text.head?, isWordChar c = false

/-- Reading the text completes the lexemes if what follows does not go on with its last word. -/
def Spells (text : List Char) (spelled : List Lexeme) : Prop :=
  ∀ done rest, Apart rest →
    lexemesFrom done .between (text ++ rest) = lexemesFrom (spelled.reverse ++ done) .between rest

/-- A text of marks that may stand behind a word. -/
structure Closes (text : List Char) (spelled : List Lexeme) : Prop where
  marks : Marks text spelled
  apart : ∀ rest, Apart (text ++ rest)

theorem Marks.append {a b : List Char} {first second : List Lexeme} (inFirst : Marks a first)
    (inSecond : Marks b second) : Marks (a ++ b) (first ++ second) := by
  intro done rest
  rw [List.append_assoc, inFirst, inSecond, List.reverse_append, List.append_assoc]

theorem Marks.spells {text : List Char} {spelled : List Lexeme} (marks : Marks text spelled) :
    Spells text spelled := fun done rest _ => marks done rest

theorem Spells.closed {a b : List Char} {first second : List Lexeme} (inFirst : Spells a first)
    (closing : Closes b second) : Marks (a ++ b) (first ++ second) := by
  intro done rest
  rw [List.append_assoc, inFirst _ _ (closing.apart rest), closing.marks, List.reverse_append,
    List.append_assoc]

theorem Closes.of_marks {c : Char} {text : List Char} {spelled : List Lexeme}
    (other : isWordChar c = false) (marks : Marks (c :: text) spelled) : Closes (c :: text) spelled :=
  ⟨marks, fun _ _ head => Option.some.inj head ▸ other⟩

theorem Spells.lexemes {text : String} {spelled : List Lexeme} (spells : Spells text.toList spelled) :
    lexemes text = some spelled := by
  have read := spells [] [] nofun
  rw [List.append_nil, List.append_nil] at read
  rw [Json.lexemes, read, lexemesFrom, Mode.finish, Option.map_some, List.reverse_reverse,
    List.append_nil]

theorem isWordChar_of_isBlank {c : Char} (blank : isBlank c = true) : isWordChar c = false := by
  simp only [isBlank, Bool.or_eq_true, decide_eq_true_eq] at blank
  rcases blank with ((rfl | rfl) | rfl) | rfl <;> decide

theorem Mode.start_word {c : Char} (word : isWordChar c = true) :
    Mode.start c = some ([], .word [c]) := by
  have blank : isBlank c = false := by
    apply Bool.eq_false_iff.mpr
    intro blank
    rw [isWordChar_of_isBlank blank] at word
    cases word
  have quote : c ≠ '"' := by
    rintro rfl
    exact absurd word (by decide)
  simp [Mode.start, blank, quote, word]

theorem lexemesFrom_word (done : List Lexeme) (read : List Char) {word : List Char}
    (chars : ∀ c ∈ word, isWordChar c = true) (rest : List Char) :
    lexemesFrom done (.word read) (word ++ rest) =
      lexemesFrom done (.word (word.reverse ++ read)) rest := by
  induction word generalizing read with
  | nil => rfl
  | cons c word ih =>
    have next : Mode.next c (.word read) = some ([], .word (c :: read)) := by
      rw [Mode.next, if_pos (chars c List.mem_cons_self)]
    have later := ih (c :: read) fun x member => chars x (List.mem_cons_of_mem c member)
    rw [List.cons_append, lexemesFrom, next, List.reverse_cons, List.append_assoc]
    exact later

theorem spells_word {c : Char} {word : List Char} {value : Json}
    (chars : ∀ x ∈ c :: word, isWordChar x = true) (reads : word? (c :: word) = some value) :
    Spells (c :: word) [.scalar value] := by
  intro done rest apart
  have begun : lexemesFrom done .between (c :: word ++ rest) =
      lexemesFrom done (.word (c :: word).reverse) rest := by
    rw [List.reverse_cons, List.cons_append, lexemesFrom, Mode.next,
      Mode.start_word (chars c List.mem_cons_self)]
    exact lexemesFrom_word done [c] (fun x member => chars x (List.mem_cons_of_mem c member)) rest
  rw [begun]
  -- The word ends with the text or at a character that is not its own, which is read again.
  cases rest with
  | nil => simp [lexemesFrom, Mode.finish, reads]
  | cons x rest =>
    have other : isWordChar x = false := apart x rfl
    simp only [lexemesFrom, Mode.next, other, List.reverse_reverse, reads]
    cases Mode.start x with
    | none => rfl
    | some started => simp

theorem isWordChar_of_isDigit {c : Char} (digit : c.isDigit = true) : isWordChar c = true := by
  simp [isWordChar, Char.isAlphanum, digit]

theorem spells_int (value : Int) : Spells (toString value).toList [.scalar (.int value)] := by
  have chars : ∀ c ∈ (toString value).toList, isWordChar c = true := by
    intro c member
    cases value with
    | ofNat n =>
      rw [toList_toString_ofNat] at member
      exact isWordChar_of_isDigit (isDigit_of_mem_toDigits member)
    | negSucc n =>
      rw [toList_toString_negSucc] at member
      rcases List.mem_cons.mp member with rfl | inDigits
      · rfl
      · exact isWordChar_of_isDigit (isDigit_of_mem_toDigits inDigits)
  have reads := word?_int value
  cases listed : (toString value).toList with
  | nil =>
    have none : word? [] = none := rfl
    exact nomatch (listed ▸ none).symm.trans reads
  | cons c word =>
    rw [listed] at chars reads
    exact spells_word chars reads

theorem hexDigit?_digitChar {n : Nat} (small : n < 16) : hexDigit? (Nat.digitChar n) = some n := by
  have all : ∀ n < 16, hexDigit? (Nat.digitChar n) = some n := by decide
  exact all n small

/-- A character is read back from its form inside a string. -/
theorem lexemesFrom_escapeChar (done : List Lexeme) (read : List Char) (c : Char) (rest : List Char) :
    lexemesFrom done (.text read) (escapeChar c ++ rest) =
      lexemesFrom done (.text (c :: read)) rest := by
  by_cases short : c ∈ ['"', '\\', '\x08', '\x0c', '\n', '\r', '\t']
  · simp only [List.mem_cons, List.not_mem_nil, or_false] at short
    rcases short with rfl | rfl | rfl | rfl | rfl | rfl | rfl <;> rfl
  · simp only [List.mem_cons, List.not_mem_nil, or_false, not_or] at short
    by_cases control : c.toNat < 32
    · -- The two digits that are not zero make up the number of the character.
      have first := hexDigit?_digitChar (show c.toNat / 16 < 16 by omega)
      have second := hexDigit?_digitChar (show c.toNat % 16 < 16 by omega)
      have shape : escapeChar c = controlEscape c.toNat := by simp [escapeChar, short, control]
      have whole : c.toNat / 16 * 16 + c.toNat % 16 = c.toNat := by omega
      have closed : closeUnit read none c.toNat = some (.text (c :: read)) := by
        have low : ¬ 0xD800 ≤ c.toNat := by omega
        have low' : ¬ 0xDC00 ≤ c.toNat := by omega
        simp [closeUnit, low, low', Char.ofNat_toNat]
      rw [shape]
      show lexemesFrom done (.unit read none 2 0)
        (Nat.digitChar (c.toNat / 16) :: Nat.digitChar (c.toNat % 16) :: rest) = _
      simp [lexemesFrom, Mode.next, first, second, whole, closed]
    · have shape : escapeChar c = [c] := by simp [escapeChar, short, control]
      have next : Mode.next c (.text read) = some ([], .text (c :: read)) := by
        simp [Mode.next, short, control]
      rw [shape, List.singleton_append, lexemesFrom, next]
      rfl

theorem lexemesFrom_text (done : List Lexeme) (read chars rest : List Char) :
    lexemesFrom done (.text read) (chars.flatMap escapeChar ++ '"' :: rest) =
      lexemesFrom (.text (String.ofList (read.reverse ++ chars)) :: done) .between rest := by
  induction chars generalizing read with
  | nil =>
    rw [List.append_nil]
    rfl
  | cons c chars ih =>
    rw [List.flatMap_cons, List.append_assoc, lexemesFrom_escapeChar, ih, List.reverse_cons,
      List.append_assoc, List.singleton_append]

theorem marks_quote (s : String) : Marks (quote s).toList [.text s] := by
  intro done rest
  have begun : lexemesFrom done .between ((quote s).toList ++ rest) =
      lexemesFrom done (.text []) (s.toList.flatMap escapeChar ++ '"' :: rest) := by
    rw [quote, String.toList_ofList, List.cons_append, List.cons_append, List.append_assoc]
    rfl
  rw [begun, lexemesFrom_text, List.reverse_nil, List.nil_append, String.ofList_toList]
  rfl

theorem marks_blanks {blanks : List Char} (all : ∀ c ∈ blanks, isBlank c = true) :
    Marks blanks [] := by
  intro done rest
  induction blanks with
  | nil => rfl
  | cons c blanks ih =>
    have start : Mode.start c = some ([], .between) := by
      rw [Mode.start, if_pos (all c List.mem_cons_self)]
    have later := ih fun x member => all x (List.mem_cons_of_mem c member)
    rw [List.cons_append, lexemesFrom, Mode.next, start]
    exact later

theorem isBlank_newLine (depth : Nat) : ∀ c ∈ (newLine depth).toList, isBlank c = true := by
  intro c member
  rw [newLine, String.toList_ofList] at member
  rcases List.mem_cons.mp member with rfl | inIndent
  · rfl
  · rw [List.eq_of_mem_replicate inIndent]
    rfl

/-- Blanks may stand between a word and what it is ended by. -/
theorem Closes.after_blanks {blanks text : List Char} {spelled : List Lexeme}
    (closes : Closes text spelled) (all : ∀ c ∈ blanks, isBlank c = true) :
    Closes (blanks ++ text) spelled := by
  cases blanks with
  | nil => exact closes
  | cons c blanks =>
    have other := isWordChar_of_isBlank (all c List.mem_cons_self)
    exact .of_marks other ((marks_blanks all).append closes.marks)

end LoopTape.Json
