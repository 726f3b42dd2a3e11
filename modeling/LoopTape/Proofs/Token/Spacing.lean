import LoopTape.Proofs.Token.Slicing

/-! More blanks and comments between the tokens.

No lexeme contains a blank or a slash. So where one lexeme starts or stops, blanks and whole comments can
be put in, and neither the lexemes in front nor those behind become others: those behind stand further on.
-/

set_option autoImplicit false

namespace LoopTape

/-- Blanks, and comments with the line feeds that end them. -/
inductive Spacing : List Char → Prop where
  | nil : Spacing []
  | blank {c : Char} {more : List Char} (blank : isBlank c = true) (rest : Spacing more) :
    Spacing (c :: more)
  | comment {body more : List Char} (line : ∀ c ∈ body, c ≠ '\n') (rest : Spacing more) :
    Spacing ('/' :: '/' :: (body ++ '\n' :: more))

/-- The same token where `size` bytes are put in at `place`: it stands further on if it is behind. -/
def Placed.insert (place size : Nat) (p : Placed) : Placed :=
  if place ≤ p.span.start then p.shift size else p

theorem Spacing.gap {extra : List Char} (spacing : Spacing extra) (rest : List Char) : Gap rest extra := by
  induction spacing with
  | nil => exact .nil
  | blank blank _ ih => exact .blank blank ih
  | comment line _ ih => exact .comment line (fun c first => (Option.some.inj first).symm) (.blank rfl ih)

/-- A gap in front of something else than a line feed ends no comment with it, so it is a gap in front of
anything. -/
theorem Gap.anywhere {c : Char} {rest gap : List Char} (skipped : Gap (c :: rest) gap)
    (other : c ≠ '\n') (behind : List Char) : Gap behind gap := by
  induction skipped with
  | nil => exact .nil
  | blank blank _ ih => exact .blank blank ih
  | @comment body gap line ends _ ih =>
    refine .comment line ?_ ih
    cases gap with
    | nil => exact absurd (ends c rfl) other
    | cons d more => exact fun x first => ends x first

def Separates (c : Char) : Prop := isBlank c = true ∨ c = '/'

theorem Spacing.separates {c : Char} {more : List Char} (spacing : Spacing (c :: more)) :
    Separates c := by
  cases spacing with
  | blank blank => exact .inl blank
  | comment => exact .inr rfl

theorem not_separates_of_isNameChar {c : Char} (name : isNameChar c = true) : ¬Separates c := by
  have other {d : Char} (none : isNameChar d = false) : c ≠ d := by
    rintro rfl
    exact absurd name (by simp [none])
  rintro (blank | slash)
  · simp only [isBlank, Bool.or_eq_true, decide_eq_true_eq] at blank
    rcases blank with ((space | tab) | ret) | feed
    · exact other (by decide) space
    · exact other (by decide) tab
    · exact other (by decide) ret
    · exact other (by decide) feed
  · exact other (by decide) slash

theorem Lexeme.not_separates {text : List Char} {token : Token} (lexeme : Lexeme text token) :
    ∀ c ∈ text, ¬Separates c := by
  obtain ⟨first, more, rfl, shape⟩ := lexeme.shape
  cases shape with
  | mark spelled single =>
    subst single
    intro c member
    obtain rfl := List.mem_singleton.mp member
    rintro (blank | rfl)
    · have visible := triviaLength?_of_mark spelled []
      rw [triviaLength?_blank blank] at visible
      cases visible
    · cases spelled
  | word start inside =>
    intro c member
    rcases List.mem_cons.mp member with rfl | later
    · exact not_separates_of_isNameChar (by simp [isNameChar, start])
    · exact not_separates_of_isNameChar (inside c later)
  | «variable» dollar spelled annotated split =>
    subst dollar split
    intro c member
    rcases List.mem_cons.mp member with rfl | later
    · simp [Separates, isBlank]
    · rcases List.mem_append.mp later with inName | inNote
      · exact not_separates_of_isNameChar (isNameChar_of_isName spelled c inName)
      · rcases annotated with rfl | ⟨digits, -, all, rfl⟩
        · cases inNote
        · rcases List.mem_cons.mp inNote with rfl | inDigits
          · simp [Separates, isBlank]
          · exact not_separates_of_isNameChar (by simp [isNameChar, all c inDigits])

/-- A lexeme that goes into the spacing would contain its first character. -/
theorem Munch.insert {text front back extra : List Char} {token : Token}
    (munch : Munch text token (front ++ back)) (spacing : Spacing extra) :
    Munch text token (front ++ (extra ++ back)) := by
  cases extra with
  | nil => exact munch
  | cons c extra =>
    constructor
    case lexeme => exact munch.lexeme
    case longest =>
      intro longer other starts lexeme
      rw [← List.append_assoc] at starts
      rcases List.prefix_or_prefix_of_prefix starts (List.prefix_append _ _) with inside | beyond
      · exact munch.longest longer other (inside.trans ⟨back, List.append_assoc ..⟩) lexeme
      · obtain ⟨more, rfl⟩ := beyond
        cases more with
        | nil =>
          rw [List.append_nil] at lexeme ⊢
          exact munch.longest _ other ⟨back, List.append_assoc ..⟩ lexeme
        | cons d more =>
          obtain ⟨rfl, -⟩ := List.cons_prefix_cons.mp ((List.prefix_append_right_inj _).mp starts)
          exact absurd spacing.separates (lexeme.not_separates d (by simp))

theorem Lexeme.head_ne_lineFeed {c : Char} {text : List Char} {token : Token}
    (lexeme : Lexeme (c :: text) token) : c ≠ '\n' := by
  rintro rfl
  exact lexeme.not_separates '\n' List.mem_cons_self (.inl rfl)

theorem Munch.gap_anywhere {text rest gap : List Char} {token : Token} (munch : Munch text token rest)
    (skipped : Gap (text ++ rest) gap) (behind : List Char) : Gap behind gap := by
  obtain ⟨c, more, rfl, -⟩ := munch.lexeme.shape
  exact skipped.anywhere munch.lexeme.head_ne_lineFeed behind

/-- A text that starts further on, behind the place, has all its tokens further on. -/
theorem Tiling.insert_before {place size offset : Nat} {text : List Char} {placed : List Placed}
    (tiling : Tiling offset text placed) (behind : place ≤ offset) :
    Tiling (offset + size) text (placed.map (·.insert place size)) := by
  induction tiling with
  | last skipped => exact .last skipped
  | @token offset gap lexeme rest token placed skipped munch after ih =>
    have later := ih (Nat.le_trans behind (Nat.le_add_right _ _))
    have reaches : place ≤ offset + byteLength gap := Nat.le_trans behind (Nat.le_add_right _ _)
    rw [Nat.add_right_comm] at later
    have whole := Tiling.token skipped munch later
    rw [List.map_cons, Placed.insert, if_pos reaches, Placed.shift, Span.shift, Nat.add_right_comm,
      Nat.add_right_comm offset (byteLength (gap ++ lexeme))]
    exact whole

theorem exists_of_byteLength_le {a b c d : List Char} (split : a ++ b = c ++ d)
    (shorter : byteLength a ≤ byteLength c) : ∃ more, c = a ++ more ∧ b = more ++ d := by
  rcases List.append_eq_append_iff.mp split with longer | ⟨more, rfl, rfl⟩
  · exact longer
  · rw [byteLength_append] at shorter
    obtain rfl := eq_nil_of_byteLength (show byteLength more = 0 by omega)
    exact ⟨[], by simp, rfl⟩

theorem eq_of_byteLength_eq {a b c d : List Char} (split : a ++ b = c ++ d)
    (same : byteLength a = byteLength c) : a = c ∧ b = d := by
  obtain ⟨more, rfl, rfl⟩ := exists_of_byteLength_le split (Nat.le_of_eq same)
  rw [byteLength_append] at same
  obtain rfl := eq_nil_of_byteLength (show byteLength more = 0 by omega)
  exact ⟨(List.append_nil a).symm, rfl⟩

/-- Spacing in front of a text whose tokens all stand behind it. -/
theorem Tiling.space {extra : List Char} (spacing : Spacing extra) {offset place : Nat}
    {text : List Char} {placed : List Placed} (tiling : Tiling offset text placed)
    (behind : place ≤ offset) :
    Tiling offset (extra ++ text) (placed.map (·.insert place (byteLength extra))) :=
  (tiling.insert_before behind).skip (spacing.gap text)

/-- Spacing at a place where one of the tokens starts or stops. -/
theorem Tiling.insert {extra : List Char} (spacing : Spacing extra) {offset place : Nat}
    {text front back : List Char} {placed : List Placed} (tiling : Tiling offset text placed)
    (split : text = front ++ back) (here : place = offset + byteLength front) {p : Placed}
    (member : p ∈ placed) (boundary : place = p.span.start ∨ place = p.span.stop) :
    Tiling offset (front ++ (extra ++ back)) (placed.map (·.insert place (byteLength extra))) := by
  induction tiling generalizing front with
  | last => cases member
  | @token offset gap lexeme rest token placed skipped munch after ih =>
    have wide := munch.lexeme.byteLength_pos
    have anywhere := munch.gap_anywhere skipped
    by_cases atStart : place = offset + byteLength gap
    · have same : byteLength gap = byteLength front := by omega
      obtain ⟨rfl, rfl⟩ := eq_of_byteLength_eq split same
      have own : Tiling (offset + byteLength gap) (lexeme ++ rest)
          (⟨token, offset + byteLength gap, offset + byteLength (gap ++ lexeme)⟩ :: placed) := by
        rw [byteLength_append, ← Nat.add_assoc] at after ⊢
        exact .lexeme munch after
      exact (own.space spacing (Nat.le_of_eq atStart)).skip (anywhere _)
    · -- The first token stays where it is, and the place is behind it.
      have reaches : offset + byteLength (gap ++ lexeme) ≤ place := by
        rcases List.mem_cons.mp member with rfl | later
        · rcases boundary with start | stop
          · exact absurd start atStart
          · exact Nat.le_of_eq stop.symm
        · have start := after.start_le p later
          have stop := after.start_lt_stop p later
          omega
      rw [← List.append_assoc] at split
      obtain ⟨more, rfl, rfl⟩ := exists_of_byteLength_le split (by omega)
      have later : Tiling (offset + byteLength (gap ++ lexeme)) (more ++ (extra ++ back))
          (placed.map (·.insert place (byteLength extra))) := by
        rcases List.mem_cons.mp member with rfl | later
        · -- The place is where the token stops, so what follows is all behind.
          have stop : place = offset + byteLength (gap ++ lexeme) := boundary.resolve_left atStart
          obtain rfl : more = [] := eq_nil_of_byteLength (by rw [byteLength_append] at here; omega)
          exact after.space spacing (Nat.le_of_eq stop)
        · exact ih rfl (by rw [here, byteLength_append, Nat.add_assoc]) later
      have whole := Tiling.token (anywhere _) (munch.insert spacing) later
      have stays : ¬place ≤ offset + byteLength gap := by
        rw [byteLength_append] at reaches
        omega
      rw [List.map_cons, Placed.insert, if_neg stays]
      simpa only [List.append_assoc] using whole

end LoopTape
