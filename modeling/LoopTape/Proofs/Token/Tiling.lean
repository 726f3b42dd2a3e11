import LoopTape.Proofs.Token.Lexeme

/-! Lexing cuts a text into lexemes and gaps, and nothing else.

A tiling of a text is a sequence of lexemes, each the longest one that starts where it starts, with a
gap of blanks and comments in front of each and behind the last. Lexing gives the tokens of the one
tiling that a text has, or finds a place that can be no part of any.
-/

set_option autoImplicit false

namespace LoopTape

/-- Blanks, and comments that run to the end of their line. The last line ends where the text ends;
`rest` is the text behind the gap. -/
inductive Gap (rest : List Char) : List Char → Prop where
  | nil : Gap rest []
  | blank {c : Char} {gap : List Char} (blank : isBlank c = true) (more : Gap rest gap) :
    Gap rest (c :: gap)
  | comment {body gap : List Char} (line : ∀ c ∈ body, c ≠ '\n')
    (ends : ∀ c ∈ (gap ++ rest).head?, c = '\n') (more : Gap rest gap) :
    Gap rest ('/' :: '/' :: (body ++ gap))

/-- The tokens are those of the text's lexemes, which starts at byte `offset`. -/
inductive Tiling : Nat → List Char → List Placed → Prop where
  | last {offset : Nat} {gap : List Char} (skipped : Gap [] gap) : Tiling offset gap []
  | token {offset : Nat} {gap text rest : List Char} {token : Token} {placed : List Placed}
    (skipped : Gap (text ++ rest) gap) (munch : Munch text token rest)
    (after : Tiling (offset + byteLength (gap ++ text)) rest placed) :
    Tiling offset (gap ++ (text ++ rest))
      (⟨token, offset + byteLength gap, offset + byteLength (gap ++ text)⟩ :: placed)

theorem Gap.append {first second rest : List Char} (before : Gap (second ++ rest) first)
    (after : Gap rest second) : Gap rest (first ++ second) := by
  induction before with
  | nil => exact after
  | blank blank _ ih => exact .blank blank ih
  | @comment body gap line ends _ ih =>
    rw [List.cons_append, List.cons_append, List.append_assoc]
    exact .comment line (by rwa [List.append_assoc]) ih

theorem Gap.cut {gap rest shorter : List Char} (skipped : Gap rest gap)
    (cut : shorter <+: rest) : Gap shorter gap := by
  induction skipped with
  | nil => exact .nil
  | blank blank _ ih => exact .blank blank ih
  | @comment body gap line ends _ ih =>
    refine .comment line ?_ ih
    intro c member
    apply ends c
    -- What comes first behind the comment is the same, unless nothing is left of it.
    have starts : gap ++ shorter <+: gap ++ rest := (List.prefix_append_right_inj gap).mpr cut
    obtain ⟨more, whole⟩ := starts
    rw [← whole, List.head?_append, Option.mem_def.mp member]
    rfl

theorem drop_length_takeWhile (p : Char → Bool) (text : List Char) :
    text.drop (text.takeWhile p).length = text.dropWhile p := by
  calc text.drop (text.takeWhile p).length
      = (text.takeWhile p ++ text.dropWhile p).drop (text.takeWhile p).length := by
        rw [List.takeWhile_append_dropWhile]
    _ = text.dropWhile p := List.drop_left

theorem Gap.of_trivia {c : Char} {rest : List Char} {n : Nat}
    (trivia : triviaLength? c rest = some n) : Gap (rest.drop n) (c :: rest.take n) := by
  unfold triviaLength? at trivia
  split at trivia
  · next blank =>
    cases trivia
    exact .blank blank .nil
  · split at trivia
    · next comment =>
      cases trivia
      obtain ⟨rfl, second⟩ := comment
      obtain ⟨more, rfl⟩ := List.head?_eq_some_iff.mp second
      rw [List.takeWhile_cons_of_pos (by decide), List.length_cons, List.drop_succ_cons,
        List.take_succ_cons, take_length_takeWhile, drop_length_takeWhile,
        ← List.append_nil (more.takeWhile _)]
      refine .comment (fun c member => by simpa using of_mem_takeWhile member) ?_ .nil
      intro c member
      have stops := List.head?_dropWhile_not (· ≠ '\n') more
      rw [← List.nil_append (more.dropWhile _), Option.mem_def.mp member] at stops
      simpa using stops
    · cases trivia

theorem triviaLength?_blank {c : Char} (blank : isBlank c = true) (rest : List Char) :
    triviaLength? c rest = some 0 := by
  rw [triviaLength?, if_pos blank]

theorem triviaLength?_comment {body rest : List Char} (line : ∀ c ∈ body, c ≠ '\n')
    (ends : ∀ c ∈ rest.head?, c = '\n') :
    triviaLength? '/' ('/' :: (body ++ rest)) = some (body.length + 1) := by
  have stops : (body ++ rest).takeWhile (· ≠ '\n') = body := by
    apply takeWhile_delimited
    · simpa using line
    · simpa using ends
  rw [triviaLength?, if_neg (by decide), if_pos (by simp),
    List.takeWhile_cons_of_pos (by decide), stops, List.length_cons]

theorem lexFrom_gap {gap rest : List Char} (skipped : Gap rest gap) (offset : Nat) :
    lexFrom offset (gap ++ rest) = lexFrom (offset + byteLength gap) rest := by
  induction skipped generalizing offset with
  | nil => rfl
  | @blank c gap blank _ ih =>
    rw [List.cons_append, lexFrom, triviaLength?_blank blank]
    simp only [List.take_zero, List.drop_zero, ih, byteLength_cons, byteLength_nil, Nat.add_zero,
      Nat.add_assoc]
  | @comment body gap line ends _ ih =>
    have skips := triviaLength?_comment line ends
    rw [List.cons_append, List.cons_append, List.append_assoc, lexFrom, skips]
    simp only [List.take_succ_cons, List.drop_succ_cons, List.take_left, List.drop_left, ih,
      byteLength_cons, byteLength_append, Nat.add_assoc]

/-- No blank and no comment starts like a lexeme. -/
theorem Lexeme.triviaLength? {c : Char} {more : List Char} {token : Token}
    (lexeme : Lexeme (c :: more) token) (rest : List Char) : triviaLength? c rest = none := by
  cases lexeme.shape_cons with
  | mark spelled => exact triviaLength?_of_mark spelled rest
  | word start => exact triviaLength?_of_isNameStart start rest
  | «variable» dollar => subst dollar; rfl

/-- Lexing takes the longest lexeme and goes on behind it. -/
theorem lexFrom_munch {text rest : List Char} {token : Token} (munch : Munch text token rest)
    (offset : Nat) :
    lexFrom offset (text ++ rest) =
      (lexFrom (offset + byteLength text) rest).map
        (⟨token, offset, offset + byteLength text⟩ :: ·) := by
  obtain ⟨c, more, rfl, -⟩ := munch.lexeme.shape
  rw [List.cons_append, lexFrom, munch.lexeme.triviaLength?]
  simp only [munch.scan, List.take_left, List.drop_left]

theorem Tiling.skip {offset : Nat} {gap text : List Char} {placed : List Placed}
    (skipped : Gap text gap) (tiling : Tiling (offset + byteLength gap) text placed) :
    Tiling offset (gap ++ text) placed := by
  generalize start : offset + byteLength gap = begun at tiling
  cases tiling with
  | last more => exact .last (Gap.append (by rwa [List.append_nil]) more)
  | @token _ second lexeme rest token placed more munch after =>
    subst start
    have behind : Tiling (offset + byteLength ((gap ++ second) ++ lexeme)) rest placed := by
      simpa only [byteLength_append, Nat.add_assoc] using after
    have whole := Tiling.token (skipped.append more) munch behind
    simpa only [byteLength_append, Nat.add_assoc, List.append_assoc] using whole

theorem Tiling.lexeme {offset : Nat} {text rest : List Char} {token : Token}
    {placed : List Placed} (munch : Munch text token rest)
    (after : Tiling (offset + byteLength text) rest placed) :
    Tiling offset (text ++ rest) (⟨token, offset, offset + byteLength text⟩ :: placed) :=
  Tiling.token Gap.nil munch after

/-- The text in front of a place where nothing starts, and what stands there. -/
structure Stuck (offset : Nat) (text : List Char) (e : LexError) (before rest : List Char)
    (placed : List Placed) : Prop where
  split : text = before ++ e.found :: rest
  position : e.position = offset + byteLength before
  tiling : Tiling offset before placed
  noTrivia : triviaLength? e.found rest = none
  noToken : Token.scan e.found rest = none

theorem tiling_of_lexFrom {offset : Nat} {text : List Char} {placed : List Placed}
    (lexed : lexFrom offset text = .ok placed) : Tiling offset text placed := by
  fun_induction lexFrom offset text generalizing placed with
  | case1 offset =>
    cases lexed
    exact .last .nil
  | case2 offset c rest n trivia ih =>
    have tiling := (ih lexed).skip (.of_trivia trivia)
    rwa [List.cons_append, List.take_append_drop] at tiling
  | case3 offset c rest visible scanned => cases lexed
  | case4 offset c rest visible token n scanned stop =>
    rename_i ih
    cases later : lexFrom stop (rest.drop n) with
    | error e => rw [later] at lexed; cases lexed
    | ok others =>
      rw [later] at lexed
      cases lexed
      have tiling := Tiling.lexeme (.of_scan scanned) (ih later)
      rwa [List.cons_append, List.take_append_drop] at tiling

theorem lexFrom_of_tiling {offset : Nat} {text : List Char} {placed : List Placed}
    (tiling : Tiling offset text placed) : lexFrom offset text = .ok placed := by
  induction tiling with
  | @last offset gap skipped =>
    have ended := lexFrom_gap skipped offset
    rw [List.append_nil] at ended
    rw [ended, lexFrom]
  | @token offset gap text rest token placed skipped munch after ih =>
    rw [byteLength_append, ← Nat.add_assoc] at ih
    rw [lexFrom_gap skipped, lexFrom_munch munch, ih, byteLength_append, ← Nat.add_assoc]
    rfl

/-- A text has the tokens of its tiling. -/
theorem lexFrom_eq_ok_iff {offset : Nat} {text : List Char} {placed : List Placed} :
    lexFrom offset text = .ok placed ↔ Tiling offset text placed :=
  ⟨tiling_of_lexFrom, lexFrom_of_tiling⟩

namespace Stuck

variable {offset : Nat} {piece text before rest : List Char} {e : LexError} {placed : List Placed}

theorem before_prefix (stuck : Stuck offset text e before rest placed) : before <+: text :=
  ⟨_, stuck.split.symm⟩

theorem skip (skipped : Gap text piece)
    (stuck : Stuck (offset + byteLength piece) text e before rest placed) :
    Stuck offset (piece ++ text) e (piece ++ before) rest placed where
  split := by rw [stuck.split, List.append_assoc]
  position := by rw [stuck.position, byteLength_append, Nat.add_assoc]
  tiling := stuck.tiling.skip (skipped.cut stuck.before_prefix)
  noTrivia := stuck.noTrivia
  noToken := stuck.noToken

theorem lexeme {token : Token} (munch : Munch piece token text)
    (stuck : Stuck (offset + byteLength piece) text e before rest placed) :
    Stuck offset (piece ++ text) e (piece ++ before) rest
      (⟨token, offset, offset + byteLength piece⟩ :: placed) where
  split := by rw [stuck.split, List.append_assoc]
  position := by rw [stuck.position, byteLength_append, Nat.add_assoc]
  tiling := stuck.tiling.lexeme (munch.cut stuck.before_prefix)
  noTrivia := stuck.noTrivia
  noToken := stuck.noToken

end Stuck

/-- Lexing fails behind a text that has a tiling, where neither a token nor a gap starts. -/
theorem stuck_of_lexFrom {offset : Nat} {text : List Char} {e : LexError}
    (failed : lexFrom offset text = .error e) :
    ∃ before rest placed, Stuck offset text e before rest placed := by
  fun_induction lexFrom offset text with
  | case1 offset => cases failed
  | case2 offset c rest n trivia ih =>
    obtain ⟨before, after, placed, stuck⟩ := ih failed
    have whole := stuck.skip (.of_trivia trivia)
    rw [List.cons_append, List.take_append_drop] at whole
    exact ⟨_, after, placed, whole⟩
  | case3 offset c rest visible scanned =>
    cases failed
    exact ⟨[], rest, [], rfl, rfl, .last .nil, visible, scanned⟩
  | case4 offset c rest visible token n scanned stop =>
    rename_i ih
    cases later : lexFrom stop (rest.drop n) with
    | ok others => rw [later] at failed; cases failed
    | error other =>
      rw [later] at failed
      cases failed
      obtain ⟨before, after, placed, stuck⟩ := ih later
      have whole := stuck.lexeme (.of_scan scanned)
      rw [List.cons_append, List.take_append_drop] at whole
      exact ⟨_, after, _, whole⟩

/-- The token is the one its span's text denotes, with the longest lexeme that starts there. The ends
of the span lie between characters. -/
def Placed.Stands (text : List Char) (p : Placed) : Prop :=
  ∃ before lexeme after, text = before ++ (lexeme ++ after) ∧
    p.span = ⟨byteLength before, byteLength (before ++ lexeme)⟩ ∧ Munch lexeme p.token after

theorem Lexeme.byteLength_pos {text : List Char} {token : Token} (lexeme : Lexeme text token) :
    0 < byteLength text := by
  obtain ⟨c, more, rfl, -⟩ := lexeme.shape
  exact Nat.add_pos_left c.utf8Size_pos _

theorem Placed.Stands.bounds {text : List Char} {p : Placed} (stands : p.Stands text) :
    p.span.start < p.span.stop ∧ p.span.stop ≤ byteLength text := by
  obtain ⟨before, lexeme, after, rfl, span, munch⟩ := stands
  have positive := munch.lexeme.byteLength_pos
  simp only [span, byteLength_append]
  omega

theorem Tiling.stands (front : List Char) {text : List Char} {placed : List Placed}
    (tiling : Tiling (byteLength front) text placed) : ∀ p ∈ placed, p.Stands (front ++ text) := by
  generalize begun : byteLength front = offset at tiling
  induction tiling generalizing front with
  | last => exact fun _ member => nomatch member
  | @token offset gap lexeme rest token placed skipped munch after ih =>
    subst begun
    intro p member
    rcases List.mem_cons.mp member with rfl | behind
    · refine ⟨front ++ gap, lexeme, rest, ?_, ?_, munch⟩
      · simp only [List.append_assoc]
      · simp only [byteLength_append, Nat.add_assoc]
    · have stands := ih (front ++ (gap ++ lexeme)) (byteLength_append ..) p behind
      simpa only [List.append_assoc] using stands

theorem Tiling.start_le {offset : Nat} {text : List Char} {placed : List Placed}
    (tiling : Tiling offset text placed) : ∀ p ∈ placed, offset ≤ p.span.start := by
  induction tiling with
  | last => exact fun _ member => nomatch member
  | token skipped munch after ih =>
    intro p member
    rcases List.mem_cons.mp member with rfl | behind
    · exact Nat.le_add_right _ _
    · exact Nat.le_trans (Nat.le_add_right _ _) (ih p behind)

theorem Tiling.start_lt_stop {offset : Nat} {text : List Char} {placed : List Placed}
    (tiling : Tiling offset text placed) : ∀ p ∈ placed, p.span.start < p.span.stop := by
  induction tiling with
  | last => exact fun _ member => nomatch member
  | token skipped munch after ih =>
    have wide := munch.lexeme.byteLength_pos
    intro p member
    rcases List.mem_cons.mp member with rfl | behind
    · simp only [byteLength_append]
      omega
    · exact ih p behind

theorem Tiling.ordered {offset : Nat} {text : List Char} {placed : List Placed}
    (tiling : Tiling offset text placed) :
    placed.Pairwise (fun a b => a.span.stop ≤ b.span.start) := by
  induction tiling with
  | last => exact .nil
  | token skipped munch after ih => exact .cons (fun p behind => after.start_le p behind) ih

/-- What a refusal says of a text: `before` can be lexed, and nothing starts behind it. -/
structure Refused (before rest : List Char) (e : LexError) : Prop where
  position : e.position = byteLength before
  lexes : ∃ placed, lex (String.ofList before) = .ok placed
  noGap : ∀ gap after, gap ++ after = rest → Gap after gap → gap = []
  noLexeme : ∀ text token, text <+: rest → ¬Lexeme text token
  snippet : e.snippet.toList ≠ [] ∧ e.snippet.toList <+: rest

theorem Gap.trivia {c : Char} {rest gap after : List Char} (visible : triviaLength? c rest = none)
    (split : gap ++ after = c :: rest) (skipped : Gap after gap) : gap = [] := by
  cases skipped with
  | nil => rfl
  | blank blank =>
    obtain ⟨rfl, rfl⟩ := List.cons.inj split
    rw [triviaLength?_blank blank] at visible
    cases visible
  | comment line ends =>
    obtain ⟨rfl, same⟩ := List.cons.inj split
    rw [← same, List.append_eq, List.cons_append, List.append_assoc,
      triviaLength?_comment line ends] at visible
    cases visible

theorem Stuck.refused {text before rest : List Char} {e : LexError} {placed : List Placed}
    (stuck : Stuck 0 text e before rest placed) : Refused before (e.found :: rest) e where
  position := by rw [stuck.position, Nat.zero_add]
  lexes := ⟨placed, by rw [lex, String.toList_ofList]; exact lexFrom_of_tiling stuck.tiling⟩
  noGap := fun _ _ split skipped => skipped.trivia stuck.noTrivia split
  noLexeme := fun _ token starts => not_lexeme_of_scan stuck.noToken starts token
  snippet := by simp [LexError.snippet]

theorem byteLength_eq_utf8ByteSize (text : List Char) :
    byteLength text = (String.ofList text).utf8ByteSize := by
  induction text with
  | nil => rfl
  | cons c rest ih =>
    rw [byteLength_cons, ih, String.ofList_cons, String.utf8ByteSize_append,
      String.utf8ByteSize_singleton]

/-- The tokens of a text are those of its one tiling. They stand in the text one behind the other,
each where its span says. If there is no tiling, the text is refused where neither a token nor a gap
starts, behind a text that has one. -/
theorem lex_tiles (source : String) :
    (∀ placed, lex source = .ok placed ↔ Tiling 0 source.toList placed) ∧
      (∀ placed, lex source = .ok placed →
        placed.Pairwise (fun a b => a.span.stop ≤ b.span.start) ∧
          ∀ p ∈ placed, p.Stands source.toList ∧ p.span.start < p.span.stop ∧
            p.span.stop ≤ source.utf8ByteSize) ∧
      (∀ e, lex source = .error e →
        ∃ before rest, source.toList = before ++ rest ∧ Refused before rest e) := by
  refine ⟨fun placed => lexFrom_eq_ok_iff, ?_, ?_⟩
  · intro placed lexed
    have tiling := tiling_of_lexFrom lexed
    refine ⟨tiling.ordered, ?_⟩
    intro p member
    have stands := Tiling.stands [] tiling p member
    have bounds := stands.bounds
    rw [List.nil_append, byteLength_eq_utf8ByteSize, String.ofList_toList] at bounds
    exact ⟨stands, bounds⟩
  · intro e failed
    obtain ⟨before, rest, placed, stuck⟩ := stuck_of_lexFrom failed
    exact ⟨before, e.found :: rest, stuck.split, stuck.refused⟩

end LoopTape
