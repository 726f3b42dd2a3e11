import LoopTape.Proofs.Tree.Acceptance

/-! Reading fails at the first token that no block goes on with.

Whatever has been opened can be closed: from each state there are tokens that end what was begun, up to
the root. So as long as reading goes on, some block starts with the tokens read. Reading needs no token
twice and looks at none ahead, so a token that it refuses it refuses whatever comes behind.
-/

set_option autoImplicit false

namespace LoopTape

def Place.ending : Place → List Token
  | .root => []
  | .statement _ outer | .thenBranch _ _ outer | .elseBranch _ _ _ outer | .loopBody _ _ _ outer =>
    .closeBrace :: outer.ending

def Wrap.ending : Wrap → List Token
  | .paren => [.closeParen]
  | .argument _ => []

def Root.ending (place : Place) : Root → List Token
  | .condition => .openBrace :: .closeBrace :: .closeBrace :: place.ending
  | .argument .. => .semicolon :: .closeBrace :: place.ending

def exprEnding (wraps : List Wrap) (root : Root) (place : Place) : List Token :=
  wraps.flatMap Wrap.ending ++ root.ending place

/-- Tokens that end what was begun in the state. -/
def Reading.ending : Reading → List Token
  | .atBlock place => .openBrace :: .closeBrace :: place.ending
  | .inBlock _ place | .afterThen _ _ _ place => .closeBrace :: place.ending
  | .afterLoop _ _ place => .openBrace :: .closeBrace :: .closeBrace :: place.ending
  | .afterBreak _ _ place | .afterLabel _ _ _ place | .afterCall _ _ place =>
    .semicolon :: .closeBrace :: place.ending
  | .afterResult _ _ place =>
    .assign :: .identifier "f" :: .semicolon :: .closeBrace :: place.ending
  | .atCall _ _ place => .identifier "f" :: .semicolon :: .closeBrace :: place.ending
  | .inExpr wraps root _ place => .variable "x" :: exprEnding wraps root place
  | .afterExpr _ wraps root _ place => .closeParen :: exprEnding wraps root place
  | .complete _ => []

namespace Reading

variable {wraps : List Wrap} {root : Root} {before : List Stmt} {place : Place}

theorem read_inBlock_ending (before : List Stmt) (place : Place) :
    ∃ block, (inBlock before place).read (.closeBrace :: place.ending) = .ok block := by
  induction place generalizing before with
  | root => exact ⟨_, rfl⟩
  | statement outerBefore outer ih => exact ih _
  | thenBranch condition outerBefore outer ih =>
    obtain ⟨block, accepted⟩ := ih (.cond condition (.unscoped before.reverse) none :: outerBefore)
    have other : Token.closeBrace ≠ .elseWord := by decide
    exact ⟨block, (read_afterThen other).trans accepted⟩
  | elseBranch condition thenBlock outerBefore outer ih => exact ih _
  | loopBody label span outerBefore outer ih => exact ih _

/-- No expression starts like what ends the statement that one stands in. -/
theorem exprEnding_head (wraps : List Wrap) (root : Root) (place : Place) :
    ∃ token rest, exprEnding wraps root place = token :: rest ∧ token.startsExpr = false := by
  induction wraps with
  | nil => cases root <;> exact ⟨_, _, rfl, rfl⟩
  | cons wrap wraps ih =>
    cases wrap with
    | paren => exact ⟨_, _, rfl, rfl⟩
    | argument call => exact ih

theorem read_add_ending (e : Expr) :
    (add e wraps root before place).read (exprEnding wraps root place) =
      (closeCalls 0 e wraps root before place).read (exprEnding wraps root place) := by
  obtain ⟨token, rest, split, ends⟩ := exprEnding_head wraps root place
  rw [split]
  exact read_add e ends

theorem read_closeCalls_ending (wraps : List Wrap) (root : Root) (before : List Stmt)
    (place : Place) (e : Expr) :
    ∃ block, (closeCalls 0 e wraps root before place).read (exprEnding wraps root place) =
      .ok block := by
  induction wraps generalizing e with
  | nil =>
    cases root with
    | condition => exact read_inBlock_ending [] (.thenBranch e before place)
    | argument result call => exact read_inBlock_ending _ place
  | cons wrap wraps ih =>
    cases wrap with
    | paren =>
      obtain ⟨block, accepted⟩ := ih (.paren e)
      exact ⟨block, (read_add_ending (.paren e)).trans accepted⟩
    | argument call => exact ih _

/-- What was begun can be ended. -/
theorem read_ending (state : Reading) : ∃ block, state.read state.ending = .ok block := by
  cases state with
  | atBlock place => exact read_inBlock_ending [] place
  | inBlock before place => exact read_inBlock_ending before place
  | afterThen condition thenBlock before place =>
    obtain ⟨block, accepted⟩ := read_inBlock_ending (.cond condition thenBlock none :: before) place
    exact ⟨block, (read_afterThen (by decide)).trans accepted⟩
  | afterLoop start before place =>
    exact read_inBlock_ending [] (.loopBody none ⟨start, 0⟩ before place)
  | afterBreak span before place | afterLabel label span before place =>
    exact read_inBlock_ending _ place
  | afterResult result before place | atCall result before place =>
    exact read_inBlock_ending _ place
  | inExpr wraps root before place =>
    obtain ⟨block, accepted⟩ :=
      read_closeCalls_ending wraps root before place (.variable (.unbound "x"))
    exact ⟨block, (read_add_ending _).trans accepted⟩
  | afterExpr inner wraps root before place =>
    obtain ⟨block, accepted⟩ := read_closeCalls_ending wraps root before place (.paren inner)
    exact ⟨block, (read_add_ending _).trans accepted⟩
  | afterCall call before place => exact read_inBlock_ending _ place
  | complete block => exact ⟨block, rfl⟩

/-- From every state some tokens lead to a block. -/
theorem exists_run_eq_ok (state : Reading) (position stop : Nat) :
    ∃ more block, state.run position stop more = .ok block := by
  obtain ⟨bare, accepted⟩ := read_ending (state.move .collapse)
  have tokens : ((state.move .collapse).ending.map (Placed.mk · .unknown)).map Placed.token =
      (state.move .collapse).ending := by
    rw [List.map_map]
    exact List.map_id _
  rw [← tokens] at accepted
  obtain ⟨block, ran, -⟩ := run_of_read accepted position stop
  exact ⟨_, block, ran⟩

end Reading

def codesAtEnd : List String := ["LL-P002", "LL-P004", "LL-P006", "LL-P010"]

def codesAtToken : List String := ["LL-P001", "LL-P003", "LL-P005", "LL-P007", "LL-P009"]

namespace Reading

/-- A state that cannot go on, and what is reported: the token that comes next is refused, or none comes
and something is still missing. -/
inductive Refuses (stop : Nat) (state : Reading) : List Placed → ParseError → Prop where
  | token {token : Token} {span : Span} {missing : Missing} (rest : List Placed) (position : Nat)
    (refused : state.feed token span stop = .error missing) :
    Refuses stop state (⟨token, span⟩ :: rest) ⟨missing, some token, position, span⟩
  | atEnd {missing : Missing} (position : Nat) (unfinished : state.finish stop = .error missing) :
    Refuses stop state [] ⟨missing, none, position, ⟨stop, stop⟩⟩

/-- A run that fails reads some tokens, whatever comes behind them, and gets to a state that cannot go
on. -/
theorem refuses_of_run {placed : List Placed} {state : Reading} {position stop : Nat}
    {e : ParseError} (failed : state.run position stop placed = .error e) :
    ∃ before rest, ∃ last : Reading, placed = before ++ rest ∧ e.position = position + before.length ∧
      (∀ more, state.run position stop (before ++ more) =
        last.run e.position (lastStop stop before) more) ∧
      last.Refuses (lastStop stop before) rest e := by
  induction placed generalizing state position stop with
  | nil =>
    unfold run at failed
    cases ended : state.finish stop with
    | ok block => rw [ended] at failed; cases failed
    | error missing =>
      rw [ended] at failed
      cases failed
      exact ⟨[], [], state, rfl, rfl, fun more => rfl, .atEnd position ended⟩
  | cons first others ih =>
    obtain ⟨token, span⟩ := first
    unfold run at failed
    cases fed : state.feed token span stop with
    | error missing =>
      rw [fed] at failed
      cases failed
      exact ⟨[], _, state, rfl, rfl, fun more => rfl, .token others position fed⟩
    | ok next =>
      rw [fed] at failed
      obtain ⟨before, rest, last, rfl, counted, reads, refuses⟩ := ih failed
      refine ⟨⟨token, span⟩ :: before, rest, last, rfl, ?_, ?_, ?_⟩
      · rw [counted, List.length_cons]
        omega
      · intro more
        rw [List.cons_append, run, fed, lastStop_cons]
        exact reads more
      · rw [lastStop_cons]
        exact refuses

theorem feedBlock_eq_error {token : Token} {span : Span} {before : List Stmt} {place : Place}
    {missing : Missing} (refused : feedBlock token span before place = .error missing) :
    missing = .statement := by
  cases token <;> cases refused <;> rfl

/-- That a block is not closed is only seen at the end. -/
theorem feedSettled_ne_closeBrace {token : Token} {span : Span} {stop : Nat} {state : Reading}
    {missing : Missing} (refused : feedSettled token span stop state = .error missing) :
    missing ≠ .closeBrace := by
  cases state with
  | inBlock | afterThen =>
    rw [feedBlock_eq_error refused]
    rintro ⟨⟩
  | atBlock | afterLoop | afterBreak | afterLabel | afterResult | afterExpr | afterCall =>
    simp only [feedSettled] at refused
    split at refused
    · cases refused
    · cases refused
      rintro ⟨⟩
  | atCall | inExpr | complete =>
    cases refused
    rintro ⟨⟩

theorem feed_ne_closeBrace {token : Token} {span : Span} {stop : Nat} {state : Reading}
    {missing : Missing} (refused : feed token span stop state = .error missing) :
    missing ≠ .closeBrace := by
  unfold feed at refused
  split at refused
  case h_8 => exact feedSettled_ne_closeBrace refused
  all_goals cases refused

theorem finish_eq_error {stop : Nat} {state : Reading} {missing : Missing}
    (unfinished : state.finish stop = .error missing) :
    missing ≠ .endOfInput ∧ missing ≠ .statement := by
  unfold finish at unfinished
  split at unfinished <;> cases unfinished <;> exact ⟨by rintro ⟨⟩, by rintro ⟨⟩⟩

theorem Refuses.code {stop : Nat} {state : Reading} {rest : List Placed} {e : ParseError}
    (refuses : state.Refuses stop rest e) :
    (e.code ∈ codesAtEnd ↔ rest = []) ∧ (e.code ∈ codesAtToken ↔ rest ≠ []) := by
  cases refuses with
  | @token token span missing rest position refused =>
    have other := feed_ne_closeBrace refused
    cases missing with
    | closeBrace => exact absurd rfl other
    | _ => simp [ParseError.code, codesAtEnd, codesAtToken]
  | @atEnd missing position unfinished =>
    obtain ⟨notEnd, notStatement⟩ := finish_eq_error unfinished
    cases missing with
    | endOfInput => exact absurd rfl notEnd
    | statement => exact absurd rfl notStatement
    | _ => simp [ParseError.code, codesAtEnd, codesAtToken]

theorem Refuses.report {stop : Nat} {state : Reading} {rest : List Placed} {e : ParseError}
    (refuses : state.Refuses stop rest e) :
    e.found = rest.head?.map Placed.token ∧
      e.span = (rest.head?.map Placed.span).getD ⟨stop, stop⟩ := by
  cases refuses <;> exact ⟨rfl, rfl⟩

/-- A token that is refused is refused whatever comes behind it. -/
theorem Refuses.run_eq_error {stop : Nat} {state : Reading} {p : Placed} {rest : List Placed}
    {e : ParseError} (refuses : state.Refuses stop (p :: rest) e) (position : Nat)
    (more : List Placed) : ∃ other, state.run position stop (p :: more) = .error other := by
  cases refuses with
  | token rest position' refused => exact ⟨_, by rw [run, refused]⟩

end Reading

theorem parse_congr {a b : List Placed} (same : a.map Placed.token = b.map Placed.token)
    {block : Block} (parsed : parse a = .ok block) : ∃ other, parse b = .ok other := by
  have canonical := (Block.grouped_eq_iff block).mp (Block.grouped_of_parse parsed)
  have yields := (Block.yield_of_parse parsed).trans same
  obtain ⟨other, accepted, -⟩ := Block.parse_of_yield canonical yields
  exact ⟨other, accepted⟩

/-- The list can be gone on with to one that is accepted. -/
def Viable (placed : List Placed) : Prop := ∃ more block, parse (placed ++ more) = .ok block

/-- No list that is accepted starts with these tokens, wherever they stand. -/
def Hopeless (placed : List Placed) : Prop :=
  ∀ other : List Placed, placed.map Placed.token <+: other.map Placed.token →
    ∀ block, parse other ≠ .ok block

theorem hopeless_of_error {placed : List Placed}
    (refused : ∀ more, ∃ e, parse (placed ++ more) = .error e) : Hopeless placed := by
  intro other starts block parsed
  -- The same tokens, but with the given ones where they were refused.
  obtain ⟨tokens, whole⟩ := starts
  have same : other.map Placed.token = (placed ++ other.drop placed.length).map Placed.token := by
    rw [List.map_append, List.map_drop, ← whole]
    simp
  obtain ⟨accepted, again⟩ := parse_congr same parsed
  obtain ⟨e, failed⟩ := refused (other.drop placed.length)
  rw [failed] at again
  cases again

/-- Reading fails at the first token that no accepted list has there, or behind the last one if the
list could be gone on with. The span is that of the token, or empty where the last one ends, and the
code is one of those for the place. -/
theorem parse_error_firstOffence {placed : List Placed} {e : ParseError}
    (failed : parse placed = .error e) :
    e.position ≤ placed.length ∧ Viable (placed.take e.position) ∧
      (e.position < placed.length → Hopeless (placed.take (e.position + 1))) ∧
      (∀ p, placed[e.position]? = some p → e.span = p.span ∧ e.found = some p.token) ∧
      (e.position = placed.length →
        e.span = ⟨lastStop 0 placed, lastStop 0 placed⟩ ∧ e.found = none) ∧
      (e.code ∈ codesAtEnd ↔ e.position = placed.length) ∧
      (e.code ∈ codesAtToken ↔ e.position < placed.length) ∧ e.code ≠ "LL-P008" := by
  obtain ⟨before, rest, last, rfl, counted, reads, refuses⟩ := Reading.refuses_of_run failed
  rw [Nat.zero_add] at counted
  have ended : e.position = (before ++ rest).length ↔ rest = [] := by
    rw [counted, List.length_append, ← List.length_eq_zero_iff]
    omega
  have inside : e.position < (before ++ rest).length ↔ rest ≠ [] := by
    rw [counted, List.length_append, ne_eq, ← List.length_eq_zero_iff]
    omega
  have there : (before ++ rest)[e.position]? = rest.head? := by
    rw [counted, List.getElem?_append_right (Nat.le_refl _), Nat.sub_self, List.head?_eq_getElem?]
  obtain ⟨atEnd, atToken⟩ := refuses.code
  obtain ⟨found, span⟩ := refuses.report
  refine ⟨?_, ?_, ?_, ?_, ?_, atEnd.trans ended.symm, atToken.trans inside.symm, ?_⟩
  · rw [counted, List.length_append]
    exact Nat.le_add_right _ _
  · rw [counted, List.take_left]
    obtain ⟨more, block, accepted⟩ := last.exists_run_eq_ok e.position (lastStop 0 before)
    exact ⟨more, block, (reads more).trans accepted⟩
  · intro some
    obtain ⟨p, others, rfl⟩ := List.exists_cons_of_ne_nil (inside.mp some)
    have split : (before ++ p :: others).take (e.position + 1) = before ++ [p] := by
      rw [List.append_cons]
      exact List.take_left' (by rw [counted, List.length_append, List.length_singleton])
    rw [split]
    apply hopeless_of_error
    intro more
    obtain ⟨other, refused⟩ := refuses.run_eq_error e.position more
    exact ⟨other, by rw [List.append_assoc]; exact (reads (p :: more)).trans refused⟩
  · intro p next
    rw [there] at next
    rw [found, span, next]
    exact ⟨rfl, rfl⟩
  · intro noneLeft
    obtain rfl := ended.mp noneLeft
    rw [List.append_nil]
    exact ⟨span, found⟩
  · intro code
    rw [code] at atEnd atToken
    by_cases noneLeft : rest = []
    · exact absurd (atEnd.mpr noneLeft) (by decide)
    · exact absurd (atToken.mpr noneLeft) (by decide)

/-- A call in parentheses that are not closed: a semicolon cannot come, though more of the call
could. -/
def openArgument : List Placed :=
  [⟨.openBrace, 0, 1⟩, ⟨.identifier "f", 2, 3⟩, ⟨.openParen, 4, 5⟩, ⟨.identifier "g", 5, 6⟩,
    ⟨.variable "a", 7, 9⟩, ⟨.semicolon, 9, 10⟩, ⟨.closeBrace, 11, 12⟩]

theorem openArgument_firstOffence :
    parse openArgument = .error ⟨.token .closeParen, some .semicolon, 5, ⟨9, 10⟩⟩ ∧
      Viable (openArgument.take 5) ∧ Hopeless (openArgument.take 6) := by
  have failed : parse openArgument =
      .error ⟨.token .closeParen, some .semicolon, 5, ⟨9, 10⟩⟩ := rfl
  obtain ⟨-, viable, hopeless, -⟩ := parse_error_firstOffence failed
  exact ⟨failed, viable, hopeless (by decide)⟩

end LoopTape
