import LoopTape.Proofs.Tree.Relabelling
import LoopTape.Tree.Reading
import Mathlib.Order.MinMax

/-! Reading does not depend on where the tokens stand.

If the tokens are moved, with their starts and their stops kept in order, then what is read is the same
tree with its spans moved, and what is missing is missing at the same token. In particular all tokens can
be moved to one place. So what a token list spells, but for its spans, can be read off the tokens alone.
-/

set_option autoImplicit false

namespace LoopTape

/-- Other places for the starts and for the stops of spans. Those that were in order stay so. -/
structure Motion where
  start : Nat → Nat
  stop : Nat → Nat
  monotone_start : Monotone start
  monotone_stop : Monotone stop

namespace Motion

variable (m : Motion)

def span (s : Span) : Span := ⟨m.start s.start, m.stop s.stop⟩

theorem span_merge (a b : Span) : m.span (a.merge b) = (m.span a).merge (m.span b) := by
  simp only [Span.merge, span, m.monotone_start.map_min, m.monotone_stop.map_max]

def relabelling : Relabelling := .forgetful m.span

def collapse : Motion := ⟨fun _ => 0, fun _ => 0, monotone_const, monotone_const⟩

end Motion

def Placed.move (m : Motion) (p : Placed) : Placed := ⟨p.token, m.span p.span⟩

def ParseError.move (m : Motion) (e : ParseError) : ParseError :=
  match e.found with
  | some _ => { e with span := m.span e.span }
  | none => { e with span := ⟨m.stop e.span.start, m.stop e.span.stop⟩ }

section

variable (m : Motion)

def OpenCall.move (call : OpenCall) : OpenCall :=
  ⟨call.name, call.args.map (·.relabel m.relabelling), m.start call.start⟩

def Wrap.move : Wrap → Wrap
  | .paren => .paren
  | .argument call => .argument (call.move m)

def Root.move : Root → Root
  | .condition => .condition
  | .argument result call => .argument (result.map (·.relabel m.relabelling)) (call.move m)

def Place.move : Place → Place
  | .root => .root
  | .statement before outer => .statement (before.map (·.relabel m.relabelling)) outer.move
  | .thenBranch condition before outer =>
    .thenBranch (condition.relabel m.relabelling) (before.map (·.relabel m.relabelling)) outer.move
  | .elseBranch condition thenBlock before outer =>
    .elseBranch (condition.relabel m.relabelling) (thenBlock.relabel m.relabelling)
      (before.map (·.relabel m.relabelling)) outer.move
  | .loopBody label span before outer =>
    .loopBody label (m.span span) (before.map (·.relabel m.relabelling)) outer.move

theorem OpenCall.move_close (call : OpenCall) (stop : Nat) :
    (call.close stop).relabel m.relabelling = (call.move m).close (m.stop stop) := by
  simp only [close, move, Expr.relabel, Expr.relabelAll_eq_map, List.map_reverse]
  rfl

theorem Block.move_unscoped (before : List Stmt) :
    (Block.unscoped before.reverse).relabel m.relabelling =
      .unscoped (before.map (·.relabel m.relabelling)).reverse := by
  simp only [unscoped, Block.relabel, Stmt.relabelAll_eq_map, List.map_reverse]
  rfl

end

namespace Reading

section

variable (m : Motion)

def move : Reading → Reading
  | .atBlock place => .atBlock (place.move m)
  | .inBlock before place => .inBlock (before.map (·.relabel m.relabelling)) (place.move m)
  | .afterThen condition thenBlock before place =>
    .afterThen (condition.relabel m.relabelling) (thenBlock.relabel m.relabelling)
      (before.map (·.relabel m.relabelling)) (place.move m)
  | .afterLoop start before place =>
    .afterLoop (m.start start) (before.map (·.relabel m.relabelling)) (place.move m)
  | .afterBreak span before place =>
    .afterBreak (m.span span) (before.map (·.relabel m.relabelling)) (place.move m)
  | .afterLabel label span before place =>
    .afterLabel label (m.span span) (before.map (·.relabel m.relabelling)) (place.move m)
  | .afterResult result before place =>
    .afterResult (result.relabel m.relabelling) (before.map (·.relabel m.relabelling)) (place.move m)
  | .atCall result before place =>
    .atCall (result.relabel m.relabelling) (before.map (·.relabel m.relabelling)) (place.move m)
  | .inExpr wraps root before place =>
    .inExpr (wraps.map (Wrap.move m)) (root.move m) (before.map (·.relabel m.relabelling)) (place.move m)
  | .afterExpr inner wraps root before place =>
    .afterExpr (inner.relabel m.relabelling) (wraps.map (Wrap.move m)) (root.move m)
      (before.map (·.relabel m.relabelling)) (place.move m)
  | .afterCall call before place =>
    .afterCall (call.relabel m.relabelling) (before.map (·.relabel m.relabelling)) (place.move m)
  | .complete block => .complete (block.relabel m.relabelling)

theorem closeBlock_move (block : Block) (place : Place) :
    (closeBlock block place).move m = closeBlock (block.relabel m.relabelling) (place.move m) := by
  cases place <;> rfl

theorem add_move (e : Expr) (wraps : List Wrap) (root : Root) (before : List Stmt) (place : Place) :
    (add e wraps root before place).move m =
      add (e.relabel m.relabelling) (wraps.map (Wrap.move m)) (root.move m)
        (before.map (·.relabel m.relabelling)) (place.move m) := by
  match wraps, root with
  | .paren :: _, _ => rfl
  | .argument _ :: _, _ => rfl
  | [], .condition => rfl
  | [], .argument _ _ => rfl

theorem closeCalls_move (stop : Nat) (e : Expr) (wraps : List Wrap) (root : Root)
    (before : List Stmt) (place : Place) :
    (closeCalls stop e wraps root before place).move m =
      closeCalls (m.stop stop) (e.relabel m.relabelling) (wraps.map (Wrap.move m)) (root.move m)
        (before.map (·.relabel m.relabelling)) (place.move m) := by
  induction wraps generalizing e with
  | nil =>
    cases root with
    | condition => rfl
    | argument result call =>
      simp only [closeCalls, move, Stmt.relabel, Expr.relabelAll_eq_map, List.map_reverse,
        List.map_cons]
      rfl
  | cons wrap wraps ih =>
    cases wrap with
    | paren => rfl
    | argument call =>
      have closed := OpenCall.move_close m { call with args := e :: call.args } stop
      simp only [closeCalls, ih, closed]
      rfl

theorem settle_move (stop : Nat) (state : Reading) :
    (state.settle stop).move m = (state.move m).settle (m.stop stop) := by
  cases state with
  | inExpr wraps root before place =>
    match wraps, root with
    | .argument call :: wraps, root =>
      simp only [settle, closeCalls_move, OpenCall.move_close]
      rfl
    | [], .argument result call =>
      simp only [settle, move, Stmt.relabel, Expr.relabelAll_eq_map, List.map_reverse]
      rfl
    | .paren :: _, _ => rfl
    | [], .condition => rfl
  | _ => rfl

theorem feedBlock_move (token : Token) (span : Span) (before : List Stmt) (place : Place) :
    (feedBlock token span before place).map (move m) =
      feedBlock token (m.span span) (before.map (·.relabel m.relabelling)) (place.move m) := by
  cases token with
  | closeBrace =>
    simp only [feedBlock, Except.map, closeBlock_move, Block.move_unscoped]
  | _ => rfl

theorem feedSettled_move (token : Token) (span : Span) (stop : Nat) (state : Reading) :
    (feedSettled token span stop state).map (move m) =
      feedSettled token (m.span span) (m.stop stop) (state.move m) := by
  cases state with
  | inBlock before place => exact feedBlock_move m token span before place
  | afterThen condition thenBlock before place =>
    exact feedBlock_move m token span (.cond condition thenBlock none :: before) place
  | afterExpr inner wraps root before place =>
    by_cases closes : token = .closeParen
    · subst closes
      exact congrArg Except.ok (add_move m (.paren inner) wraps root before place)
    · simp only [feedSettled, move, if_neg closes, Except.map]
  | atBlock place =>
    by_cases opens : token = .openBrace
    · simp only [feedSettled, move, if_pos opens, Except.map, List.map_nil]
    · simp only [feedSettled, move, if_neg opens, Except.map]
  | afterBreak | afterLabel =>
    -- The span of a break covers its first and its last token.
    simp only [feedSettled, move, ← m.span_merge]
    split <;> rfl
  | afterLoop | afterResult | afterCall =>
    simp only [feedSettled, move]
    split <;> rfl
  | atCall | inExpr | complete => rfl

theorem feed_move (token : Token) (span : Span) (stop : Nat) (state : Reading) :
    (feed token span stop state).map (move m) = feed token (m.span span) (m.stop stop) (state.move m) := by
  have settled := feedSettled_move m token span stop (state.settle stop)
  rw [settle_move] at settled
  -- The states that take a token before they settle are those that another token would end.
  cases state with
  | inExpr wraps root before place =>
    cases token with
    | «variable» name => exact congrArg Except.ok (add_move m (.variable (.unbound name)) _ _ _ _)
    | identifier name => rfl
    | openParen => rfl
    | _ => exact settled
  | afterThen condition thenBlock before place =>
    cases token with
    | elseWord => rfl
    | _ => exact settled
  | afterLoop start before place =>
    cases token with
    | identifier name => rfl
    | _ => exact settled
  | afterBreak start before place =>
    cases token with
    | identifier name => rfl
    | _ => exact settled
  | atCall result before place =>
    cases token with
    | identifier name => rfl
    | _ => exact settled
  | _ => exact settled

theorem finish_move (stop : Nat) (state : Reading) :
    (finish stop state).map (·.relabel m.relabelling) = finish (m.stop stop) (state.move m) := by
  unfold finish
  rw [← settle_move m stop]
  cases state.settle stop <;> rfl

theorem run_move (placed : List Placed) (state : Reading) (position stop : Nat) :
    (state.move m).run position (m.stop stop) (placed.map (Placed.move m)) =
      ((state.run position stop placed).map (·.relabel m.relabelling)).mapError (ParseError.move m) := by
  induction placed generalizing state position stop with
  | nil =>
    rw [List.map_nil, run, run, ← finish_move]
    cases state.finish stop <;> rfl
  | cons first rest ih =>
    obtain ⟨token, span⟩ := first
    rw [List.map_cons, Placed.move, run, run, ← feed_move]
    cases fed : state.feed token span stop with
    | error missing => rfl
    | ok next => exact ih next (position + 1) span.stop

end

def read (state : Reading) : List Token → Except Missing Block
  | [] => state.finish 0
  | token :: rest =>
    match state.feed token .unknown 0 with
    | .ok next => next.read rest
    | .error missing => .error missing

/-- What tokens spell without their spans they spell with them. -/
theorem run_of_read {placed : List Placed} {state : Reading} {block : Block}
    (spelled : (state.move .collapse).read (placed.map Placed.token) = .ok block)
    (position stop : Nat) :
    ∃ whole, state.run position stop placed = .ok whole ∧ whole.relabel .bare = block := by
  induction placed generalizing state position stop with
  | nil =>
    have ended : (state.finish stop).map (·.relabel .bare) = .ok block :=
      (finish_move .collapse stop state).trans spelled
    unfold run
    cases finished : state.finish stop with
    | error missing => simp [finished, Except.map] at ended
    | ok whole => exact ⟨whole, rfl, by simpa [finished, Except.map] using ended⟩
  | cons first rest ih =>
    obtain ⟨token, span⟩ := first
    have next : (state.feed token span stop).map (move .collapse) =
        (state.move .collapse).feed token .unknown 0 := feed_move .collapse token span stop state
    rw [List.map_cons, read, ← next] at spelled
    unfold run
    cases fed : state.feed token span stop with
    | error missing => simp [fed, Except.map] at spelled
    | ok next =>
      simp only [fed, Except.map] at spelled
      exact ih spelled (position + 1) span.stop

end Reading

theorem parse_of_read {placed : List Placed} {block : Block}
    (spelled : Reading.initial.read (placed.map Placed.token) = .ok block) :
    ∃ whole, parse placed = .ok whole ∧ whole.relabel .bare = block := by
  have here : (Reading.initial.move .collapse).read (placed.map Placed.token) = .ok block := spelled
  exact Reading.run_of_read here 0 0

/-- Moved tokens are read as the moved tree, or refused at the same token. -/
theorem parse_move {m : Motion} (fixed : m.stop 0 = 0) (placed : List Placed) :
    parse (placed.map (Placed.move m)) =
      ((parse placed).map (·.relabel m.relabelling)).mapError (ParseError.move m) := by
  have moved := Reading.run_move m placed .initial 0 0
  rwa [fixed] at moved

end LoopTape
