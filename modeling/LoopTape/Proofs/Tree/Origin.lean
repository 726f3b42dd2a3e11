import LoopTape.Proofs.Tree.ReadGrouped

/-! The tokens that the parts of a tree were read from.

The relation says which token each part of a tree was read from, with the spans that follow: that of a
call goes from its name to its last token, that of a loop is its head, and that of a break is the whole
statement. Reading takes the stop of a span from the token read last, so it is right only as long as no
token behind the part has been read.
-/

set_option autoImplicit false

namespace LoopTape

mutual

inductive Expr.ReadFrom : Expr → List Placed → Prop
  | variable (name : String) (a : Span) :
    ReadFrom (.variable (.unbound name)) [⟨.variable name, a⟩]
  | paren {inner : Expr} {placed : List Placed} (a b : Span) (read : Expr.ReadFrom inner placed) :
    ReadFrom (.paren inner) (⟨.openParen, a⟩ :: placed ++ [⟨.closeParen, b⟩])
  | call {args : List Expr} {placed : List Placed} (name : String) (a : Span)
    (read : Expr.ReadAllFrom args placed) :
    ReadFrom (.call name args ⟨a.start, lastStop a.stop placed⟩) (⟨.identifier name, a⟩ :: placed)

inductive Expr.ReadAllFrom : List Expr → List Placed → Prop
  | nil : ReadAllFrom [] []
  | cons {e : Expr} {rest : List Expr} {first others : List Placed}
    (read : Expr.ReadFrom e first) (more : Expr.ReadAllFrom rest others) :
    ReadAllFrom (e :: rest) (first ++ others)

end

inductive LoopHead : Option String → Span → List Placed → Prop
  | plain (a : Span) : LoopHead none ⟨a.start, a.stop⟩ [⟨.loopWord, a⟩]
  | labelled (label : String) (a b : Span) :
    LoopHead (some label) ⟨a.start, b.stop⟩ [⟨.loopWord, a⟩, ⟨.identifier label, b⟩]

inductive Leaving : Option String → Span → List Placed → Prop
  | plain (a b : Span) : Leaving none (a.merge b) [⟨.breakWord, a⟩, ⟨.semicolon, b⟩]
  | labelled (label : String) (a b c : Span) :
    Leaving (some label) (a.merge c) [⟨.breakWord, a⟩, ⟨.identifier label, b⟩, ⟨.semicolon, c⟩]

inductive Assigning : Option Variable → List Placed → Prop
  | none : Assigning none []
  | some (name : String) (a b : Span) :
    Assigning (some (.unbound name)) [⟨.variable name, a⟩, ⟨.assign, b⟩]

mutual

/-- The block and the spans in it were read from the tokens. -/
inductive Block.ReadFrom : Block → List Placed → Prop
  | unscoped {stmts : List Stmt} {placed : List Placed} (a b : Span)
    (read : Stmt.ReadAllFrom stmts placed) :
    Block.ReadFrom (.unscoped stmts) (⟨.openBrace, a⟩ :: placed ++ [⟨.closeBrace, b⟩])

inductive Stmt.ReadAllFrom : List Stmt → List Placed → Prop
  | nil : Stmt.ReadAllFrom [] []
  | cons {s : Stmt} {rest : List Stmt} {first others : List Placed}
    (read : Stmt.ReadFrom s first) (more : Stmt.ReadAllFrom rest others) :
    Stmt.ReadAllFrom (s :: rest) (first ++ others)

inductive Stmt.ReadFrom : Stmt → List Placed → Prop
  | cond {condition : Expr} {thenBlock : Block} {choice chosen : List Placed} (a : Span)
    (decides : condition.ReadFrom choice) (first : Block.ReadFrom thenBlock chosen) :
    Stmt.ReadFrom (.cond condition thenBlock none) (⟨.condWord, a⟩ :: choice ++ chosen)
  | condElse {condition : Expr} {thenBlock elseBlock : Block} {choice chosen other : List Placed}
    (a b : Span) (decides : condition.ReadFrom choice)
    (first : Block.ReadFrom thenBlock chosen) (second : Block.ReadFrom elseBlock other) :
    Stmt.ReadFrom (.cond condition thenBlock (some elseBlock))
      (⟨.condWord, a⟩ :: choice ++ chosen ++ ⟨.elseWord, b⟩ :: other)
  | loop {label : Option String} {span : Span} {body : Block} {front repeated : List Placed}
    (head : LoopHead label span front) (repeats : Block.ReadFrom body repeated) :
    Stmt.ReadFrom (.loop label body span) (front ++ repeated)
  | leave {label : Option String} {span : Span} {placed : List Placed}
    (leaving : Leaving label span placed) : Stmt.ReadFrom (.leave label span) placed
  | call {result : Option Variable} {name : String} {args : List Expr} {span : Span}
    {front placed : List Placed} (b : Span) (assigning : Assigning result front)
    (called : (Expr.call name args span).ReadFrom placed) :
    Stmt.ReadFrom (.call result name args span) (front ++ placed ++ [⟨.semicolon, b⟩])
  | block {inner : Block} {placed : List Placed} (read : Block.ReadFrom inner placed) :
    Stmt.ReadFrom (.block inner) placed

end

theorem Expr.ReadAllFrom.snoc {args : List Expr} {e : Expr} {front last : List Placed}
    (read : Expr.ReadAllFrom args front) (next : e.ReadFrom last) :
    Expr.ReadAllFrom (args ++ [e]) (front ++ last) := by
  induction args generalizing front with
  | nil =>
    cases read
    have only := ReadAllFrom.cons next .nil
    rwa [List.append_nil] at only
  | cons first rest ih =>
    cases read with
    | cons first more =>
      rw [List.append_assoc]
      exact .cons first (ih more)

theorem Stmt.ReadAllFrom.snoc {stmts : List Stmt} {s : Stmt} {front last : List Placed}
    (read : Stmt.ReadAllFrom stmts front) (next : s.ReadFrom last) :
    Stmt.ReadAllFrom (stmts ++ [s]) (front ++ last) := by
  induction stmts generalizing front with
  | nil =>
    cases read
    have only := ReadAllFrom.cons next .nil
    rwa [List.append_nil] at only
  | cons first rest ih =>
    cases read with
    | cons first more =>
      rw [List.append_assoc]
      exact .cons first (ih more)

inductive OpenCall.ReadFrom : OpenCall → List Placed → Prop
  | mk {args : List Expr} {placed : List Placed} (name : String) (a : Span)
    (read : Expr.ReadAllFrom args.reverse placed) :
    ReadFrom ⟨name, args, a.start⟩ (⟨.identifier name, a⟩ :: placed)

inductive Root.ReadFrom : Root → List Placed → Prop
  | condition (a : Span) : ReadFrom .condition [⟨.condWord, a⟩]
  | argument {result : Option Variable} {call : OpenCall} {front placed : List Placed}
    (assigning : Assigning result front) (called : call.ReadFrom placed) :
    ReadFrom (.argument result call) (front ++ placed)

mutual

inductive Place.ReadFrom : Place → List Placed → Prop
  | root : ReadFrom .root []
  | statement {before : List Stmt} {outer : Place} {placed : List Placed}
    (inside : Place.InsideFrom outer before placed) : ReadFrom (.statement before outer) placed
  | thenBranch {condition : Expr} {before : List Stmt} {outer : Place} {placed choice : List Placed}
    (a : Span) (inside : Place.InsideFrom outer before placed) (decides : condition.ReadFrom choice) :
    ReadFrom (.thenBranch condition before outer) (placed ++ ⟨.condWord, a⟩ :: choice)
  | elseBranch {condition : Expr} {thenBlock : Block} {before : List Stmt} {outer : Place}
    {placed choice chosen : List Placed} (a b : Span) (inside : Place.InsideFrom outer before placed)
    (decides : condition.ReadFrom choice) (first : thenBlock.ReadFrom chosen) :
    ReadFrom (.elseBranch condition thenBlock before outer)
      (placed ++ ⟨.condWord, a⟩ :: choice ++ chosen ++ [⟨.elseWord, b⟩])
  | loopBody {label : Option String} {span : Span} {before : List Stmt} {outer : Place}
    {placed front : List Placed} (inside : Place.InsideFrom outer before placed)
    (head : LoopHead label span front) :
    ReadFrom (.loopBody label span before outer) (placed ++ front)

/-- The statements of the block that stands there were read from the tokens, behind its brace and
all that is around it. -/
inductive Place.InsideFrom : Place → List Stmt → List Placed → Prop
  | mk {place : Place} {before : List Stmt} {front placed : List Placed} (a : Span)
    (opened : Place.ReadFrom place front) (read : Stmt.ReadAllFrom before.reverse placed) :
    InsideFrom place before (front ++ ⟨.openBrace, a⟩ :: placed)

end

inductive Place.UpTo (place : Place) (before : List Stmt) (root : Root) :
    List Wrap → List Placed → Prop
  | root {placed front : List Placed} (inside : place.InsideFrom before placed)
    (begun : root.ReadFrom front) : UpTo place before root [] (placed ++ front)
  | paren {wraps : List Wrap} {placed : List Placed} (a : Span)
    (upTo : UpTo place before root wraps placed) :
    UpTo place before root (.paren :: wraps) (placed ++ [⟨.openParen, a⟩])
  | argument {wraps : List Wrap} {call : OpenCall} {placed own : List Placed}
    (upTo : UpTo place before root wraps placed) (called : call.ReadFrom own) :
    UpTo place before root (.argument call :: wraps) (placed ++ own)

/-- The tokens lead to the state, with the places that it keeps. -/
inductive Reading.ReadFrom : Reading → List Placed → Prop
  | atBlock {place : Place} {placed : List Placed} (opened : place.ReadFrom placed) :
    ReadFrom (.atBlock place) placed
  | inBlock {before : List Stmt} {place : Place} {placed : List Placed}
    (inside : place.InsideFrom before placed) : ReadFrom (.inBlock before place) placed
  | afterThen {condition : Expr} {thenBlock : Block} {before : List Stmt} {place : Place}
    {placed choice chosen : List Placed} (a : Span) (inside : place.InsideFrom before placed)
    (decides : condition.ReadFrom choice) (first : thenBlock.ReadFrom chosen) :
    ReadFrom (.afterThen condition thenBlock before place)
      (placed ++ ⟨.condWord, a⟩ :: choice ++ chosen)
  | afterLoop {before : List Stmt} {place : Place} {placed : List Placed} (a : Span)
    (inside : place.InsideFrom before placed) :
    ReadFrom (.afterLoop a.start before place) (placed ++ [⟨.loopWord, a⟩])
  | afterBreak {before : List Stmt} {place : Place} {placed : List Placed} (a : Span)
    (inside : place.InsideFrom before placed) :
    ReadFrom (.afterBreak a before place) (placed ++ [⟨.breakWord, a⟩])
  | afterLabel {before : List Stmt} {place : Place} {placed : List Placed} (label : String)
    (a b : Span) (inside : place.InsideFrom before placed) :
    ReadFrom (.afterLabel label a before place)
      (placed ++ [⟨.breakWord, a⟩, ⟨.identifier label, b⟩])
  | afterResult {before : List Stmt} {place : Place} {placed : List Placed} (name : String) (a : Span)
    (inside : place.InsideFrom before placed) :
    ReadFrom (.afterResult (.unbound name) before place) (placed ++ [⟨.variable name, a⟩])
  | atCall {result : Variable} {before : List Stmt} {place : Place} {placed front : List Placed}
    (inside : place.InsideFrom before placed) (assigning : Assigning (some result) front) :
    ReadFrom (.atCall result before place) (placed ++ front)
  | inExpr {wraps : List Wrap} {root : Root} {before : List Stmt} {place : Place}
    {placed : List Placed} (upTo : place.UpTo before root wraps placed) :
    ReadFrom (.inExpr wraps root before place) placed
  | afterExpr {inner : Expr} {wraps : List Wrap} {root : Root} {before : List Stmt} {place : Place}
    {placed own : List Placed} (a : Span) (upTo : place.UpTo before root wraps placed)
    (read : inner.ReadFrom own) :
    ReadFrom (.afterExpr inner wraps root before place) (placed ++ ⟨.openParen, a⟩ :: own)
  | afterCall {call : Stmt} {before : List Stmt} {place : Place} {placed own : List Placed}
    (inside : place.InsideFrom before placed)
    (called : ∀ b, call.ReadFrom (own ++ [⟨.semicolon, b⟩])) :
    ReadFrom (.afterCall call before place) (placed ++ own)
  | complete {block : Block} {placed : List Placed} (read : block.ReadFrom placed) :
    ReadFrom (.complete block) placed

theorem OpenCall.ReadFrom.cons {call : OpenCall} {e : Expr} {placed own : List Placed}
    (called : call.ReadFrom placed) (read : e.ReadFrom own) :
    OpenCall.ReadFrom { call with args := e :: call.args } (placed ++ own) := by
  obtain ⟨name, a, args⟩ := called
  refine .mk name a ?_
  rw [List.reverse_cons]
  exact args.snoc read

theorem OpenCall.ReadFrom.close {call : OpenCall} {front own : List Placed}
    (called : call.ReadFrom own) : (call.close (lastStop 0 (front ++ own))).ReadFrom own := by
  obtain ⟨name, a, args⟩ := called
  rw [lastStop_append, lastStop_cons]
  exact .call name a args

theorem Place.InsideFrom.cons {place : Place} {before : List Stmt} {s : Stmt}
    {placed own : List Placed} (inside : place.InsideFrom before placed) (read : s.ReadFrom own) :
    place.InsideFrom (s :: before) (placed ++ own) := by
  obtain ⟨a, opened, stmts⟩ := inside
  rw [List.append_assoc, List.cons_append]
  refine .mk a opened ?_
  rw [List.reverse_cons]
  exact stmts.snoc read

theorem Place.ReadFrom.enter {place : Place} {placed : List Placed} (opened : place.ReadFrom placed)
    (a : Span) : place.InsideFrom [] (placed ++ [⟨.openBrace, a⟩]) := .mk a opened .nil

namespace Reading

variable {wraps : List Wrap} {root : Root} {before : List Stmt} {place : Place}
  {placed own : List Placed}

theorem closeBlock_readFrom {block : Block} (opened : place.ReadFrom placed)
    (read : block.ReadFrom own) : (closeBlock block place).ReadFrom (placed ++ own) := by
  cases opened with
  | root => exact .complete read
  | statement inside => exact .inBlock (inside.cons (.block read))
  | thenBranch a inside decides => exact .afterThen a inside decides read
  | elseBranch a b inside decides first =>
    have all := inside.cons (.condElse a b decides first read)
    simp only [closeBlock, List.append_assoc, List.cons_append, List.nil_append] at all ⊢
    exact .inBlock all
  | loopBody inside head =>
    rw [List.append_assoc]
    exact .inBlock (inside.cons (.loop head read))

theorem add_readFrom {e : Expr} (upTo : place.UpTo before root wraps placed)
    (read : e.ReadFrom own) : (add e wraps root before place).ReadFrom (placed ++ own) := by
  cases upTo with
  | root inside begun =>
    rw [List.append_assoc]
    cases begun with
    | condition a => exact .atBlock (.thenBranch a inside read)
    | argument assigning called =>
      rw [List.append_assoc]
      exact .inExpr (.root inside (.argument assigning (called.cons read)))
  | paren a upTo =>
    rw [List.append_assoc]
    exact .afterExpr a upTo read
  | argument upTo called =>
    rw [List.append_assoc]
    exact .inExpr (.argument upTo (called.cons read))

theorem afterCall_readFrom {result : Option Variable} {call : OpenCall} {front : List Placed}
    (inside : place.InsideFrom before placed) (assigning : Assigning result front)
    (called : call.ReadFrom own) :
    ReadFrom (.afterCall (.call result call.name call.args.reverse
        ⟨call.start, lastStop 0 (placed ++ (front ++ own))⟩) before place)
      (placed ++ (front ++ own)) := by
  refine .afterCall inside fun b => .call b assigning ?_
  rw [← List.append_assoc]
  exact called.close

theorem closeCalls_readFrom {e : Expr} (upTo : place.UpTo before root wraps placed)
    (read : e.ReadFrom own) :
    (closeCalls (lastStop 0 (placed ++ own)) e wraps root before place).ReadFrom (placed ++ own) := by
  induction upTo generalizing e own with
  | root inside begun =>
    rw [List.append_assoc]
    cases begun with
    | condition a => exact .atBlock (.thenBranch a inside read)
    | argument assigning called =>
      rw [List.append_assoc]
      exact afterCall_readFrom inside assigning (called.cons read)
  | paren a upTo =>
    rw [List.append_assoc]
    exact .afterExpr a upTo read
  | argument upTo called ih =>
    -- The call that closes is the last argument of the one around it, and both stop there.
    rw [List.append_assoc]
    exact ih (called.cons read).close

theorem settle_readFrom {state : Reading} (read : state.ReadFrom placed) :
    (state.settle (lastStop 0 placed)).ReadFrom placed := by
  have kept := read
  cases read with
  | inExpr upTo =>
    -- Only a call is over without more; an expression that is still owed stays owed.
    cases upTo with
    | root inside begun =>
      cases begun with
      | condition => exact kept
      | argument assigning called => exact afterCall_readFrom inside assigning called
    | paren => exact kept
    | argument upTo called => exact closeCalls_readFrom upTo called.close
  | afterThen a inside decides first =>
    rw [List.append_assoc]
    exact .inBlock (inside.cons (.cond a decides first))
  | _ => exact kept

theorem feedBlock_readFrom {token : Token} {span : Span} {next : Reading}
    (inside : place.InsideFrom before placed) (fed : feedBlock token span before place = .ok next) :
    next.ReadFrom (placed ++ [⟨token, span⟩]) := by
  cases token with
  | closeBrace =>
    cases fed
    obtain ⟨a, opened, stmts⟩ := inside
    rw [List.append_assoc]
    exact closeBlock_readFrom opened (.unscoped a span stmts)
  | condWord => cases fed; exact .inExpr (.root inside (.condition span))
  | identifier name =>
    cases fed
    exact .inExpr (.root inside (.argument .none (.mk name span .nil)))
  | openBrace => cases fed; exact .inBlock (.mk span (.statement inside) .nil)
  | loopWord => cases fed; exact .afterLoop span inside
  | breakWord => cases fed; exact .afterBreak span inside
  | «variable» name => cases fed; exact .afterResult name span inside
  | _ => cases fed

theorem feedSettled_readFrom {token : Token} {span : Span} {state next : Reading}
    (read : state.ReadFrom placed)
    (fed : feedSettled token span (lastStop 0 placed) state = .ok next) :
    next.ReadFrom (placed ++ [⟨token, span⟩]) := by
  cases read with
  | inBlock inside => exact feedBlock_readFrom inside fed
  | afterThen a inside decides first =>
    -- No else-block follows, so the `cond` is a whole statement.
    have closed := inside.cons (.cond a decides first)
    rw [← List.append_assoc] at closed
    exact feedBlock_readFrom closed fed
  | atBlock opened =>
    obtain ⟨rfl, rfl⟩ := expected_of_ok fed
    exact .inBlock (opened.enter span)
  | afterLoop a inside =>
    obtain ⟨rfl, rfl⟩ := expected_of_ok fed
    rw [lastStop_append]
    exact .inBlock ((Place.ReadFrom.loopBody inside (.plain a)).enter span)
  | afterBreak a inside =>
    obtain ⟨rfl, rfl⟩ := expected_of_ok fed
    rw [List.append_assoc]
    exact .inBlock (inside.cons (.leave (.plain a span)))
  | afterLabel label a b inside =>
    obtain ⟨rfl, rfl⟩ := expected_of_ok fed
    rw [List.append_assoc]
    exact .inBlock (inside.cons (.leave (.labelled label a b span)))
  | afterResult name a inside =>
    obtain ⟨rfl, rfl⟩ := expected_of_ok fed
    rw [List.append_assoc]
    exact .atCall inside (.some name a span)
  | afterExpr a upTo inner =>
    obtain ⟨rfl, rfl⟩ := expected_of_ok fed
    rw [List.append_assoc]
    exact add_readFrom upTo (.paren a span inner)
  | afterCall inside called =>
    obtain ⟨rfl, rfl⟩ := expected_of_ok fed
    rw [List.append_assoc]
    exact .inBlock (inside.cons (called span))
  | atCall | inExpr | complete => cases fed

theorem feed_readFrom {token : Token} {span : Span} {state next : Reading}
    (read : state.ReadFrom placed) (fed : feed token span (lastStop 0 placed) state = .ok next) :
    next.ReadFrom (placed ++ [⟨token, span⟩]) := by
  have goes (fed : feedSettled token span (lastStop 0 placed) (state.settle (lastStop 0 placed)) =
      .ok next) : next.ReadFrom (placed ++ [⟨token, span⟩]) :=
    feedSettled_readFrom (settle_readFrom read) fed
  -- The states that take a token before they settle are those that another token would end.
  cases read with
  | inExpr upTo =>
    cases token with
    | «variable» name => cases fed; exact add_readFrom upTo (.variable name span)
    | identifier name => cases fed; exact .inExpr (.argument upTo (.mk name span .nil))
    | openParen => cases fed; exact .inExpr (.paren span upTo)
    | _ => exact goes fed
  | afterThen a inside decides first =>
    cases token with
    | elseWord => cases fed; exact .atBlock (.elseBranch a span inside decides first)
    | _ => exact goes fed
  | afterLoop a inside =>
    cases token with
    | identifier label =>
      cases fed
      rw [List.append_assoc]
      exact .atBlock (.loopBody inside (.labelled label a span))
    | _ => exact goes fed
  | afterBreak a inside =>
    cases token with
    | identifier label =>
      cases fed
      rw [List.append_assoc]
      exact .afterLabel label a span inside
    | _ => exact goes fed
  | atCall inside assigning =>
    cases token with
    | identifier name =>
      cases fed
      rw [List.append_assoc]
      exact .inExpr (.root inside (.argument assigning (.mk name span .nil)))
    | _ => exact goes fed
  | _ => exact goes fed

end Reading

/-- A block that was read was read from all the tokens. -/
theorem Block.readFrom_of_parse {placed : List Placed} {block : Block}
    (parsed : parse placed = .ok block) : block.ReadFrom placed := by
  have whole : (Reading.complete block).ReadFrom placed :=
    parse_keeps (fun read state => state.ReadFrom read) (.atBlock .root)
      (fun _ _ => Reading.settle_readFrom) (fun _ _ _ _ _ => Reading.feed_readFrom) parsed
  cases whole with
  | complete read => exact read

end LoopTape
