import LoopTape.Proofs.Tree.Grouping
import LoopTape.Proofs.Tree.Spanless
import LoopTape.Proofs.Tree.Tokens

/-! The tokens of a tree are read back as the grouped tree.

A call is read as long as expressions follow, so after a call as many calls are still open as it is
the last argument of. The token that follows an expression is none that an expression starts with,
and it closes all of them at once: the state then is the same as if they had been closed before.
-/

set_option autoImplicit false

namespace LoopTape

/-- The expression as reading gives it back, without spans. -/
def Expr.reread (e : Expr) : Expr := e.grouped.relabel .bare

def Expr.rereadArgs (args : List Expr) : List Expr := Expr.relabelAll .bare (Expr.groupedArgs args)

def Block.reread (block : Block) : Block := block.grouped.relabel .bare

def Stmt.reread (s : Stmt) : Stmt := s.grouped.relabel .bare

def Stmt.rereadAll (stmts : List Stmt) : List Stmt := Stmt.relabelAll .bare (Stmt.groupedAll stmts)

theorem Expr.rereadArgs_cons (e : Expr) (rest : List Expr) :
    Expr.rereadArgs (e :: rest) =
      (if e.isCall && !rest.isEmpty then .paren e.reread else e.reread) :: Expr.rereadArgs rest := by
  rw [rereadArgs, groupedArgs, relabelAll]
  split <;> rfl

theorem Expr.rereadArgs_nil : Expr.rereadArgs [] = [] := rfl

theorem Expr.reread_paren (inner : Expr) : (Expr.paren inner).reread = .paren inner.reread := rfl

theorem Expr.reread_call (name : String) (args : List Expr) (span : Span) :
    (Expr.call name args span).reread = .call name (Expr.rereadArgs args) .unknown := rfl

def Token.startsExpr : Token → Bool
  | .variable _ | .identifier _ | .openParen => true
  | _ => false

namespace Reading

variable {wraps : List Wrap} {root : Root} {before : List Stmt} {place : Place}
  {token : Token} {rest : List Token}

theorem read_closeCalls (e : Expr) (span : Span) (stop : Nat) :
    feed token span stop (closeCalls 0 e wraps root before place) =
      feedSettled token span stop (closeCalls 0 e wraps root before place) := by
  induction wraps generalizing e with
  | nil => cases root <;> rfl
  | cons wrap wraps ih =>
    cases wrap with
    | paren => rfl
    | argument call => exact ih _

/-- A token that goes on with no expression closes the calls that could take one. -/
theorem read_settle (ends : token.startsExpr = false) :
    (inExpr wraps root before place).read (token :: rest) =
      ((inExpr wraps root before place).settle 0).read (token :: rest) := by
  have closing : feed token .unknown 0 (inExpr wraps root before place) =
      feedSettled token .unknown 0 ((inExpr wraps root before place).settle 0) := by
    cases token with
    | «variable» name => cases ends
    | identifier name => cases ends
    | openParen => cases ends
    | _ => rfl
  -- To settle twice is to settle once.
  have closed : feed token .unknown 0 ((inExpr wraps root before place).settle 0) =
      feedSettled token .unknown 0 ((inExpr wraps root before place).settle 0) := by
    match wraps, root with
    | .argument call :: wraps, root => exact read_closeCalls _ _ _
    | [], .argument result call => rfl
    | .paren :: wraps, root => exact closing
    | [], .condition => exact closing
  rw [read, read, closing, closed]

theorem read_add (e : Expr) (ends : token.startsExpr = false) :
    (add e wraps root before place).read (token :: rest) =
      (closeCalls 0 e wraps root before place).read (token :: rest) := by
  match wraps, root with
  | .paren :: _, _ => rfl
  | .argument _ :: _, _ => exact read_settle ends
  | [], .condition => rfl
  | [], .argument _ _ => exact read_settle ends

end Reading

inductive Caller where
  | argument (wraps : List Wrap) (root : Root)
  | statement (result : Option Variable)

namespace Caller

def wraps (call : OpenCall) : Caller → List Wrap
  | .argument wraps _ => .argument call :: wraps
  | .statement _ => []

def root (call : OpenCall) : Caller → Root
  | .argument _ root => root
  | .statement result => .argument result call

def taking (caller : Caller) (call : OpenCall) (before : List Stmt) (place : Place) : Reading :=
  .inExpr (caller.wraps call) (caller.root call) before place

def closed (caller : Caller) (call : OpenCall) (before : List Stmt) (place : Place) : Reading :=
  (caller.taking call before place).settle 0

variable (caller : Caller) (call : OpenCall) (e : Expr) (before : List Stmt) (place : Place)

theorem add_eq :
    Reading.add e (caller.wraps call) (caller.root call) before place =
      caller.taking { call with args := e :: call.args } before place := by
  cases caller <;> rfl

theorem closeCalls_eq :
    Reading.closeCalls 0 e (caller.wraps call) (caller.root call) before place =
      caller.closed { call with args := e :: call.args } before place := by
  cases caller <;> rfl

end Caller

section

variable {before : List Stmt} {place : Place}

theorem Reading.read_paren {inner : Expr} {wraps : List Wrap} {root : Root} {rest : List Token}
    (inside : (inExpr (.paren :: wraps) root before place).read
        (inner.tokens ++ .closeParen :: rest) =
      (closeCalls 0 inner.reread (.paren :: wraps) root before place).read (.closeParen :: rest)) :
    (inExpr wraps root before place).read (.openParen :: (inner.tokens ++ .closeParen :: rest)) =
      (add (.paren inner.reread) wraps root before place).read rest := by
  have opening : (inExpr wraps root before place).read
      (.openParen :: (inner.tokens ++ .closeParen :: rest)) =
        (inExpr (.paren :: wraps) root before place).read (inner.tokens ++ .closeParen :: rest) := rfl
  rw [opening, inside]
  rfl

mutual

theorem Expr.read_tokens (e : Expr) (plain : e.isCall = false) (wraps : List Wrap) (root : Root)
    (rest : List Token) :
    (Reading.inExpr wraps root before place).read (e.tokens ++ rest) =
      (Reading.add e.reread wraps root before place).read rest := by
  match e with
  | .variable v => rfl
  | .paren inner =>
    have inside := Expr.read_last inner (.paren :: wraps) root .closeParen rfl rest
    simpa [Expr.tokens, Expr.reread_paren] using Reading.read_paren inside
  | .call name args span => simp [Expr.isCall] at plain

theorem Expr.read_last (e : Expr) (wraps : List Wrap) (root : Root) (token : Token)
    (ends : token.startsExpr = false) (rest : List Token) :
    (Reading.inExpr wraps root before place).read (e.tokens ++ token :: rest) =
      (Reading.closeCalls 0 e.reread wraps root before place).read (token :: rest) := by
  match e with
  | .variable v =>
    have complete := Expr.read_tokens (.variable v) rfl wraps root (token :: rest)
    exact complete.trans (Reading.read_add _ ends)
  | .paren inner =>
    have inside := Expr.read_last inner (.paren :: wraps) root .closeParen rfl (token :: rest)
    rw [← Reading.read_add _ ends]
    simpa [Expr.tokens, Expr.reread_paren] using Reading.read_paren inside
  | .call name args span =>
    have called := Expr.read_argTokens args (.argument wraps root) ⟨name, [], 0⟩ token ends rest
    have close : (OpenCall.mk name ((Expr.rereadArgs args).reverse ++ []) 0).close 0 =
        .call name (Expr.rereadArgs args) .unknown := by
      simp only [OpenCall.close, List.append_nil, List.reverse_reverse]
      rfl
    rw [Expr.reread_call, ← close]
    exact called

theorem Expr.read_argTokens (args : List Expr) (caller : Caller) (call : OpenCall) (token : Token)
    (ends : token.startsExpr = false) (rest : List Token) :
    (caller.taking call before place).read (Expr.argTokens args ++ token :: rest) =
      (caller.closed { call with args := (Expr.rereadArgs args).reverse ++ call.args } before
        place).read (token :: rest) := by
  match args with
  | [] => exact Reading.read_settle ends
  | [e] =>
    have last := Expr.read_last e (caller.wraps call) (caller.root call) token ends rest
    rw [Caller.closeCalls_eq] at last
    simpa [Expr.argTokens, Expr.rereadArgs_cons, Expr.rereadArgs_nil, Caller.taking] using last
  | e :: next :: more =>
    have others := Expr.read_argTokens (next :: more) caller
      { call with args :=
        (if e.isCall && !(next :: more).isEmpty then .paren e.reread else e.reread) :: call.args }
      token ends rest
    rw [Expr.rereadArgs_cons, List.reverse_cons, List.append_assoc]
    apply Eq.trans _ others
    rw [← Caller.add_eq, Expr.argTokens, List.append_assoc]
    -- A call that is not the last argument is ended by its parenthesis, and anything else by itself.
    by_cases wrapped : e.isCall = true
    · have inside := Expr.read_last e (.paren :: caller.wraps call) (caller.root call) .closeParen
        rfl (Expr.argTokens (next :: more) ++ token :: rest)
      simpa [wrapped, Caller.taking] using Reading.read_paren inside
    · have complete := Expr.read_tokens e (by simpa using wrapped) (caller.wraps call)
        (caller.root call) (Expr.argTokens (next :: more) ++ token :: rest)
      simpa [wrapped, Caller.taking] using complete

end

end

theorem Block.tokens_append (block : Block) (rest : List Token) :
    block.tokens ++ rest =
      .openBrace :: (Stmt.tokensAll block.stmts ++ .closeBrace :: rest) := by
  cases block with
  | mk stmts slots => simp [Block.tokens, Block.stmts]

/-- No statement starts with the word that would go on with the one before it. -/
theorem Stmt.tokens_head (s : Stmt) : ∃ token rest, s.tokens = token :: rest ∧ token ≠ .elseWord := by
  match s with
  | .cond _ _ none => exact ⟨_, _, rfl, by decide⟩
  | .cond _ _ (some _) => exact ⟨_, _, rfl, by decide⟩
  | .loop none _ _ => exact ⟨_, _, rfl, by decide⟩
  | .loop (some _) _ _ => exact ⟨_, _, rfl, by decide⟩
  | .leave none _ => exact ⟨_, _, rfl, by decide⟩
  | .leave (some _) _ => exact ⟨_, _, rfl, by decide⟩
  | .call none _ _ _ => exact ⟨_, _, rfl, by simp⟩
  | .call (some _) _ _ _ => exact ⟨_, _, rfl, by simp⟩
  | .block inner =>
    have opens := Block.tokens_append inner []
    rw [List.append_nil] at opens
    exact ⟨_, _, opens, by decide⟩

theorem Stmt.tokensAll_head (stmts : List Stmt) (rest : List Token) :
    ∃ token more, Stmt.tokensAll stmts ++ .closeBrace :: rest = token :: more ∧
      token ≠ .elseWord := by
  cases stmts with
  | nil => exact ⟨_, _, rfl, by decide⟩
  | cons s others =>
    obtain ⟨token, more, starts, other⟩ := Stmt.tokens_head s
    exact ⟨token, _, by rw [Stmt.tokensAll, starts]; rfl, other⟩

/-- A `cond` without a second block ends where no such block comes. -/
theorem Reading.read_afterThen {condition : Expr} {thenBlock : Block} {before : List Stmt}
    {place : Place} {token : Token} {rest : List Token} (other : token ≠ .elseWord) :
    (afterThen condition thenBlock before place).read (token :: rest) =
      (inBlock (.cond condition thenBlock none :: before) place).read (token :: rest) := by
  cases token with
  | elseWord => exact absurd rfl other
  | _ => rfl

theorem Stmt.read_call (result : Option Variable) (name : String) (args : List Expr)
    (before : List Stmt) (place : Place) (rest : List Token) :
    (Reading.inExpr [] (.argument result ⟨name, [], 0⟩) before place).read
        ((Expr.argTokens args ++ [.semicolon]) ++ rest) =
      (Reading.inBlock (.call result name (Expr.rereadArgs args) .unknown :: before) place).read
        rest := by
  have arguments : ((Expr.rereadArgs args).reverse ++ []).reverse = Expr.rereadArgs args := by
    rw [List.append_nil, List.reverse_reverse]
  have called : ((Caller.statement result).taking ⟨name, [], 0⟩ before place).read
      (Expr.argTokens args ++ .semicolon :: rest) = _ :=
    Expr.read_argTokens args (.statement result) ⟨name, [], 0⟩ .semicolon rfl rest
  rw [List.append_assoc, ← arguments]
  exact called

mutual

theorem Block.read_tokens (block : Block) {state : Reading} {place : Place}
    (opens : state.feed .openBrace .unknown 0 = .ok (.inBlock [] place)) (rest : List Token) :
    state.read (block.tokens ++ rest) = (Reading.closeBlock block.reread place).read rest := by
  cases block with
  | mk stmts slots =>
    have inside := Stmt.readAll_tokens stmts [] place rest
    have closing : Block.unscoped (((Stmt.rereadAll stmts).reverse ++ []).reverse) =
        (Block.mk stmts slots).reread := by
      rw [List.append_nil, List.reverse_reverse]
      rfl
    rw [Block.tokens_append, Reading.read, opens, ← closing]
    exact inside

theorem Stmt.readAll_tokens (stmts : List Stmt) (before : List Stmt) (place : Place)
    (rest : List Token) :
    (Reading.inBlock before place).read (Stmt.tokensAll stmts ++ .closeBrace :: rest) =
      (Reading.inBlock ((Stmt.rereadAll stmts).reverse ++ before) place).read
        (.closeBrace :: rest) := by
  cases stmts with
  | nil => rfl
  | cons s others =>
    -- One token further on it is certain that the statement has ended.
    obtain ⟨token, more, starts, other⟩ := Stmt.tokensAll_head others rest
    have first := Stmt.read_tokens s before place token other more
    have following := Stmt.readAll_tokens others (s.reread :: before) place rest
    have all : Stmt.rereadAll (s :: others) = s.reread :: Stmt.rereadAll others := rfl
    rw [Stmt.tokensAll, List.append_assoc, starts, first, ← starts, following, all,
      List.reverse_cons, List.append_assoc]
    rfl

theorem Stmt.read_tokens (s : Stmt) (before : List Stmt) (place : Place) (token : Token)
    (other : token ≠ .elseWord) (rest : List Token) :
    (Reading.inBlock before place).read (s.tokens ++ token :: rest) =
      (Reading.inBlock (s.reread :: before) place).read (token :: rest) := by
  match s with
  | .cond condition thenBlock none =>
    have opens : (Reading.atBlock (.thenBranch condition.reread before place)).feed .openBrace
        .unknown 0 = .ok (.inBlock [] (.thenBranch condition.reread before place)) := rfl
    calc (Reading.inBlock before place).read
          ((Stmt.cond condition thenBlock none).tokens ++ token :: rest)
        = (Reading.inExpr [] .condition before place).read
            (condition.tokens ++ (thenBlock.tokens ++ token :: rest)) := by
          rw [Stmt.tokens, List.cons_append, List.cons_append, List.append_assoc]
          rfl
      _ = (Reading.atBlock (.thenBranch condition.reread before place)).read
            (thenBlock.tokens ++ token :: rest) := by
          rw [Block.tokens_append]
          exact Expr.read_last condition [] .condition .openBrace rfl _
      _ = (Reading.afterThen condition.reread thenBlock.reread before place).read
            (token :: rest) := Block.read_tokens thenBlock opens _
      _ = _ := Reading.read_afterThen other
  | .cond condition thenBlock (some elseBlock) =>
    have opens : (Reading.atBlock (.thenBranch condition.reread before place)).feed .openBrace
        .unknown 0 = .ok (.inBlock [] (.thenBranch condition.reread before place)) := rfl
    have opensElse : (Reading.atBlock (.elseBranch condition.reread thenBlock.reread before
        place)).feed .openBrace .unknown 0 =
          .ok (.inBlock [] (.elseBranch condition.reread thenBlock.reread before place)) := rfl
    calc (Reading.inBlock before place).read
          ((Stmt.cond condition thenBlock (some elseBlock)).tokens ++ token :: rest)
        = (Reading.inExpr [] .condition before place).read
            (condition.tokens ++
              (thenBlock.tokens ++ .elseWord :: (elseBlock.tokens ++ token :: rest))) := by
          simp only [Stmt.tokens, List.cons_append, List.append_assoc]
          rfl
      _ = (Reading.atBlock (.thenBranch condition.reread before place)).read
            (thenBlock.tokens ++ .elseWord :: (elseBlock.tokens ++ token :: rest)) := by
          rw [Block.tokens_append]
          exact Expr.read_last condition [] .condition .openBrace rfl _
      _ = (Reading.afterThen condition.reread thenBlock.reread before place).read
            (.elseWord :: (elseBlock.tokens ++ token :: rest)) :=
          Block.read_tokens thenBlock opens _
      _ = _ := Block.read_tokens elseBlock opensElse _
  | .loop none body span =>
    have opens : (Reading.afterLoop 0 before place).feed .openBrace .unknown 0 =
        .ok (.inBlock [] (.loopBody none .unknown before place)) := rfl
    exact Block.read_tokens body opens _
  | .loop (some label) body span =>
    have opens : (Reading.atBlock (.loopBody (some label) .unknown before place)).feed .openBrace
        .unknown 0 = .ok (.inBlock [] (.loopBody (some label) .unknown before place)) := rfl
    exact Block.read_tokens body opens _
  | .leave none span => rfl
  | .leave (some label) span => rfl
  | .call none name args span =>
    exact Stmt.read_call none name args before place (token :: rest)
  | .call (some v) name args span =>
    exact Stmt.read_call (some (.unbound v.name)) name args before place (token :: rest)
  | .block inner =>
    have opens : (Reading.inBlock before place).feed .openBrace .unknown 0 =
        .ok (.inBlock [] (.statement before place)) := rfl
    exact Block.read_tokens inner opens _

end

/-- The tokens of a root block are read back as the block, grouped and without spans. -/
theorem Block.read_root (root : Block) : Reading.initial.read root.tokens = .ok root.reread := by
  have opens : Reading.initial.feed .openBrace .unknown 0 = .ok (.inBlock [] .root) := rfl
  have whole := Block.read_tokens root opens []
  rw [List.append_nil] at whole
  exact whole

end LoopTape
