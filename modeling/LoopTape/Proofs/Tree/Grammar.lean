import LoopTape.Proofs.Tree.Grouping
import LoopTape.Proofs.Tree.Tokens

/-! The token lists of the grammar.

A tree yields its tokens in the order of the grammar's rules, and nothing else: no parentheses but its
own. Since a call takes every expression that follows it, a token list can only be the yield of a
canonical tree, in which no argument but the last one of its call is a call. These are the trees that
writing puts no parentheses into.
-/

set_option autoImplicit false

namespace LoopTape

mutual

def Expr.yield : Expr → List Token
  | .variable v => [.variable v.name]
  | .paren inner => .openParen :: inner.yield ++ [.closeParen]
  | .call name args _ => .identifier name :: Expr.yieldAll args

def Expr.yieldAll : List Expr → List Token
  | [] => []
  | e :: rest => e.yield ++ Expr.yieldAll rest

end

def resultTokens : Option Variable → List Token
  | none => []
  | some v => [.variable v.name, .assign]

mutual

def Block.yield : Block → List Token
  | .mk stmts _ => .openBrace :: Stmt.yieldAll stmts ++ [.closeBrace]

def Stmt.yieldAll : List Stmt → List Token
  | [] => []
  | s :: rest => s.yield ++ Stmt.yieldAll rest

def Stmt.yield : Stmt → List Token
  | .cond condition thenBlock none => .condWord :: condition.yield ++ thenBlock.yield
  | .cond condition thenBlock (some elseBlock) =>
    .condWord :: condition.yield ++ thenBlock.yield ++ .elseWord :: elseBlock.yield
  | .loop label body _ => .loopWord :: label.toList.map .identifier ++ body.yield
  | .leave label _ => .breakWord :: label.toList.map .identifier ++ [.semicolon]
  | .call result name args _ =>
    resultTokens result ++ .identifier name :: Expr.yieldAll args ++ [.semicolon]
  | .block inner => inner.yield

end

mutual

/-- No argument but the last one of its call is a call. -/
def Expr.Canonical : Expr → Prop
  | .variable _ => True
  | .paren inner => inner.Canonical
  | .call _ args _ => Expr.CanonicalArgs args

def Expr.CanonicalArgs : List Expr → Prop
  | [] => True
  | e :: rest => e.Canonical ∧ (e.isCall = true → rest = []) ∧ Expr.CanonicalArgs rest

end

mutual

def Block.Canonical : Block → Prop
  | .mk stmts _ => Stmt.CanonicalAll stmts

def Stmt.CanonicalAll : List Stmt → Prop
  | [] => True
  | s :: rest => s.Canonical ∧ Stmt.CanonicalAll rest

def Stmt.Canonical : Stmt → Prop
  | .cond condition thenBlock none => condition.Canonical ∧ thenBlock.Canonical
  | .cond condition thenBlock (some elseBlock) =>
    condition.Canonical ∧ thenBlock.Canonical ∧ elseBlock.Canonical
  | .loop _ body _ => body.Canonical
  | .leave .. => True
  | .call _ _ args _ => Expr.CanonicalArgs args
  | .block inner => inner.Canonical

end

/-- The same tokens can be the yield of a canonical call and of one that reading never gives. -/
example (x y : Expr) :
    (Expr.call "f" [.call "g" [x] .unknown, y] .unknown).yield =
      (Expr.call "f" [.call "g" [x, y] .unknown] .unknown).yield := by
  simp [Expr.yield, Expr.yieldAll]

mutual

theorem Expr.grouped_eq_iff (e : Expr) : e.grouped = e ↔ e.Canonical := by
  match e with
  | .variable v => simp [grouped, Canonical]
  | .paren inner => simp [grouped, Canonical, Expr.grouped_eq_iff inner]
  | .call name args span => simp [grouped, Canonical, Expr.groupedArgs_eq_iff args]

theorem Expr.groupedArgs_eq_iff (args : List Expr) :
    Expr.groupedArgs args = args ↔ Expr.CanonicalArgs args := by
  match args with
  | [] => simp [groupedArgs, CanonicalArgs]
  | e :: rest =>
    rw [groupedArgs, CanonicalArgs, List.cons.injEq, Expr.groupedArgs_eq_iff rest]
    cases called : e.isCall with
    | false => simp [Expr.grouped_eq_iff e]
    | true =>
      cases rest with
      | nil => simp [Expr.grouped_eq_iff e]
      | cons next more =>
        -- Parentheses would make the argument something else than the call it is.
        have other : Expr.paren e.grouped ≠ e := by
          intro same
          rw [← same] at called
          cases called
        simp [other]

end

mutual

theorem Block.grouped_eq_iff (block : Block) : block.grouped = block ↔ block.Canonical := by
  cases block with
  | mk stmts slots => simp [Block.grouped, Block.Canonical, Stmt.groupedAll_eq_iff stmts]

theorem Stmt.groupedAll_eq_iff (stmts : List Stmt) :
    Stmt.groupedAll stmts = stmts ↔ Stmt.CanonicalAll stmts := by
  cases stmts with
  | nil => simp [Stmt.groupedAll, Stmt.CanonicalAll]
  | cons s rest =>
    rw [Stmt.groupedAll, Stmt.CanonicalAll, List.cons.injEq, Stmt.grouped_eq_iff s,
      Stmt.groupedAll_eq_iff rest]

theorem Stmt.grouped_eq_iff (s : Stmt) : s.grouped = s ↔ s.Canonical := by
  match s with
  | .cond condition thenBlock none =>
    simp [Stmt.grouped, Stmt.Canonical, Expr.grouped_eq_iff, Block.grouped_eq_iff thenBlock]
  | .cond condition thenBlock (some elseBlock) =>
    simp [Stmt.grouped, Stmt.Canonical, Expr.grouped_eq_iff, Block.grouped_eq_iff thenBlock,
      Block.grouped_eq_iff elseBlock]
  | .loop label body span => simp [Stmt.grouped, Stmt.Canonical, Block.grouped_eq_iff body]
  | .leave label span => simp [Stmt.grouped, Stmt.Canonical]
  | .call result name args span =>
    simp [Stmt.grouped, Stmt.Canonical, Expr.groupedArgs_eq_iff]
  | .block inner => simp [Stmt.grouped, Stmt.Canonical, Block.grouped_eq_iff inner]

end

mutual

theorem Expr.tokens_eq_yield (e : Expr) (canonical : e.Canonical) : e.tokens = e.yield := by
  match e with
  | .variable v => rfl
  | .paren inner => rw [tokens, yield, Expr.tokens_eq_yield inner canonical]
  | .call name args span => rw [tokens, yield, Expr.argTokens_eq_yieldAll args canonical]

theorem Expr.argTokens_eq_yieldAll (args : List Expr) (canonical : Expr.CanonicalArgs args) :
    Expr.argTokens args = Expr.yieldAll args := by
  match args with
  | [] => rfl
  | e :: rest =>
    obtain ⟨first, last, others⟩ := canonical
    have bare : (e.isCall && !rest.isEmpty) = false := by
      cases called : e.isCall with
      | false => rfl
      | true => simp [last called]
    rw [argTokens, yieldAll, bare, Expr.tokens_eq_yield e first,
      Expr.argTokens_eq_yieldAll rest others]
    rfl

end

mutual

theorem Block.tokens_eq_yield (block : Block) (canonical : block.Canonical) :
    block.tokens = block.yield := by
  cases block with
  | mk stmts slots => rw [Block.tokens, Block.yield, Stmt.tokensAll_eq_yieldAll stmts canonical]

theorem Stmt.tokensAll_eq_yieldAll (stmts : List Stmt) (canonical : Stmt.CanonicalAll stmts) :
    Stmt.tokensAll stmts = Stmt.yieldAll stmts := by
  cases stmts with
  | nil => rfl
  | cons s rest =>
    rw [Stmt.tokensAll, Stmt.yieldAll, Stmt.tokens_eq_yield s canonical.1,
      Stmt.tokensAll_eq_yieldAll rest canonical.2]

theorem Stmt.tokens_eq_yield (s : Stmt) (canonical : s.Canonical) : s.tokens = s.yield := by
  match s with
  | .cond condition thenBlock none =>
    obtain ⟨choice, whenTrue⟩ := canonical
    rw [Stmt.tokens, Stmt.yield, Expr.tokens_eq_yield _ choice,
      Block.tokens_eq_yield thenBlock whenTrue]
  | .cond condition thenBlock (some elseBlock) =>
    obtain ⟨choice, whenTrue, whenFalse⟩ := canonical
    rw [Stmt.tokens, Stmt.yield, Expr.tokens_eq_yield _ choice,
      Block.tokens_eq_yield thenBlock whenTrue, Block.tokens_eq_yield elseBlock whenFalse]
  | .loop none body span =>
    rw [Stmt.tokens, Stmt.yield, Block.tokens_eq_yield body canonical]
    rfl
  | .loop (some label) body span =>
    rw [Stmt.tokens, Stmt.yield, Block.tokens_eq_yield body canonical]
    rfl
  | .leave none span => rfl
  | .leave (some label) span => rfl
  | .call none name args span =>
    rw [Stmt.tokens, Stmt.yield, Expr.argTokens_eq_yieldAll args canonical]
    rfl
  | .call (some v) name args span =>
    rw [Stmt.tokens, Stmt.yield, Expr.argTokens_eq_yieldAll args canonical]
    rfl
  | .block inner => exact Block.tokens_eq_yield inner canonical

end

end LoopTape
