import LoopTape.Proofs.Tree.Grammar
import LoopTape.Proofs.Tree.Origin
import LoopTape.Proofs.Tree.Rereading

/-! Reading accepts the yields of canonical trees and nothing else.

What was read from some tokens yields these tokens, so a tree that is read yields all of them. The other
way round the tokens of a canonical tree are those of its written form, which is read back.
-/

set_option autoImplicit false

namespace LoopTape

mutual

theorem Expr.ReadFrom.yield_eq {e : Expr} {placed : List Placed} (read : e.ReadFrom placed) :
    e.yield = placed.map Placed.token := by
  cases read with
  | «variable» name a => rfl
  | paren a b inner =>
    rw [Expr.yield, inner.yield_eq]
    simp
  | call name a args =>
    rw [Expr.yield, args.yieldAll_eq, List.map_cons]

theorem Expr.ReadAllFrom.yieldAll_eq {args : List Expr} {placed : List Placed}
    (read : Expr.ReadAllFrom args placed) : Expr.yieldAll args = placed.map Placed.token := by
  cases read with
  | nil => rfl
  | cons first more => rw [Expr.yieldAll, first.yield_eq, more.yieldAll_eq, List.map_append]

end

theorem LoopHead.tokens_eq {label : Option String} {span : Span} {placed : List Placed}
    (head : LoopHead label span placed) :
    placed.map Placed.token = .loopWord :: label.toList.map .identifier := by
  cases head <;> rfl

theorem Leaving.tokens_eq {label : Option String} {span : Span} {placed : List Placed}
    (leaving : Leaving label span placed) :
    placed.map Placed.token = .breakWord :: label.toList.map .identifier ++ [.semicolon] := by
  cases leaving <;> rfl

theorem Assigning.tokens_eq {result : Option Variable} {placed : List Placed}
    (assigning : Assigning result placed) : placed.map Placed.token = resultTokens result := by
  cases assigning <;> rfl

mutual

theorem Block.ReadFrom.yield_eq {block : Block} {placed : List Placed}
    (read : block.ReadFrom placed) : block.yield = placed.map Placed.token := by
  cases read with
  | unscoped a b all =>
    rw [Block.unscoped, Block.yield, all.yieldAll_eq]
    simp

theorem Stmt.ReadAllFrom.yieldAll_eq {stmts : List Stmt} {placed : List Placed}
    (read : Stmt.ReadAllFrom stmts placed) : Stmt.yieldAll stmts = placed.map Placed.token := by
  cases read with
  | nil => rfl
  | cons first more => rw [Stmt.yieldAll, first.yield_eq, more.yieldAll_eq, List.map_append]

theorem Stmt.ReadFrom.yield_eq {s : Stmt} {placed : List Placed} (read : s.ReadFrom placed) :
    s.yield = placed.map Placed.token := by
  cases read with
  | cond a decides first =>
    rw [Stmt.yield, decides.yield_eq, first.yield_eq]
    simp
  | condElse a b decides first second =>
    rw [Stmt.yield, decides.yield_eq, first.yield_eq, second.yield_eq]
    simp
  | loop head repeats => rw [Stmt.yield, repeats.yield_eq, List.map_append, head.tokens_eq]
  | leave leaving => exact leaving.tokens_eq.symm
  | call b assigning called =>
    have named := called.yield_eq
    rw [Expr.yield] at named
    rw [Stmt.yield, List.map_append, List.map_append, ← named, assigning.tokens_eq]
    rfl
  | block inner => exact inner.yield_eq

end

theorem Block.yield_of_parse {placed : List Placed} {block : Block}
    (parsed : parse placed = .ok block) : block.yield = placed.map Placed.token :=
  (Block.readFrom_of_parse parsed).yield_eq

/-- The tokens of a canonical block are read back, wherever they stand. -/
theorem Block.parse_of_yield {placed : List Placed} {block : Block} (canonical : block.Canonical)
    (yields : block.yield = placed.map Placed.token) :
    ∃ read, parse placed = .ok read ∧ read.relabel .bare = block.relabel .bare := by
  have spells : Reading.initial.read (placed.map Placed.token) = .ok block.reread := by
    rw [← yields, ← Block.tokens_eq_yield block canonical, Block.read_root]
  have bare : block.reread = block.relabel .bare := by
    rw [Block.reread, (Block.grouped_eq_iff block).mpr canonical]
  rw [← bare]
  exact parse_of_read spells

/-- What is read is canonical and yields all the tokens, every canonical block is read back from the
tokens it yields, and reading fails on all other token lists. -/
theorem parse_accepts_grammar (placed : List Placed) :
    (∀ block, parse placed = .ok block →
        block.Canonical ∧ block.yield = placed.map Placed.token) ∧
      (∀ block : Block, block.Canonical → block.yield = placed.map Placed.token →
        ∃ read, parse placed = .ok read ∧ read.relabel .bare = block.relabel .bare) ∧
      ((∃ e, parse placed = .error e) ↔
        ¬∃ block : Block, block.Canonical ∧ block.yield = placed.map Placed.token) := by
  have sound (block : Block) (parsed : parse placed = .ok block) :
      block.Canonical ∧ block.yield = placed.map Placed.token :=
    ⟨(Block.grouped_eq_iff block).mp (Block.grouped_of_parse parsed), Block.yield_of_parse parsed⟩
  have complete (block : Block) (canonical : block.Canonical)
      (yields : block.yield = placed.map Placed.token) :=
    Block.parse_of_yield canonical yields
  refine ⟨sound, complete, ?_⟩
  constructor
  · rintro ⟨e, failed⟩ ⟨block, canonical, yields⟩
    obtain ⟨read, parsed, -⟩ := complete block canonical yields
    rw [failed] at parsed
    cases parsed
  · intro none
    cases parsed : parse placed with
    | error e => exact ⟨e, rfl⟩
    | ok block => exact absurd ⟨block, sound block parsed⟩ none

end LoopTape
