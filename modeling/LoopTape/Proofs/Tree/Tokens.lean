import LoopTape.Proofs.Token.Spelling
import LoopTape.Proofs.Tree.Relabelling

/-! The tokens of a tree, and that its written form is cut into them.

The tokens are those of the grouped tree. No two words of the written form touch: a blank or a mark
stands between them, and none of these goes on with a name, so that each word is read on its own.
-/

set_option autoImplicit false

namespace LoopTape

mutual

def Expr.tokens : Expr → List Token
  | .variable v => [.variable v.name]
  | .paren inner => .openParen :: inner.tokens ++ [.closeParen]
  | .call name args _ => .identifier name :: Expr.argTokens args

def Expr.argTokens : List Expr → List Token
  | [] => []
  | e :: rest =>
    (if e.isCall && !rest.isEmpty then .openParen :: e.tokens ++ [.closeParen] else e.tokens) ++
      Expr.argTokens rest

end

mutual

def Block.tokens : Block → List Token
  | .mk stmts _ => .openBrace :: Stmt.tokensAll stmts ++ [.closeBrace]

def Stmt.tokensAll : List Stmt → List Token
  | [] => []
  | s :: rest => s.tokens ++ Stmt.tokensAll rest

def Stmt.tokens : Stmt → List Token
  | .cond condition thenBlock none => .condWord :: condition.tokens ++ thenBlock.tokens
  | .cond condition thenBlock (some elseBlock) =>
    .condWord :: condition.tokens ++ thenBlock.tokens ++ .elseWord :: elseBlock.tokens
  | .loop none body _ => .loopWord :: body.tokens
  | .loop (some label) body _ => .loopWord :: .identifier label :: body.tokens
  | .leave none _ => [.breakWord, .semicolon]
  | .leave (some label) _ => [.breakWord, .identifier label, .semicolon]
  | .call none name args _ => .identifier name :: Expr.argTokens args ++ [.semicolon]
  | .call (some v) name args _ =>
    .variable v.name :: .assign :: .identifier name :: Expr.argTokens args ++ [.semicolon]
  | .block inner => inner.tokens

end

mutual

def Expr.words : Expr → List String
  | .variable _ => []
  | .paren inner => inner.words
  | .call name args _ => name :: Expr.wordsAll args

def Expr.wordsAll : List Expr → List String
  | [] => []
  | e :: rest => e.words ++ Expr.wordsAll rest

end

mutual

def Block.words : Block → List String
  | .mk stmts _ => Stmt.wordsAll stmts

def Stmt.wordsAll : List Stmt → List String
  | [] => []
  | s :: rest => s.words ++ Stmt.wordsAll rest

def Stmt.words : Stmt → List String
  | .cond condition thenBlock none => condition.words ++ thenBlock.words
  | .cond condition thenBlock (some elseBlock) =>
    condition.words ++ thenBlock.words ++ elseBlock.words
  | .loop label body _ => label.toList ++ body.words
  | .leave label _ => label.toList
  | .call _ name args _ => name :: Expr.wordsAll args
  | .block inner => inner.words

end

/-- The variables and words of a part can be written so that they are read back. -/
structure Spelled (vars : List Variable) (words : List String) : Prop where
  vars : ∀ v ∈ vars, isName v.name = true
  words : ∀ word ∈ words, isWord word = true

theorem Spelled.append {vars vars' : List Variable} {words words' : List String}
    (both : Spelled (vars ++ vars') (words ++ words')) : Spelled vars words ∧ Spelled vars' words' :=
  ⟨⟨fun v member => both.vars v (List.mem_append_left _ member),
      fun word member => both.words word (List.mem_append_left _ member)⟩,
    ⟨fun v member => both.vars v (List.mem_append_right _ member),
      fun word member => both.words word (List.mem_append_right _ member)⟩⟩

theorem Spelled.laterWords {vars : List Variable} {word : String} {words : List String}
    (spelled : Spelled vars (word :: words)) : Spelled vars words :=
  ⟨spelled.vars, fun other member => spelled.words other (List.mem_cons_of_mem _ member)⟩

theorem Spelled.laterVars {v : Variable} {vars : List Variable} {words : List String}
    (spelled : Spelled (v :: vars) words) : Spelled vars words :=
  ⟨fun other member => spelled.vars other (List.mem_cons_of_mem _ member), spelled.words⟩

section

variable (r : Relabelling)

mutual

theorem Expr.words_relabel (e : Expr) : (e.relabel r).words = e.words := by
  match e with
  | .variable v => rfl
  | .paren inner => exact Expr.words_relabel inner
  | .call name args span =>
    rw [Expr.relabel, Expr.words, Expr.words, Expr.wordsAll_relabelAll args]

theorem Expr.wordsAll_relabelAll (args : List Expr) :
    Expr.wordsAll (Expr.relabelAll r args) = Expr.wordsAll args := by
  cases args with
  | nil => rfl
  | cons e rest =>
    rw [Expr.relabelAll, Expr.wordsAll, Expr.wordsAll, Expr.words_relabel e,
      Expr.wordsAll_relabelAll rest]

end

mutual

theorem Block.words_relabel (block : Block) : (block.relabel r).words = block.words := by
  cases block with
  | mk stmts slots => exact Stmt.wordsAll_relabelAll stmts

theorem Stmt.wordsAll_relabelAll (stmts : List Stmt) :
    Stmt.wordsAll (Stmt.relabelAll r stmts) = Stmt.wordsAll stmts := by
  cases stmts with
  | nil => rfl
  | cons s rest =>
    rw [Stmt.relabelAll, Stmt.wordsAll, Stmt.wordsAll, Stmt.words_relabel s,
      Stmt.wordsAll_relabelAll rest]

theorem Stmt.words_relabel (s : Stmt) : (s.relabel r).words = s.words := by
  match s with
  | .cond condition thenBlock none =>
    rw [Stmt.relabel, Stmt.words, Stmt.words, Expr.words_relabel r, Block.words_relabel thenBlock]
  | .cond condition thenBlock (some elseBlock) =>
    rw [Stmt.relabel, Stmt.words, Stmt.words, Expr.words_relabel r, Block.words_relabel thenBlock,
      Block.words_relabel elseBlock]
  | .loop none body span => exact Block.words_relabel body
  | .loop (some label) body span =>
    rw [Stmt.relabel, Stmt.words, Stmt.words, Block.words_relabel body]
  | .leave none span => rfl
  | .leave (some label) span => rfl
  | .call result name args span =>
    rw [Stmt.relabel, Stmt.words, Stmt.words, Expr.wordsAll_relabelAll]
  | .block inner => exact Block.words_relabel inner

end

theorem Block.spelled_relabel (root : Block) :
    Spelled (root.relabel r).variables (root.relabel r).words ↔
      Spelled root.variables root.words := by
  rw [Block.variables_relabel, Block.words_relabel]
  constructor
  · rintro ⟨vars, words⟩
    refine ⟨?_, words⟩
    intro v mem
    have kept : isName (v.relabel r).name = true := vars _ (List.mem_map_of_mem mem)
    exact kept
  · rintro ⟨vars, words⟩
    refine ⟨?_, words⟩
    intro v mem
    obtain ⟨original, here, rfl⟩ := List.mem_map.mp mem
    exact vars original here

end

def written (pieces : List Piece) : List Char := pieces.flatMap (·.text.toList)

@[simp] theorem written_nil : written [] = [] := rfl

@[simp] theorem written_append (a b : List Piece) : written (a ++ b) = written a ++ written b := by
  simp [written]

@[simp] theorem written_word (text : String) (rest : List Piece) :
    written (.word text :: rest) = text.toList ++ written rest := by
  simp [written, Piece.text]

@[simp] theorem written_space (rest : List Piece) : written (.space :: rest) = ' ' :: written rest := by
  simp [written, Piece.space, Piece.text]

@[simp] theorem written_newLine (level : Nat) (rest : List Piece) :
    written (.newLine level :: rest) =
      ('\n' :: List.replicate (2 * level) ' ') ++ written rest := by
  simp [written, Piece.newLine, Piece.text]

theorem Block.toList_format (detail : Detail) (root : Block) :
    (root.format detail).toList = written (root.layout detail 0) ++ ['\n'] := by
  simp [Block.format, written, String.toList_join, List.flatMap_map]

section

variable {rest : List Char} {tokens : List Token}

theorem Lexes.space (after : Lexes rest tokens) : Lexes (' ' :: rest) tokens :=
  .trivia (show triviaLength? ' ' rest = some 0 from rfl) after

theorem Lexes.newLine (level : Nat) (after : Lexes rest tokens) :
    Lexes (('\n' :: List.replicate (2 * level) ' ') ++ rest) tokens := by
  apply Lexes.blanks _ after
  intro c member
  rcases List.mem_cons.mp member with rfl | space
  · decide
  · rw [List.eq_of_mem_replicate space]
    decide

theorem Lexes.keyword {word : String} {token : Token} (spelled : isName word = true)
    (kept : Token.ofWord word.toList = token) (delimited : Delimited rest)
    (after : Lexes rest tokens) : Lexes (word.toList ++ rest) (token :: tokens) :=
  kept ▸ .name spelled delimited after

theorem Lexes.word {name : String} (spelled : isWord name = true) (delimited : Delimited rest)
    (after : Lexes rest tokens) : Lexes (name.toList ++ rest) (.identifier name :: tokens) := by
  rw [← ofWord_of_isWord spelled]
  exact .name (Bool.and_eq_true_iff.mp spelled).1 delimited after

theorem Lexes.written {detail : Detail} {v : Variable} (spelled : isName v.name = true)
    (delimited : Delimited rest) (after : Lexes rest tokens) :
    Lexes ((v.written detail).toList ++ rest) (.variable v.name :: tokens) := by
  obtain ⟨note, annotated, same⟩ := Variable.written_eq detail v
  rw [same]
  exact .variable spelled annotated delimited after

theorem delimited_space : Delimited (' ' :: rest) := delimited_cons (by decide) (by decide)

theorem delimited_args {detail : Detail} {args : List Expr} (delimited : Delimited rest) :
    Delimited (LoopTape.written (Expr.layoutArgs detail args) ++ rest) := by
  cases args with
  | nil => exact delimited
  | cons e more =>
    rw [Expr.layoutArgs, List.cons_append, written_space]
    exact delimited_space

end

section

variable (detail : Detail)

mutual

theorem Expr.lexes (e : Expr) (spelled : Spelled e.variables e.words) {rest : List Char}
    {tokens : List Token} (delimited : Delimited rest) (after : Lexes rest tokens) :
    Lexes (written (e.layout detail) ++ rest) (e.tokens ++ tokens) := by
  match e with
  | .variable v =>
    simp only [Expr.layout, written_word, written_nil, List.append_nil]
    exact .written (spelled.vars v List.mem_cons_self) delimited after
  | .paren inner =>
    have closed : Lexes (')' :: rest) (.closeParen :: tokens) := .mark rfl after
    have inside := Expr.lexes inner spelled (delimited_cons (by decide) (by decide)) closed
    simpa [Expr.layout, Expr.tokens] using Lexes.mark (c := '(') rfl inside
  | .call name args span =>
    have named := spelled.words name List.mem_cons_self
    have following := Expr.lexesArgs args spelled.laterWords delimited after
    simpa [Expr.layout, Expr.tokens] using Lexes.word named (delimited_args delimited) following

theorem Expr.lexesArgs (args : List Expr)
    (spelled : Spelled (Expr.variablesAll args) (Expr.wordsAll args)) {rest : List Char}
    {tokens : List Token} (delimited : Delimited rest) (after : Lexes rest tokens) :
    Lexes (written (Expr.layoutArgs detail args) ++ rest) (Expr.argTokens args ++ tokens) := by
  cases args with
  | nil => exact after
  | cons e more =>
    obtain ⟨first, others⟩ := spelled.append
    have following := Expr.lexesArgs more others delimited after
    have next : Delimited (written (Expr.layoutArgs detail more) ++ rest) :=
      delimited_args delimited
    simp only [Expr.layoutArgs, Expr.argTokens, List.cons_append, written_space]
    apply Lexes.space
    -- In parentheses the expression ends at the closing one, else where the next argument may start.
    by_cases wrapped : (e.isCall && !more.isEmpty) = true
    · have closed := Lexes.mark (c := ')') rfl following
      have inside := Expr.lexes e first (delimited_cons (by decide) (by decide)) closed
      simpa [wrapped] using Lexes.mark (c := '(') rfl inside
    · simpa [wrapped] using Expr.lexes e first next following

end

mutual

theorem Block.lexes (block : Block) (spelled : Spelled block.variables block.words) (level : Nat)
    {rest : List Char} {tokens : List Token} (after : Lexes rest tokens) :
    Lexes (written (block.layout detail level) ++ rest) (block.tokens ++ tokens) := by
  match block with
  -- An empty block is written on one line.
  | .mk [] slots =>
    have closed : Lexes ('\x7d' :: rest) (.closeBrace :: tokens) := .mark rfl after
    simpa [Block.layout, Block.tokens, Stmt.tokensAll] using Lexes.mark (c := '\x7b') rfl closed
  | .mk (s :: more) slots =>
    have closed : Lexes ('\x7d' :: rest) (.closeBrace :: tokens) := .mark rfl after
    have inside := Stmt.lexesAll (s :: more) spelled (level + 1) (closed.newLine level)
    simpa [Block.layout, Block.tokens] using Lexes.mark (c := '\x7b') rfl inside

theorem Stmt.lexesAll (stmts : List Stmt)
    (spelled : Spelled (Stmt.variablesAll stmts) (Stmt.wordsAll stmts)) (level : Nat)
    {rest : List Char} {tokens : List Token} (after : Lexes rest tokens) :
    Lexes (written (Stmt.layoutAll detail level stmts) ++ rest)
      (Stmt.tokensAll stmts ++ tokens) := by
  cases stmts with
  | nil => exact after
  | cons s more =>
    obtain ⟨first, others⟩ := spelled.append
    have following := Stmt.lexesAll more others level after
    have here := Stmt.lexes s first level following
    simpa [Stmt.layoutAll, Stmt.tokensAll] using here.newLine level

theorem Stmt.lexes (s : Stmt) (spelled : Spelled s.variables s.words) (level : Nat)
    {rest : List Char} {tokens : List Token} (after : Lexes rest tokens) :
    Lexes (written (s.layout detail level) ++ rest) (s.tokens ++ tokens) := by
  match s with
  | .cond condition thenBlock none =>
    obtain ⟨choice, whenTrue⟩ := spelled.append
    have branch := Block.lexes thenBlock whenTrue level after
    have chosen := Expr.lexes detail condition choice delimited_space branch.space
    have keyword : Lexes ("cond".toList ++ _) (.condWord :: _) :=
      .keyword (by decide) (by decide) delimited_space chosen.space
    simpa [Stmt.layout, Stmt.tokens] using keyword
  | .cond condition thenBlock (some elseBlock) =>
    obtain ⟨both, whenFalse⟩ := spelled.append
    obtain ⟨choice, whenTrue⟩ := both.append
    have second := Block.lexes elseBlock whenFalse level after
    have otherwise : Lexes ("else".toList ++ _) (.elseWord :: _) :=
      .keyword (by decide) (by decide) delimited_space second.space
    have first := Block.lexes thenBlock whenTrue level otherwise.space
    have chosen := Expr.lexes detail condition choice delimited_space first.space
    have keyword : Lexes ("cond".toList ++ _) (.condWord :: _) :=
      .keyword (by decide) (by decide) delimited_space chosen.space
    simpa [Stmt.layout, Stmt.tokens] using keyword
  | .loop none body span =>
    have repeated := Block.lexes body spelled level after
    have keyword : Lexes ("loop".toList ++ _) (.loopWord :: _) :=
      .keyword (by decide) (by decide) delimited_space repeated.space
    simpa [Stmt.layout, Stmt.tokens] using keyword
  | .loop (some label) body span =>
    have named := spelled.words label List.mem_cons_self
    have repeated := Block.lexes body spelled.laterWords level after
    have labelled := Lexes.word named delimited_space repeated.space
    have keyword : Lexes ("loop".toList ++ _) (.loopWord :: _) :=
      .keyword (by decide) (by decide) delimited_space labelled.space
    simpa [Stmt.layout, Stmt.tokens] using keyword
  | .leave none span =>
    have ended : Lexes (';' :: rest) (.semicolon :: tokens) := .mark rfl after
    have keyword : Lexes ("break".toList ++ _) (.breakWord :: _) :=
      .keyword (by decide) (by decide) (delimited_cons (by decide) (by decide)) ended
    simpa [Stmt.layout, Stmt.tokens] using keyword
  | .leave (some label) span =>
    have named := spelled.words label List.mem_cons_self
    have ended : Lexes (';' :: rest) (.semicolon :: tokens) := .mark rfl after
    have labelled := Lexes.word named (delimited_cons (by decide) (by decide)) ended
    have keyword : Lexes ("break".toList ++ _) (.breakWord :: _) :=
      .keyword (by decide) (by decide) delimited_space labelled.space
    simpa [Stmt.layout, Stmt.tokens] using keyword
  | .call none name args span =>
    have named := spelled.words name List.mem_cons_self
    have ended : Lexes (';' :: rest) (.semicolon :: tokens) := .mark rfl after
    have closing : Delimited (';' :: rest) := delimited_cons (by decide) (by decide)
    have following := Expr.lexesArgs detail args spelled.laterWords closing ended
    simpa [Stmt.layout, Stmt.tokens] using Lexes.word named (delimited_args closing) following
  | .call (some v) name args span =>
    have result := spelled.vars v List.mem_cons_self
    have named := spelled.words name List.mem_cons_self
    have inside := spelled.laterWords.laterVars
    have ended : Lexes (';' :: rest) (.semicolon :: tokens) := .mark rfl after
    have closing : Delimited (';' :: rest) := delimited_cons (by decide) (by decide)
    have following := Expr.lexesArgs detail args inside closing ended
    have called := Lexes.word named (delimited_args closing) following
    have assigned := Lexes.mark (c := '=') rfl called.space
    have target : Lexes ((v.written detail).toList ++ _) _ :=
      .written result delimited_space assigned.space
    simpa [Stmt.layout, Stmt.tokens] using target
  | .block inner => exact Block.lexes inner spelled level after

end

/-- The written form of a tree is cut into its tokens. -/
theorem Block.lexes_format (root : Block) (spelled : Spelled root.variables root.words) :
    Lexes (root.format detail).toList root.tokens := by
  have ended : Lexes ['\n'] [] := lexes_nil.newLine 0
  have whole := Block.lexes detail root spelled 0 ended
  rw [Block.toList_format]
  simpa using whole

end

end LoopTape
