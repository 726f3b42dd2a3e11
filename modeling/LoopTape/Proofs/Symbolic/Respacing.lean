import LoopTape.Proofs.Diagnostic.Pointing
import LoopTape.Proofs.Json.Lossless
import LoopTape.Proofs.Symbolic.Displaced
import LoopTape.Proofs.Token.Spacing

/-! Layout does not matter.

With more blanks and comments between its tokens a source has the same tokens, so it is read as the same
tree, and has the same tape or fails for the same reason. Only the places are others: each stop or start of
a span moves with the token that stops or starts there.
-/

set_option autoImplicit false

namespace LoopTape

/-- Where starts and stops go when `size` bytes are put in at `place`. What starts there is behind them,
and what stops there is in front. -/
def Motion.insertion (place size : Nat) : Motion where
  start offset := if place ≤ offset then offset + size else offset
  stop offset := if place < offset then offset + size else offset
  monotone_start := by
    intro a b le
    dsimp only
    split <;> split <;> omega
  monotone_stop := by
    intro a b le
    dsimp only
    split <;> split <;> omega

theorem Motion.insertion_stop_zero (place size : Nat) : (insertion place size).stop 0 = 0 := by
  simp [insertion]

theorem Motion.le_insertion_stop (place size offset : Nat) : offset ≤ (insertion place size).stop offset := by
  simp only [insertion]
  split <;> omega

theorem Motion.insertion_ne_unknown {span : Span} (ordered : span.start ≤ span.stop)
    (known : span ≠ .unknown) (place size : Nat) : (insertion place size).span span ≠ .unknown := by
  intro none
  have stop : (insertion place size).stop span.stop = 0 := congrArg Span.stop none
  have stopsAtZero : span.stop = 0 := Nat.le_zero.mp (stop ▸ le_insertion_stop place size span.stop)
  have startsAtZero : span.start = 0 := Nat.le_zero.mp (stopsAtZero ▸ ordered)
  cases span with
  | mk start stop => exact known (congr (congrArg Span.mk startsAtZero) stopsAtZero)

theorem Placed.insert_eq_move {place size : Nat} {p : Placed} (wide : p.span.start < p.span.stop)
    (apart : p.span.stop ≤ place ∨ place ≤ p.span.start) :
    p.insert place size = p.move (.insertion place size) := by
  rw [insert, move, Motion.span]
  rcases apart with before | behind
  · have start : ¬place ≤ p.span.start := by omega
    have stop : ¬place < p.span.stop := by omega
    simp only [Motion.insertion, if_neg start, if_neg stop]
  · have stop : place < p.span.stop := by omega
    simp only [Motion.insertion, if_pos behind, if_pos stop]
    rfl

/-- A place where one token starts or stops is inside of none. -/
theorem Ordered.apart_of_boundary {placed : List Placed} (ordered : Ordered placed) {place : Nat}
    {p : Placed} (member : p ∈ placed) (boundary : place = p.span.start ∨ place = p.span.stop) :
    ∀ q ∈ placed, q.span.stop ≤ place ∨ place ≤ q.span.start := by
  have wide := ordered.wide p member
  obtain ⟨front, back, rfl⟩ := List.append_of_mem member
  obtain ⟨-, behind, before⟩ := ordered.of_append
  intro q inPlaced
  rcases List.mem_append.mp inPlaced with inFront | fromHere
  · have stop := before q inFront p List.mem_cons_self
    omega
  · rcases List.mem_cons.mp fromHere with rfl | inBack
    · rcases boundary with start | stop
      · exact .inr (Nat.le_of_eq start)
      · exact .inl (Nat.le_of_eq stop.symm)
    · have start := (List.pairwise_cons.mp behind.apart).1 q inBack
      omega

def Failure.move (m : Motion) : Failure → Failure
  | .lex e => .lex { e with position := m.start e.position }
  | .parse e => .parse (e.move m)
  | .compile e => .compile (e.displace m.span)
  | .run e => .run e

/-- Two lists of the same tokens are read as the same tree but for its spans. -/
theorem parse_bare_congr {a b : List Placed} (same : a.map Placed.token = b.map Placed.token)
    {block other : Block} (first : parse a = .ok block) (second : parse b = .ok other) :
    other.relabel .bare = block.relabel .bare := by
  have canonical := (Block.grouped_eq_iff block).mp (Block.grouped_of_parse first)
  obtain ⟨whole, again, bare⟩ := Block.parse_of_yield canonical ((Block.yield_of_parse first).trans same)
  cases second.symm.trans again
  exact bare

section

variable {source : String} {placed : List Placed} {root : Block}

theorem Block.sites_known (lexed : lex source = .ok placed) (parsed : parse placed = .ok root)
    (place size : Nat) : ∀ site ∈ root.sites [], site.Known (Motion.insertion place size).span := by
  intro site member
  have stands := Block.sites_standIn root [] site member
  cases site with
  | loop | leave => trivial
  | value e context =>
    intro name args span call
    obtain ⟨s, statement, own⟩ := stands
    have node := Block.mem_nodes statement (own (Expr.mem_nodes_of_stripped e call))
    obtain ⟨covers, known⟩ := Block.nodes_cover lexed (Block.readFrom_of_parse parsed) _ node
    obtain ⟨text, covers⟩ := covers.text
    exact ⟨known, Motion.insertion_ne_unknown covers.bounds.1 known place size⟩

/-- The tree of moved tokens has the same tape, or its first fault is the same. -/
theorem Block.compile_moved (lexed : lex source = .ok placed) (parsed : parse placed = .ok root)
    (place size : Nat) :
    (root.relabel (Motion.insertion place size).relabelling).compile =
      root.compile.mapError (·.displace (Motion.insertion place size).span) := by
  cases compiled : root.compile with
  | error e => exact Block.compile_displaced (Block.sites_known lexed parsed place size) compiled
  | ok tape =>
    have again := parse_move (Motion.insertion_stop_zero place size) placed
    rw [parsed] at again
    have tokens : placed.map Placed.token =
        (placed.map (Placed.move (.insertion place size))).map Placed.token := by
      rw [List.map_map]
      rfl
    have bare := parse_bare_congr tokens parsed again
    have same := (Block.compile_bare _).symm.trans ((congrArg (unplaced ·.compile) bare).trans
      (Block.compile_bare root))
    exact eq_ok_of_unplaced same.symm compiled

end

theorem Placed.Stands.exists_split {source : String} {p : Placed} (stands : p.Stands source.toList)
    {place : Nat} (boundary : place = p.span.start ∨ place = p.span.stop) :
    ∃ before after, source = before ++ after ∧ before.utf8ByteSize = place := by
  obtain ⟨before, lexeme, after, split, span, -⟩ := stands
  rw [span] at boundary
  rcases boundary with rfl | rfl
  · refine ⟨.ofList before, .ofList (lexeme ++ after), String.toList_injective ?_,
      (byteLength_eq_utf8ByteSize before).symm⟩
    simpa using split
  · refine ⟨.ofList (before ++ lexeme), .ofList after, String.toList_injective ?_,
      (byteLength_eq_utf8ByteSize (before ++ lexeme)).symm⟩
    simpa using split

section

variable {before inserted after : String} {placed : List Placed} {p : Placed}

theorem lex_respaced (lexed : lex (before ++ after) = .ok placed) (spacing : Spacing inserted.toList)
    (member : p ∈ placed)
    (boundary : before.utf8ByteSize = p.span.start ∨ before.utf8ByteSize = p.span.stop) :
    lex (before ++ inserted ++ after) =
      .ok (placed.map (·.insert before.utf8ByteSize inserted.utf8ByteSize)) := by
  have tiling : Tiling 0 (before ++ after).toList placed := tiling_of_lexFrom lexed
  have split : (before ++ inserted ++ after).toList =
      before.toList ++ (inserted.toList ++ after.toList) := by
    rw [String.toList_append, String.toList_append, List.append_assoc]
  have place : before.utf8ByteSize = 0 + byteLength before.toList := by
    rw [Nat.zero_add, byteLength_eq_utf8ByteSize, String.ofList_toList]
  have size : inserted.utf8ByteSize = byteLength inserted.toList := by
    rw [byteLength_eq_utf8ByteSize, String.ofList_toList]
  rw [lex, split, size]
  exact lexFrom_of_tiling (tiling.insert spacing String.toList_append place member boundary)

theorem insert_eq_move_of_boundary {source : String} (lexed : lex source = .ok placed)
    (member : p ∈ placed) {place : Nat} (boundary : place = p.span.start ∨ place = p.span.stop)
    (size : Nat) : ∀ q ∈ placed, q.insert place size = q.move (.insertion place size) := by
  have ordered : Ordered placed := Tiling.inOrder (tiling_of_lexFrom lexed)
  intro q inPlaced
  exact Placed.insert_eq_move (ordered.wide q inPlaced) (ordered.apart_of_boundary member boundary q inPlaced)

end

/-- Sources with the same tokens, but for a motion of them, are read as the same tree. -/
theorem parseSource_moved {source other : String} {placed : List Placed} {m : Motion}
    (fixed : m.stop 0 = 0) (lexed : lex source = .ok placed)
    (moved : lex other = .ok (placed.map (Placed.move m))) :
    parseSource other = ((parseSource source).map (·.relabel m.relabelling)).mapError (Failure.move m) := by
  rw [parseSource, parseSource, lexed, moved]
  show (parse (placed.map (Placed.move m))).mapError Failure.parse =
    (((parse placed).mapError Failure.parse).map _).mapError _
  rw [parse_move fixed]
  cases parse placed <;> rfl

theorem compileSource_moved {source other : String} {placed : List Placed} {place size : Nat}
    (lexed : lex source = .ok placed)
    (moved : lex other = .ok (placed.map (Placed.move (.insertion place size)))) :
    compileSource other = (compileSource source).mapError (Failure.move (.insertion place size)) := by
  have read := parseSource_moved (Motion.insertion_stop_zero place size) lexed moved
  rw [compileSource, compileSource, read]
  cases parsed : parseSource source with
  | error e => rfl
  | ok root =>
    have own : parse placed = .ok root := by
      rw [parseSource, lexed] at parsed
      exact Except.mapError_eq_ok.mp parsed
    show (root.relabel (Motion.insertion place size).relabelling).compile.mapError Failure.compile =
      (root.compile.mapError Failure.compile).mapError _
    rw [Block.compile_moved lexed own]
    cases root.compile <;> rfl

/-- Blanks and comments where a token starts or stops move the tokens behind them and change nothing
else. The tree has the same words, with its spans moved like the tokens. The tape is the same, or compiling
fails at the same stage for the same reason, and the token or construct at fault is the one that was moved. -/
theorem compileSource_respaced {source inserted : String} {placed : List Placed}
    (lexed : lex source = .ok placed) (spacing : Spacing inserted.toList) {p : Placed}
    (member : p ∈ placed) {place : Nat} (boundary : place = p.span.start ∨ place = p.span.stop) :
    (∃ before after, source = before ++ after ∧ before.utf8ByteSize = place) ∧
    (∀ q ∈ placed,
      q.insert place inserted.utf8ByteSize = q.move (.insertion place inserted.utf8ByteSize)) ∧
    ∀ before after, source = before ++ after → before.utf8ByteSize = place →
      lex (before ++ inserted ++ after) = .ok (placed.map (·.insert place inserted.utf8ByteSize)) ∧
      parseSource (before ++ inserted ++ after) =
        ((parseSource source).map
          (·.relabel (Motion.insertion place inserted.utf8ByteSize).relabelling)).mapError
          (Failure.move (.insertion place inserted.utf8ByteSize)) ∧
      compileSource (before ++ inserted ++ after) =
        (compileSource source).mapError (Failure.move (.insertion place inserted.utf8ByteSize)) := by
  have tiling : Tiling 0 source.toList placed := tiling_of_lexFrom lexed
  have moves := insert_eq_move_of_boundary lexed member boundary inserted.utf8ByteSize
  refine ⟨(Tiling.stands [] tiling p member).exists_split boundary, moves, ?_⟩
  rintro before after rfl rfl
  have respaced := lex_respaced lexed spacing member boundary
  have moved := respaced.trans (congrArg Except.ok (List.map_congr_left moves))
  exact ⟨respaced, parseSource_moved (Motion.insertion_stop_zero _ _) lexed moved,
    compileSource_moved lexed moved⟩

def strayBreak : List Placed :=
  [⟨.openBrace, ⟨0, 1⟩⟩, ⟨.loopWord, ⟨1, 5⟩⟩, ⟨.identifier "l", ⟨6, 7⟩⟩, ⟨.openBrace, ⟨8, 9⟩⟩,
    ⟨.breakWord, ⟨9, 14⟩⟩, ⟨.identifier "m", ⟨15, 16⟩⟩, ⟨.semicolon, ⟨16, 17⟩⟩,
    ⟨.closeBrace, ⟨17, 18⟩⟩, ⟨.closeBrace, ⟨18, 19⟩⟩]

theorem strayBreak_respaced :
    compileSource ("\x7bloop l \x7b" ++ "// \x7b\n" ++ "break m;\x7d\x7d") =
      .error (.compile (.unknownLoopLabel "m" ⟨14, 22⟩)) := by
  have lexed : lex "\x7bloop l \x7bbreak m;\x7d\x7d" = .ok strayBreak := by decide +kernel
  have member : ⟨.breakWord, ⟨9, 14⟩⟩ ∈ strayBreak := by decide
  have spacing : Spacing "// \x7b\n".toList :=
    show Spacing ('/' :: '/' :: ([' ', '\x7b'] ++ ['\n'])) from .comment (by simp) .nil
  have refused : compileSource "\x7bloop l \x7bbreak m;\x7d\x7d" =
      .error (.compile (.unknownLoopLabel "m" ⟨9, 17⟩)) := by decide +kernel
  obtain ⟨-, -, alike⟩ := compileSource_respaced lexed spacing member (.inl rfl)
  obtain ⟨-, -, moved⟩ := alike "\x7bloop l \x7b" "break m;\x7d\x7d" (by decide) (by decide)
  rw [refused] at moved
  exact moved

end LoopTape
