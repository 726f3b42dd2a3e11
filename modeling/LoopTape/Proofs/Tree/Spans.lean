import LoopTape.Pipeline
import LoopTape.Proofs.Result
import LoopTape.Proofs.Tree.Origin

/-! Spans are where the constructs stand in the source.

The tokens of a text stand one behind the other, and the parts of a tree that was read share them
out. So the span of a call, a loop or a break is a piece of the text whose tokens are those of the
construct alone, spans in arguments lie inside that of their call, and what was written later stands
behind.
-/

set_option autoImplicit false

namespace LoopTape

inductive Node where
  | call (name : String) (args : List Expr) (span : Span)
  | loop (label : Option String) (span : Span)
  | leave (label : Option String) (span : Span)

namespace Node

def span : Node → Span
  | .call _ _ span | .loop _ span | .leave _ span => span

/-- The construct was read from the tokens; of a loop that is the head. -/
inductive ReadFrom : Node → List Placed → Prop
  | call {name : String} {args : List Expr} {span : Span} {placed : List Placed}
    (called : (Expr.call name args span).ReadFrom placed) : ReadFrom (.call name args span) placed
  | loop {label : Option String} {span : Span} {placed : List Placed}
    (head : LoopHead label span placed) : ReadFrom (.loop label span) placed
  | leave {label : Option String} {span : Span} {placed : List Placed}
    (leaving : Leaving label span placed) : ReadFrom (.leave label span) placed

end Node

mutual

def Expr.nodes : Expr → List Node
  | .variable _ => []
  | .paren inner => inner.nodes
  | .call name args span => .call name args span :: Expr.nodesAll args

def Expr.nodesAll : List Expr → List Node
  | [] => []
  | e :: rest => e.nodes ++ Expr.nodesAll rest

end

def Stmt.ownNodes : Stmt → List Node
  | .cond condition _ _ => condition.nodes
  | .loop label _ span => [.loop label span]
  | .leave label span => [.leave label span]
  | .call _ name args span => .call name args span :: Expr.nodesAll args
  | .block _ => []

mutual

/-- The statements of a block, those of nested blocks included. -/
def Block.statements : Block → List Stmt
  | .mk stmts _ => Stmt.statementsAll stmts

def Stmt.statementsAll : List Stmt → List Stmt
  | [] => []
  | s :: rest => s.statements ++ Stmt.statementsAll rest

def Stmt.statements : Stmt → List Stmt
  | .cond condition thenBlock none => .cond condition thenBlock none :: thenBlock.statements
  | .cond condition thenBlock (some elseBlock) =>
    .cond condition thenBlock (some elseBlock) :: thenBlock.statements ++ elseBlock.statements
  | .loop label body span => .loop label body span :: body.statements
  | .leave label span => [.leave label span]
  | .call result name args span => [.call result name args span]
  | .block inner => .block inner :: inner.statements

end

def Block.nodes (block : Block) : List Node := block.statements.flatMap Stmt.ownNodes

structure Ordered (placed : List Placed) : Prop where
  apart : placed.Pairwise (fun a b => a.span.stop ≤ b.span.start)
  wide : ∀ p ∈ placed, p.span.start < p.span.stop

theorem Tiling.inOrder {offset : Nat} {text : List Char} {placed : List Placed}
    (tiling : Tiling offset text placed) : Ordered placed where
  apart := tiling.ordered
  wide := tiling.start_lt_stop

theorem Ordered.sublist {piece placed : List Placed} (ordered : Ordered placed)
    (part : piece.Sublist placed) : Ordered piece where
  apart := ordered.apart.sublist part
  wide := fun p member => ordered.wide p (part.subset member)

theorem Ordered.of_append {front back : List Placed} (ordered : Ordered (front ++ back)) :
    Ordered front ∧ Ordered back ∧ ∀ p ∈ front, ∀ q ∈ back, p.span.stop ≤ q.span.start :=
  ⟨ordered.sublist (List.sublist_append_left front back),
    ordered.sublist (List.sublist_append_right front back),
    (List.pairwise_append.mp ordered.apart).2.2⟩

theorem Ordered.stop_le_lastStop {placed : List Placed} (ordered : Ordered placed) (start : Nat) :
    ∀ p ∈ placed, p.span.stop ≤ lastStop start placed := by
  induction placed generalizing start with
  | nil => exact fun _ member => nomatch member
  | cons first rest ih =>
    have split : Ordered ([first] ++ rest) := ordered
    obtain ⟨-, restOrdered, behind⟩ := split.of_append
    have later : ∀ p ∈ rest, p.span.stop ≤ lastStop first.span.stop rest :=
      ih restOrdered first.span.stop
    rw [lastStop_cons]
    intro p member
    rcases List.mem_cons.mp member with rfl | inRest
    · cases rest with
      | nil => exact Nat.le_refl _
      | cons next more =>
        calc p.span.stop
            ≤ next.span.start := behind p List.mem_cons_self next List.mem_cons_self
          _ ≤ next.span.stop := Nat.le_of_lt (restOrdered.wide next List.mem_cons_self)
          _ ≤ lastStop p.span.stop (next :: more) := later next List.mem_cons_self
    · exact later p inRest

theorem Ordered.merge_eq {p q : Placed} (between : List Placed)
    (ordered : Ordered (p :: between ++ [q])) :
    p.span.merge q.span = ⟨p.span.start, q.span.stop⟩ := by
  obtain ⟨-, -, behind⟩ := ordered.of_append
  have apart := behind p List.mem_cons_self q List.mem_cons_self
  have first := ordered.wide p (by simp)
  have last := ordered.wide q (by simp)
  rw [Span.merge, Nat.min_eq_left (by omega), Nat.max_eq_right (by omega)]

def Span.Ends (span : Span) (piece : List Placed) : Prop :=
  piece.head?.map (·.span.start) = some span.start ∧
    piece.getLast?.map (·.span.stop) = some span.stop

theorem lastStop_ends (p : Placed) (rest : List Placed) :
    Span.Ends ⟨p.span.start, lastStop p.span.stop rest⟩ (p :: rest) := by
  refine ⟨rfl, ?_⟩
  cases rest with
  | nil => rfl
  | cons next more => simp [lastStop, List.getLast?_cons]

theorem Node.ReadFrom.extent {node : Node} {piece : List Placed} (read : node.ReadFrom piece)
    (ordered : Ordered piece) :
    ∃ first rest, piece = first :: rest ∧
      node.span = ⟨first.span.start, lastStop first.span.stop rest⟩ := by
  cases read with
  | call called =>
    cases called
    exact ⟨_, _, rfl, rfl⟩
  | loop head => cases head <;> exact ⟨_, _, rfl, rfl⟩
  | leave leaving =>
    cases leaving with
    | plain a b => exact ⟨_, _, rfl, ordered.merge_eq []⟩
    | labelled label a b c => exact ⟨_, _, rfl, ordered.merge_eq [⟨.identifier label, b⟩]⟩

theorem Node.ReadFrom.ends {node : Node} {piece : List Placed} (read : node.ReadFrom piece)
    (ordered : Ordered piece) : node.span.Ends piece := by
  obtain ⟨first, rest, rfl, span⟩ := read.extent ordered
  rw [span]
  exact lastStop_ends first rest

theorem Span.Ends.mem {span : Span} {piece : List Placed} (ends : span.Ends piece) :
    (∃ p ∈ piece, span.start = p.span.start) ∧ ∃ p ∈ piece, span.stop = p.span.stop := by
  obtain ⟨starts, stops⟩ := ends
  obtain ⟨first, isFirst, start⟩ := Option.map_eq_some_iff.mp starts
  obtain ⟨last, isLast, stop⟩ := Option.map_eq_some_iff.mp stops
  exact ⟨⟨first, List.mem_of_head? isFirst, start.symm⟩,
    ⟨last, List.mem_of_getLast? isLast, stop.symm⟩⟩

/-- All of the constructs were read from some of the tokens. -/
def Within (nodes : List Node) (placed : List Placed) : Prop :=
  ∀ node ∈ nodes, ∃ piece, piece <:+: placed ∧ node.ReadFrom piece

theorem Within.nil (placed : List Placed) : Within [] placed := fun _ member => nomatch member

theorem Within.cons {node : Node} {nodes : List Node} {placed : List Placed}
    (read : node.ReadFrom placed) (more : Within nodes placed) : Within (node :: nodes) placed :=
  List.forall_mem_cons.mpr ⟨⟨placed, List.infix_rfl, read⟩, more⟩

theorem Within.widen {nodes : List Node} {part placed : List Placed} (within : Within nodes part)
    (inside : part <:+: placed) : Within nodes placed := by
  intro node member
  obtain ⟨piece, here, read⟩ := within node member
  exact ⟨piece, here.trans inside, read⟩

theorem Within.append {ms ns : List Node} {front back : List Placed} (first : Within ms front)
    (second : Within ns back) : Within (ms ++ ns) (front ++ back) := by
  intro node member
  rcases List.mem_append.mp member with inFirst | inSecond
  · exact first.widen (List.prefix_append front back).isInfix node inFirst
  · exact second.widen (List.suffix_append front back).isInfix node inSecond

theorem Within.bounds {nodes : List Node} {placed : List Placed} (within : Within nodes placed)
    (ordered : Ordered placed) {node : Node} (member : node ∈ nodes) :
    (∃ p ∈ placed, node.span.start = p.span.start) ∧ ∃ p ∈ placed, node.span.stop = p.span.stop := by
  obtain ⟨piece, here, read⟩ := within node member
  obtain ⟨⟨p, pHere, start⟩, ⟨q, qHere, stop⟩⟩ := (read.ends (ordered.sublist here.sublist)).mem
  exact ⟨⟨p, here.subset pHere, start⟩, ⟨q, here.subset qHere, stop⟩⟩

theorem Within.before {ms ns : List Node} {front back : List Placed} (first : Within ms front)
    (second : Within ns back) (ordered : Ordered (front ++ back)) :
    ∀ m ∈ ms, ∀ n ∈ ns, m.span.stop ≤ n.span.start := by
  intro m inFirst n inSecond
  obtain ⟨frontOrdered, backOrdered, apart⟩ := ordered.of_append
  obtain ⟨-, p, inFront, stop⟩ := first.bounds frontOrdered inFirst
  obtain ⟨⟨q, inBack, start⟩, -⟩ := second.bounds backOrdered inSecond
  rw [stop, start]
  exact apart p inFront q inBack

mutual

theorem Expr.nodes_within (e : Expr) {placed : List Placed} (read : e.ReadFrom placed) :
    Within e.nodes placed := by
  cases e with
  | «variable» v => exact .nil placed
  | paren inner =>
    cases read with
    | @paren _ placed a b read =>
      exact (Expr.nodes_within inner read).widen ⟨[⟨.openParen, a⟩], [⟨.closeParen, b⟩], rfl⟩
  | call name args span =>
    have whole := Node.ReadFrom.call read
    cases read with
    | call name a all =>
      exact .cons whole ((Expr.nodesAll_within args all).widen (List.suffix_cons _ _).isInfix)

theorem Expr.nodesAll_within (args : List Expr) {placed : List Placed}
    (read : Expr.ReadAllFrom args placed) : Within (Expr.nodesAll args) placed := by
  cases args with
  | nil => exact .nil placed
  | cons e rest =>
    cases read with
    | cons first more =>
      exact (Expr.nodes_within e first).append (Expr.nodesAll_within rest more)

end

/-- The parts were read one behind the other, each from tokens of its own. -/
inductive Spread {α : Type} (nodes : α → List Node) : List α → List Placed → Prop
  | nil : Spread nodes [] []
  | skip {parts : List α} {placed : List Placed} (p : Placed) (more : Spread nodes parts placed) :
    Spread nodes parts (p :: placed)
  | part {x : α} {parts : List α} {own placed : List Placed} (within : Within (nodes x) own)
    (more : Spread nodes parts placed) : Spread nodes (x :: parts) (own ++ placed)

namespace Spread

variable {α : Type} {nodes : α → List Node} {xs ys : List α} {placed front back : List Placed}

theorem none (placed : List Placed) : Spread nodes [] placed := by
  induction placed with
  | nil => exact .nil
  | cons p rest ih => exact .skip p ih

theorem single {x : α} (within : Within (nodes x) placed) : Spread nodes [x] placed := by
  have only := part within .nil
  rwa [List.append_nil] at only

theorem append (first : Spread nodes xs front) (second : Spread nodes ys back) :
    Spread nodes (xs ++ ys) (front ++ back) := by
  induction first with
  | nil => exact second
  | skip p _ ih => exact .skip p ih
  | part within _ ih =>
    rw [List.append_assoc]
    exact .part within ih

theorem within (spread : Spread nodes xs placed) : Within (xs.flatMap nodes) placed := by
  induction spread with
  | nil => exact .nil []
  | @skip parts placed p _ ih => exact ih.widen (List.suffix_cons p placed).isInfix
  | part within _ ih => exact within.append ih

/-- What was read later stands behind. -/
theorem apart (spread : Spread nodes xs placed) (ordered : Ordered placed) :
    xs.Pairwise (fun x y => ∀ m ∈ nodes x, ∀ n ∈ nodes y, m.span.stop ≤ n.span.start) := by
  induction spread with
  | nil => exact .nil
  | @skip parts placed p _ ih => exact ih (ordered.sublist (List.sublist_cons_self p placed))
  | @part x parts own placed within more ih =>
    obtain ⟨-, behind, -⟩ := ordered.of_append
    refine .cons ?_ (ih behind)
    intro y inParts m inOwn n inY
    exact within.before more.within ordered m inOwn n (List.mem_flatMap.mpr ⟨y, inParts, inY⟩)

end Spread

theorem Expr.ReadAllFrom.spread {args : List Expr} {placed : List Placed}
    (read : Expr.ReadAllFrom args placed) : Spread Expr.nodes args placed := by
  induction args generalizing placed with
  | nil =>
    cases read
    exact .nil
  | cons e rest ih =>
    cases read with
    | cons first more => exact .part (Expr.nodes_within e first) (ih more)

mutual

theorem Block.spread (block : Block) {placed : List Placed} (read : block.ReadFrom placed) :
    Spread Stmt.ownNodes block.statements placed := by
  cases block with
  | mk stmts slots =>
    cases read with
    | unscoped a b all =>
      have inside := (Stmt.spreadAll stmts all).append (.none [⟨.closeBrace, b⟩])
      rw [List.append_nil] at inside
      exact .skip ⟨.openBrace, a⟩ inside

theorem Stmt.spreadAll (stmts : List Stmt) {placed : List Placed}
    (read : Stmt.ReadAllFrom stmts placed) :
    Spread Stmt.ownNodes (Stmt.statementsAll stmts) placed := by
  cases stmts with
  | nil => exact .none placed
  | cons s rest =>
    cases read with
    | cons first more => exact (Stmt.spread s first).append (Stmt.spreadAll rest more)

theorem Stmt.spread (s : Stmt) {placed : List Placed} (read : s.ReadFrom placed) :
    Spread Stmt.ownNodes s.statements placed := by
  cases read with
  | @cond condition thenBlock choice chosen a decides first =>
    have own : Within (Stmt.cond condition thenBlock none).ownNodes (⟨.condWord, a⟩ :: choice) :=
      (Expr.nodes_within condition decides).widen (List.suffix_cons _ choice).isInfix
    exact .part own (Block.spread thenBlock first)
  | @condElse condition thenBlock elseBlock choice chosen other a b decides first second =>
    have own : Within (Stmt.cond condition thenBlock (some elseBlock)).ownNodes
        (⟨.condWord, a⟩ :: choice) :=
      (Expr.nodes_within condition decides).widen (List.suffix_cons _ choice).isInfix
    have chosen := Spread.part own (Block.spread thenBlock first)
    exact chosen.append (.skip ⟨.elseWord, b⟩ (Block.spread elseBlock second))
  | @loop label span body front repeated head repeats =>
    have own : Within (Stmt.loop label body span).ownNodes front := .cons (.loop head) (.nil front)
    exact .part own (Block.spread body repeats)
  | leave leaving => exact .single (.cons (.leave leaving) (.nil placed))
  | @call result name args span front own b assigning called =>
    have inside := Expr.nodes_within (.call name args span) called
    exact .single (inside.widen ⟨front, [⟨.semicolon, b⟩], rfl⟩)
  | @block inner placed read =>
    have own : Within (Stmt.block inner).ownNodes [] := .nil []
    exact .part own (Block.spread inner read)

end

/-- The construct is where its span says: it was read from tokens that start and stop where the span
does, and the text in between has these tokens, counted from there. -/
def Node.Covers (node : Node) (source : String) (placed : List Placed) : Prop :=
  ∃ piece before text after own, piece <:+: placed ∧ node.ReadFrom piece ∧ node.span.Ends piece ∧
    source.toList = before ++ (text ++ after) ∧
    node.span = ⟨byteLength before, byteLength (before ++ text)⟩ ∧
    lex (String.ofList text) = .ok own ∧ own.map (·.shift node.span.start) = piece

theorem Within.covers {nodes : List Node} {source : String} {placed : List Placed}
    (within : Within nodes placed) (tiling : Tiling 0 source.toList placed) :
    ∀ node ∈ nodes, node.Covers source placed := by
  intro node member
  obtain ⟨piece, here, read⟩ := within node member
  have ordered := tiling.inOrder.sublist here.sublist
  have ends := read.ends ordered
  obtain ⟨first, rest, rfl, span⟩ := read.extent ordered
  -- The text of the piece is cut out, and its tokens are counted from where it starts.
  obtain ⟨front, back, whole⟩ := here
  rw [← whole, List.append_assoc] at tiling
  obtain ⟨before, text, after, split, start, stop, alone⟩ := tiling.slice
  rw [← Nat.zero_add first.span.start] at alone
  obtain ⟨own, lexed, shifted⟩ := alone.unshift
  refine ⟨first :: rest, before, text, after, own, ⟨front, back, whole⟩, read, ends, split,
    ?_, ?_, ?_⟩
  · rw [span, start, stop, Nat.zero_add, Nat.zero_add]
  · rw [lex, String.toList_ofList]
    exact lexFrom_of_tiling lexed
  · rw [span]
    exact shifted.symm

theorem Within.ne_unknown {nodes : List Node} {placed : List Placed} (within : Within nodes placed)
    (ordered : Ordered placed) : ∀ node ∈ nodes, node.span ≠ .unknown := by
  intro node member unknown
  obtain ⟨piece, here, read⟩ := within node member
  have pieceOrdered := ordered.sublist here.sublist
  obtain ⟨first, rest, rfl, span⟩ := read.extent pieceOrdered
  have wide := pieceOrdered.wide first List.mem_cons_self
  have ends := pieceOrdered.stop_le_lastStop 0 first List.mem_cons_self
  rw [lastStop_cons] at ends
  obtain ⟨start, stop⟩ := Span.mk.inj (span.symm.trans unknown)
  omega

/-- The spans in the arguments of a call lie inside its own, each argument's behind those in front. -/
theorem Node.ReadFrom.arguments {name : String} {args : List Expr} {span : Span}
    {piece : List Placed} (read : (Node.call name args span).ReadFrom piece)
    (ordered : Ordered piece) :
    (∀ inner ∈ Expr.nodesAll args,
      span.start < inner.span.start ∧ inner.span.stop ≤ span.stop) ∧
      args.Pairwise (fun a b => ∀ m ∈ a.nodes, ∀ n ∈ b.nodes, m.span.stop ≤ n.span.start) := by
  cases read with
  | call called =>
    cases called with
    | @call _ placed _ a all =>
      have split : Ordered ([⟨.identifier name, a⟩] ++ placed) := ordered
      obtain ⟨_, argsOrdered, behind⟩ := split.of_append
      refine ⟨?_, all.spread.apart argsOrdered⟩
      intro inner member
      obtain ⟨⟨p, pHere, start⟩, ⟨q, qHere, stop⟩⟩ :=
        (Expr.nodesAll_within args all).bounds argsOrdered member
      rw [start, stop]
      constructor
      · exact Nat.lt_of_lt_of_le (ordered.wide _ List.mem_cons_self)
          (behind _ List.mem_cons_self p pHere)
      · exact argsOrdered.stop_le_lastStop a.stop q qHere

/-- In a source that is read every call, loop and break covers the text of its own tokens and no
other. The spans in the arguments of a call lie inside its own, those of distinct arguments and of
distinct statements apart and in the order of the text. -/
theorem parseSource_spans_cover {source : String} {block : Block}
    (parsed : parseSource source = .ok block) :
    ∃ placed, lex source = .ok placed ∧ block.ReadFrom placed ∧
      (∀ node ∈ block.nodes, node.Covers source placed ∧ node.span ≠ .unknown) ∧
      (∀ name args span, .call name args span ∈ block.nodes →
        (∀ inner ∈ Expr.nodesAll args,
          span.start < inner.span.start ∧ inner.span.stop ≤ span.stop) ∧
        args.Pairwise (fun a b => ∀ m ∈ a.nodes, ∀ n ∈ b.nodes, m.span.stop ≤ n.span.start)) ∧
      block.statements.Pairwise
        (fun s t => ∀ m ∈ s.ownNodes, ∀ n ∈ t.ownNodes, m.span.stop ≤ n.span.start) := by
  obtain ⟨placed, lexed, read⟩ := Except.bind_eq_ok.mp parsed
  have lexed := Except.mapError_eq_ok.mp lexed
  have read := Block.readFrom_of_parse (Except.mapError_eq_ok.mp read)
  have tiling : Tiling 0 source.toList placed := tiling_of_lexFrom lexed
  have spread := Block.spread block read
  refine ⟨placed, lexed, read, ?_, ?_, spread.apart tiling.inOrder⟩
  · intro node member
    exact ⟨spread.within.covers tiling node member,
      spread.within.ne_unknown tiling.inOrder node member⟩
  · intro name args span member
    obtain ⟨piece, here, own⟩ := spread.within _ member
    exact own.arguments (tiling.inOrder.sublist here.sublist)

def nestedCall : String := "\x7b loop l \x7b $x = f (g $a) ( h ); break // out\n l ; \x7d \x7d"

theorem nestedCall_spans_cover :
    ∃ block placed, parseSource nestedCall = .ok block ∧ lex nestedCall = .ok placed ∧
      block.nodes.map Node.span = [⟨2, 8⟩, ⟨16, 30⟩, ⟨19, 23⟩, ⟨27, 28⟩, ⟨32, 49⟩] ∧
      ∀ node ∈ block.nodes, node.Covers nestedCall placed ∧ node.span ≠ .unknown := by
  have read : (parseSource nestedCall).toOption.map (·.nodes.map Node.span) =
      some [⟨2, 8⟩, ⟨16, 30⟩, ⟨19, 23⟩, ⟨27, 28⟩, ⟨32, 49⟩] := by decide +kernel
  cases parsed : parseSource nestedCall with
  | error e => rw [parsed] at read; cases read
  | ok block =>
    rw [parsed] at read
    obtain ⟨placed, lexed, -, covers, -⟩ := parseSource_spans_cover parsed
    exact ⟨block, placed, rfl, lexed, Option.some.inj read, covers⟩

end LoopTape
