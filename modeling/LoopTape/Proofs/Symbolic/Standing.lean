import LoopTape.Proofs.Symbolic.Sites
import LoopTape.Proofs.Tree.Spans

/-! Which statements the sites of a tree stand in.

A site tells the label and the place of each loop around it, but not the loops themselves. They are
statements of the tree, and the one that the site belongs to is a statement of their bodies.
-/

set_option autoImplicit false

namespace LoopTape

theorem Expr.mem_nodes_of_stripped (e : Expr) {name : String} {args : List Expr} {span : Span}
    (call : e.stripped = .call name args span) : .call name args span ∈ e.nodes := by
  cases e with
  | «variable» v => cases call
  | paren inner => exact Expr.mem_nodes_of_stripped inner call
  | call own ownArgs ownSpan =>
    cases call
    exact List.mem_cons_self

theorem Expr.nodes_subset_nodesAll {e : Expr} {args : List Expr} (member : e ∈ args) :
    e.nodes ⊆ Expr.nodesAll args := by
  induction args with
  | nil => cases member
  | cons first rest ih =>
    rcases List.mem_cons.mp member with rfl | later
    · exact List.subset_append_left _ _
    · exact List.Subset.trans (ih later) (List.subset_append_right _ _)

/-- The site belongs to one of the statements. Each loop it is inside of is in `around`, or is a
statement as well, with the one that the site belongs to in its body. -/
def Site.StandsIn (around : List Enclosing) (stmts : List Stmt) : Site → Prop
  | .value e _ => ∃ s ∈ stmts, e.nodes ⊆ s.ownNodes
  | .leave label span _ => .leave label span ∈ stmts
  | .loop label span inside =>
    ∃ body, .loop label body span ∈ stmts ∧
      ∀ outer ∈ inside, outer ∈ around ∨
        ∃ outerBody, .loop outer.label outerBody outer.span ∈ stmts ∧
          .loop label body span ∈ outerBody.statements

namespace Site.StandsIn

variable {site : Site} {around : List Enclosing} {stmts more : List Stmt}

theorem mono (stands : site.StandsIn around stmts) (part : stmts ⊆ more) :
    site.StandsIn around more := by
  cases site with
  | value e context =>
    obtain ⟨s, member, own⟩ := stands
    exact ⟨s, part member, own⟩
  | leave label span inside => exact part stands
  | loop label span inside =>
    obtain ⟨body, member, outers⟩ := stands
    refine ⟨body, part member, fun outer isOuter => (outers outer isOuter).imp_right ?_⟩
    rintro ⟨outerBody, outerMember, inner⟩
    exact ⟨outerBody, part outerMember, inner⟩

/-- The sites of a loop's body, seen from outside of the loop. -/
theorem leaveLoop {label : Option String} {body : Block} {span : Span}
    (stands : site.StandsIn (⟨label, span⟩ :: around) body.statements) :
    site.StandsIn around (.loop label body span :: body.statements) := by
  have part : body.statements ⊆ .loop label body span :: body.statements := List.subset_cons_self _ _
  cases site with
  | value e context =>
    obtain ⟨s, member, own⟩ := stands
    exact ⟨s, part member, own⟩
  | leave inner place inside => exact part stands
  | loop inner place inside =>
    obtain ⟨innerBody, member, outers⟩ := stands
    refine ⟨innerBody, part member, fun outer isOuter => ?_⟩
    rcases outers outer isOuter with known | ⟨outerBody, outerMember, within⟩
    · rcases List.mem_cons.mp known with rfl | further
      · exact .inr ⟨body, List.mem_cons_self, member⟩
      · exact .inl further
    · exact .inr ⟨outerBody, part outerMember, within⟩

end Site.StandsIn

mutual

theorem Block.sites_standIn (block : Block) (around : List Enclosing) :
    ∀ site ∈ block.sites around, site.StandsIn around block.statements := by
  cases block with
  | mk stmts localSlots => exact Stmt.sitesAll_standIn stmts around

theorem Stmt.sitesAll_standIn (stmts : List Stmt) (around : List Enclosing) :
    ∀ site ∈ Stmt.sitesAll around stmts, site.StandsIn around (Stmt.statementsAll stmts) := by
  cases stmts with
  | nil => exact fun _ member => nomatch member
  | cons s rest =>
    intro site member
    rcases List.mem_append.mp member with inFirst | later
    · exact (Stmt.sites_standIn s around site inFirst).mono (List.subset_append_left _ _)
    · exact (Stmt.sitesAll_standIn rest around site later).mono (List.subset_append_right _ _)

theorem Stmt.sites_standIn (s : Stmt) (around : List Enclosing) :
    ∀ site ∈ s.sites around, site.StandsIn around s.statements := by
  intro site member
  match s with
  | .call result name args span =>
    obtain ⟨e, argument, rfl⟩ := List.mem_map.mp member
    have own : e.nodes ⊆ .call name args span :: Expr.nodesAll args :=
      List.Subset.trans (Expr.nodes_subset_nodesAll argument) (List.subset_cons_self _ _)
    exact ⟨_, List.mem_singleton_self _, own⟩
  | .cond condition thenBlock none =>
    rcases List.mem_cons.mp member with rfl | inThen
    · exact ⟨_, List.mem_cons_self, List.Subset.refl _⟩
    · exact (Block.sites_standIn thenBlock around site inThen).mono (List.subset_cons_self _ _)
  | .cond condition thenBlock (some elseBlock) =>
    rcases List.mem_cons.mp member with rfl | inBlocks
    · exact ⟨_, List.mem_cons_self, List.Subset.refl _⟩
    · rcases List.mem_append.mp inBlocks with inElse | inThen
      · exact (Block.sites_standIn elseBlock around site inElse).mono (List.subset_append_right _ _)
      · have inBoth := (Block.sites_standIn thenBlock around site inThen).mono
          (List.subset_append_left _ elseBlock.statements)
        exact inBoth.mono (List.subset_cons_self _ _)
  | .loop label body span =>
    rcases List.mem_cons.mp member with rfl | inBody
    · exact ⟨body, List.mem_cons_self, fun outer isOuter => .inl isOuter⟩
    · exact (Block.sites_standIn body (⟨label, span⟩ :: around) site inBody).leaveLoop
  | .leave label span =>
    obtain rfl := List.mem_singleton.mp member
    exact List.mem_singleton_self _
  | .block inner =>
    exact (Block.sites_standIn inner around site member).mono (List.subset_cons_self _ _)

end

mutual

theorem Block.readFrom_of_mem (block : Block) {placed : List Placed} (read : block.ReadFrom placed)
    {s : Stmt} (member : s ∈ block.statements) : ∃ piece, piece <:+: placed ∧ s.ReadFrom piece := by
  cases read with
  | @unscoped stmts placed a b all =>
    obtain ⟨piece, here, own⟩ := Stmt.readFrom_of_memAll stmts all member
    exact ⟨piece, here.trans ⟨[⟨.openBrace, a⟩], [⟨.closeBrace, b⟩], rfl⟩, own⟩

theorem Stmt.readFrom_of_memAll (stmts : List Stmt) {placed : List Placed}
    (read : Stmt.ReadAllFrom stmts placed) {s : Stmt} (member : s ∈ Stmt.statementsAll stmts) :
    ∃ piece, piece <:+: placed ∧ s.ReadFrom piece := by
  cases read with
  | nil => cases member
  | @cons first rest front back read more =>
    rcases List.mem_append.mp member with inFirst | later
    · obtain ⟨piece, here, own⟩ := Stmt.readFrom_of_mem first read inFirst
      exact ⟨piece, here.trans (List.prefix_append front back).isInfix, own⟩
    · obtain ⟨piece, here, own⟩ := Stmt.readFrom_of_memAll rest more later
      exact ⟨piece, here.trans (List.suffix_append front back).isInfix, own⟩

theorem Stmt.readFrom_of_mem (outer : Stmt) {placed : List Placed} (read : outer.ReadFrom placed)
    {s : Stmt} (member : s ∈ outer.statements) : ∃ piece, piece <:+: placed ∧ s.ReadFrom piece := by
  have whole := read
  cases read with
  | @cond condition thenBlock choice chosen a decides first =>
    rcases List.mem_cons.mp member with rfl | inThen
    · exact ⟨_, List.infix_rfl, whole⟩
    · obtain ⟨piece, here, own⟩ := Block.readFrom_of_mem thenBlock first inThen
      exact ⟨piece, here.trans (List.suffix_append _ chosen).isInfix, own⟩
  | @condElse condition thenBlock elseBlock choice chosen other a b decides first second =>
    rcases List.mem_cons.mp member with rfl | inBlocks
    · exact ⟨_, List.infix_rfl, whole⟩
    · rcases List.mem_append.mp inBlocks with inThen | inElse
      · obtain ⟨piece, here, own⟩ := Block.readFrom_of_mem thenBlock first inThen
        exact ⟨piece, here.trans ⟨⟨.condWord, a⟩ :: choice, ⟨.elseWord, b⟩ :: other, rfl⟩, own⟩
      · obtain ⟨piece, here, own⟩ := Block.readFrom_of_mem elseBlock second inElse
        have last : other <:+ ⟨.elseWord, b⟩ :: other := List.suffix_cons _ other
        exact ⟨piece, here.trans (last.trans (List.suffix_append _ _)).isInfix, own⟩
  | @loop label span body front repeated head repeats =>
    rcases List.mem_cons.mp member with rfl | inBody
    · exact ⟨_, List.infix_rfl, whole⟩
    · obtain ⟨piece, here, own⟩ := Block.readFrom_of_mem body repeats inBody
      exact ⟨piece, here.trans (List.suffix_append front repeated).isInfix, own⟩
  | leave =>
    obtain rfl := List.mem_singleton.mp member
    exact ⟨_, List.infix_rfl, whole⟩
  | call =>
    obtain rfl := List.mem_singleton.mp member
    exact ⟨_, List.infix_rfl, whole⟩
  | @block inner placed read =>
    rcases List.mem_cons.mp member with rfl | inside
    · exact ⟨_, List.infix_rfl, whole⟩
    · exact Block.readFrom_of_mem inner read inside

end

/-- What stands in a loop starts behind the head of the loop, and not right behind it: the brace comes
between. -/
theorem Stmt.ReadFrom.head_before {label : Option String} {body : Block} {span : Span}
    {piece : List Placed} (read : (Stmt.loop label body span).ReadFrom piece)
    (ordered : Ordered piece) : ∀ node ∈ body.nodes, span.stop < node.span.start := by
  cases read with
  | @loop _ _ _ front repeated head repeats =>
    cases repeats with
    | @unscoped stmts inner a b all =>
      obtain ⟨frontOrdered, bodyOrdered, behindHead⟩ := ordered.of_append
      have split : Ordered ([⟨.openBrace, a⟩] ++ (inner ++ [⟨.closeBrace, b⟩])) := bodyOrdered
      obtain ⟨-, innerOrdered, behindBrace⟩ := split.of_append
      have brace := bodyOrdered.wide _ List.mem_cons_self
      intro node member
      obtain ⟨-, q, inHead, stop⟩ := ((Node.ReadFrom.loop head).ends frontOrdered).mem
      have within := (Stmt.spreadAll stmts all).within.widen
        (List.prefix_append inner [⟨.closeBrace, b⟩]).isInfix
      obtain ⟨⟨p, inBody, start⟩, -⟩ := within.bounds innerOrdered member
      calc span.stop
          = q.span.stop := stop
        _ ≤ a.start := behindHead q inHead _ List.mem_cons_self
        _ < a.stop := brace
        _ ≤ p.span.start := behindBrace _ List.mem_cons_self p inBody
        _ = node.span.start := start.symm

end LoopTape
