import LoopTape.Proofs.Symbolic.Faults
import LoopTape.Proofs.Symbolic.Standing
import LoopTape.Proofs.Tree.Viability

/-! The labels of a diagnostic are where the fault is.

A source fails at the character where no token starts, at the token that cannot come next or behind the
last one, or at the first construct of the tree that has no code. The labels mark the text of that
character, that token or that construct, and of the loop that it clashes with, in bytes of the source.
-/

set_option autoImplicit false

namespace LoopTape

/-- The text stands in the source where the span says, so the ends of the span lie between characters. -/
def Span.Covers (span : Span) (source : String) (text : List Char) : Prop :=
  ∃ before after, source.toList = before ++ (text ++ after) ∧
    span = ⟨byteLength before, byteLength (before ++ text)⟩

theorem Span.Covers.bounds {span : Span} {source : String} {text : List Char}
    (covers : span.Covers source text) :
    span.start ≤ span.stop ∧ span.stop ≤ source.utf8ByteSize := by
  obtain ⟨before, after, split, rfl⟩ := covers
  have whole : source.utf8ByteSize = byteLength (before ++ text) + byteLength after := by
    rw [← byteLength_append, List.append_assoc, ← split, byteLength_eq_utf8ByteSize,
      String.ofList_toList]
  rw [whole, byteLength_append]
  exact ⟨Nat.le_add_right _ _, Nat.le_add_right _ _⟩

theorem Node.Covers.text {node : Node} {source : String} {placed : List Placed}
    (covers : node.Covers source placed) : ∃ text, node.span.Covers source text := by
  obtain ⟨_, before, text, after, _, _, _, _, split, span, _⟩ := covers
  exact ⟨text, before, after, split, span⟩

/-- The labels of an error mark the construct at a site that has no code. The source has the tokens, and
the tree has the statements. -/
inductive Site.Marked (source : String) (placed : List Placed) (stmts : List Stmt) :
    Site → CompileError → List Label → Prop
  | call {e : Expr} {context span : Span} {name : String} {args : List Expr}
    (call : e.stripped = .call name args span)
    (covers : (Node.call name args span).Covers source placed) :
    Marked source placed stmts (.value e context) (.unsupportedExpression name span)
      [⟨span, "here", true⟩]
  | outside {span : Span} (covers : (Node.leave none span).Covers source placed) :
    Marked source placed stmts (.leave none span []) (.breakOutsideLoop span)
      [⟨span, "here", true⟩]
  | unknown {label : String} {span : Span} {around : List Enclosing}
    (others : ∀ outer ∈ around, outer.label ≠ some label)
    (covers : (Node.leave (some label) span).Covers source placed) :
    Marked source placed stmts (.leave (some label) span around) (.unknownLoopLabel label span)
      [⟨span, "here", true⟩]
  | duplicate {label : String} {span previous : Span} {around : List Enclosing}
    {body outerBody : Block} (outer : .loop (some label) outerBody previous ∈ stmts)
    (inner : .loop (some label) body span ∈ outerBody.statements)
    (covers : (Node.loop (some label) span).Covers source placed)
    (outerCovers : (Node.loop (some label) previous).Covers source placed)
    (before : previous.stop < span.start) :
    Marked source placed stmts (.loop (some label) span around)
      (.duplicateLoopLabel label span previous)
      [⟨span, "here", true⟩, ⟨previous, "enclosing loop uses the same label", false⟩]

/-- The labels of a failure mark the text that a source has no tape for. -/
inductive Failure.Marked (source : String) : Failure → List Label → Prop
  | lex {e : LexError} (covers : e.span.Covers source e.snippet.toList) :
    Marked source (.lex e) [⟨e.span, "here", true⟩]
  | token {e : ParseError} {placed : List Placed} {p : Placed} (lexed : LoopTape.lex source = .ok placed)
    (member : p ∈ placed) (stands : p.Stands source.toList) (found : e.found = some p.token) :
    Marked source (.parse e) [⟨p.span, "here", true⟩]
  | atEnd {e : ParseError} {placed : List Placed} (lexed : LoopTape.lex source = .ok placed)
    (found : e.found = none) :
    Marked source (.parse e) [⟨⟨lastStop 0 placed, lastStop 0 placed⟩, "here", true⟩]
  | compile {e : CompileError} {placed : List Placed} {block : Block} {before behind : List Site}
    {site : Site} {labels : List Label} (lexed : LoopTape.lex source = .ok placed)
    (parsed : LoopTape.parse placed = .ok block) (split : block.sites [] = before ++ site :: behind)
    (sound : ∀ earlier ∈ before, earlier.Sound)
    (marked : site.Marked source placed block.statements e labels) :
    Marked source (.compile e) labels

theorem Site.Marked.covers {source : String} {placed : List Placed} {stmts : List Stmt} {site : Site}
    {e : CompileError} {labels : List Label} (marked : site.Marked source placed stmts e labels) :
    ∀ label ∈ labels, ∃ text, label.span.Covers source text := by
  intro label member
  cases marked with
  | call _ covers | outside covers | unknown _ covers =>
    obtain rfl := List.mem_singleton.mp member
    exact covers.text
  | duplicate _ _ covers outerCovers _ =>
    rcases List.mem_pair.mp member with rfl | rfl
    · exact covers.text
    · exact outerCovers.text

theorem covers_lastStop {source : String} {placed : List Placed} (lexed : lex source = .ok placed) :
    Span.Covers ⟨lastStop 0 placed, lastStop 0 placed⟩ source [] := by
  have tiling := tiling_of_lexFrom lexed
  rw [← List.append_nil placed] at tiling
  obtain ⟨front, back, split, -, stop⟩ := tiling.front
  rw [Nat.zero_add] at stop
  exact ⟨front, back, split, by rw [stop, List.append_nil]⟩

theorem Failure.Marked.covers {source : String} {f : Failure} {labels : List Label}
    (marked : f.Marked source labels) :
    ∀ label ∈ labels, ∃ text, label.span.Covers source text := by
  cases marked with
  | compile _ _ _ _ marked => exact marked.covers
  | lex covers =>
    intro label member
    obtain rfl := List.mem_singleton.mp member
    exact ⟨_, covers⟩
  | token _ _ stands =>
    intro label member
    obtain rfl := List.mem_singleton.mp member
    obtain ⟨before, lexeme, after, split, span, -⟩ := stands
    exact ⟨lexeme, before, after, split, span⟩
  | atEnd lexed =>
    intro label member
    obtain rfl := List.mem_singleton.mp member
    exact ⟨[], covers_lastStop lexed⟩

theorem marked_of_lex {source : String} {e : LexError} (failed : lex source = .error e) :
    (Failure.lex e).Marked source e.diagnostic.labels := by
  obtain ⟨before, rest, placed, stuck⟩ := stuck_of_lexFrom failed
  refine .lex ⟨before, rest, ?_, ?_⟩
  · simpa [LexError.snippet] using stuck.split
  · simp [LexError.span, LexError.snippet, stuck.position]

theorem marked_of_parse {source : String} {placed : List Placed} {e : ParseError}
    (lexed : lex source = .ok placed) (failed : parse placed = .error e) :
    (Failure.parse e).Marked source e.diagnostic.labels := by
  obtain ⟨before, rest, last, rfl, -, -, refuses⟩ := Reading.refuses_of_run failed
  obtain ⟨found, span⟩ := refuses.report
  have tiling : Tiling 0 source.toList _ := tiling_of_lexFrom lexed
  have labels : e.diagnostic.labels = [⟨e.span, "here", true⟩] := rfl
  rw [labels, span]
  cases rest with
  | nil =>
    rw [List.append_nil] at lexed
    exact .atEnd lexed found
  | cons p rest =>
    have member : p ∈ before ++ p :: rest := by simp
    exact .token lexed member (Tiling.stands [] tiling p member) found

section

variable {source : String} {placed : List Placed} {block : Block}

theorem Block.nodes_cover (lexed : lex source = .ok placed) (read : block.ReadFrom placed) :
    ∀ node ∈ block.nodes, node.Covers source placed ∧ node.span ≠ .unknown := by
  have tiling : Tiling 0 source.toList placed := tiling_of_lexFrom lexed
  have within := (Block.spread block read).within
  intro node member
  exact ⟨within.covers tiling node member, within.ne_unknown tiling.inOrder node member⟩

theorem Block.mem_nodes {s : Stmt} {node : Node} (member : s ∈ block.statements)
    (own : node ∈ s.ownNodes) : node ∈ block.nodes := List.mem_flatMap.mpr ⟨s, member, own⟩

/-- The loop outside ends its head before the one inside starts. -/
theorem Block.head_before (lexed : lex source = .ok placed) (read : block.ReadFrom placed)
    {label inner : Option String} {outerBody body : Block} {previous span : Span}
    (outer : .loop label outerBody previous ∈ block.statements)
    (member : .loop inner body span ∈ outerBody.statements) : previous.stop < span.start := by
  have tiling : Tiling 0 source.toList placed := tiling_of_lexFrom lexed
  obtain ⟨piece, here, own⟩ := Block.readFrom_of_mem block read outer
  have ordered := tiling.inOrder.sublist here.sublist
  exact own.head_before ordered _ (Block.mem_nodes member List.mem_cons_self)

theorem Site.marked_of_violates (lexed : lex source = .ok placed) (read : block.ReadFrom placed)
    {site : Site} (member : site ∈ block.sites []) {e : CompileError}
    (violated : site.Violates knownPlace e) :
    site.Marked source placed block.statements e e.diagnostic.labels := by
  have stands := Block.sites_standIn block [] site member
  have cover := Block.nodes_cover lexed read
  cases violated with
  | @call e context name args span call =>
    obtain ⟨s, statement, own⟩ := stands
    have node := Block.mem_nodes statement (own (Expr.mem_nodes_of_stripped e call))
    obtain ⟨covers, known⟩ := cover _ node
    -- A call that was read has a place of its own, so that of its statement is not used.
    have known : span ≠ .unknown := known
    rw [knownPlace, if_neg known]
    exact .call call covers
  | outside =>
    exact .outside (cover _ (Block.mem_nodes stands List.mem_cons_self)).1
  | unknown others =>
    exact .unknown others (cover _ (Block.mem_nodes stands List.mem_cons_self)).1
  | duplicate isOuter same =>
    obtain ⟨body, inner, outers⟩ := stands
    rcases outers _ isOuter with outermost | ⟨outerBody, outer, inside⟩
    · cases outermost
    · rw [same] at outer
      exact .duplicate outer inside (cover _ (Block.mem_nodes inner List.mem_cons_self)).1
        (cover _ (Block.mem_nodes outer List.mem_cons_self)).1
        (Block.head_before lexed read outer inside)

theorem marked_of_compile (lexed : lex source = .ok placed) (parsed : parse placed = .ok block)
    {e : CompileError} (failed : block.compile = .error e) :
    (Failure.compile e).Marked source e.diagnostic.labels := by
  obtain ⟨before, site, behind, split, sound, violated⟩ :=
    block.settles_compile.error_iff.mp failed
  have member : site ∈ block.sites [] := by simp [split]
  have marked := Site.marked_of_violates lexed (Block.readFrom_of_parse parsed) member violated
  exact .compile lexed parsed split sound marked

end

/-- Where a source has no tape, the labels of the diagnostic mark the text that is at fault, and no label
goes past the end of the source or starts or stops inside a character. -/
theorem compileSource_marked {source : String} {f : Failure}
    (failed : compileSource source = .error f) :
    f.Marked source f.diagnostic.labels ∧
      ∀ label ∈ f.diagnostic.labels, label.span.start ≤ label.span.stop ∧
        label.span.stop ≤ source.utf8ByteSize ∧ ∃ text, label.span.Covers source text := by
  have marked : f.Marked source f.diagnostic.labels := by
    rcases Except.bind_eq_error.mp failed with unread | ⟨block, read, failed⟩
    · rcases Except.bind_eq_error.mp unread with failed | ⟨placed, lexed, failed⟩
      · obtain ⟨e, refused, rfl⟩ := Except.mapError_eq_error.mp failed
        exact marked_of_lex refused
      · obtain ⟨e, refused, rfl⟩ := Except.mapError_eq_error.mp failed
        exact marked_of_parse (Except.mapError_eq_ok.mp lexed) refused
    · obtain ⟨placed, lexed, parsed⟩ := Except.bind_eq_ok.mp read
      obtain ⟨e, refused, rfl⟩ := Except.mapError_eq_error.mp failed
      exact marked_of_compile (Except.mapError_eq_ok.mp lexed) (Except.mapError_eq_ok.mp parsed)
        refused
  refine ⟨marked, fun label member => ?_⟩
  obtain ⟨text, covers⟩ := marked.covers label member
  exact ⟨covers.bounds.1, covers.bounds.2, text, covers⟩

def sameLabel : String := "\x7b loop l \x7b // \u00e9\n loop l \x7b \x7d \x7d \x7d"

theorem sameLabel_marked :
    ∃ f, compileSource sameLabel = .error f ∧ f.Marked sameLabel
      [⟨⟨18, 24⟩, "here", true⟩, ⟨⟨2, 8⟩, "enclosing loop uses the same label", false⟩] := by
  have refused : (compileSource sameLabel).mapError (·.diagnostic.labels) =
      .error [⟨⟨18, 24⟩, "here", true⟩,
        ⟨⟨2, 8⟩, "enclosing loop uses the same label", false⟩] := by decide +kernel
  obtain ⟨f, failed, labels⟩ := Except.mapError_eq_error.mp refused
  have marked := (compileSource_marked failed).1
  rw [labels] at marked
  exact ⟨f, failed, marked⟩

end LoopTape
