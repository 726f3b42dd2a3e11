import LoopTape.Proofs.Scope.Lookup
import LoopTape.Proofs.Scope.Slots
import LoopTape.Proofs.Symbolic.Linkable
import LoopTape.Proofs.Symbolic.Lowered
import LoopTape.Proofs.Symbolic.Sites

/-! Which trees have a tape, and which error the others have.

Once slots are chosen, every variable has one, because the block it stands in declares its name or is
inside one that does. So lowering fails at nothing but a site of the tree, and the jumps of the code that
it gives go to labels in that code.
-/

set_option autoImplicit false

namespace LoopTape

def Frames.Covers (frames : Frames) (names : List String) : Prop :=
  ∀ name ∈ names, ∃ slot, frames.slot? name = some slot

theorem Frames.covers_nil (frames : Frames) : frames.Covers [] := fun _ member => nomatch member

theorem Frames.Covers.append {frames : Frames} {a b : List String} (first : frames.Covers a)
    (second : frames.Covers b) : frames.Covers (a ++ b) := by
  intro name member
  rcases List.mem_append.mp member with inFirst | inSecond
  · exact first name inFirst
  · exact second name inSecond

theorem Frames.Covers.left {frames : Frames} {a b : List String} (covers : frames.Covers (a ++ b)) :
    frames.Covers a := fun name member => covers name (List.mem_append_left b member)

theorem Frames.Covers.right {frames : Frames} {a b : List String} (covers : frames.Covers (a ++ b)) :
    frames.Covers b := fun name member => covers name (List.mem_append_right a member)

theorem Frame.exists_slot? (frame : Frame) {name : String} (member : name ∈ frame.names) :
    ∃ slot, frame.slot? name = some slot := by
  cases place : frame.names.idxOf? name with
  | none => exact absurd member (List.idxOf?_eq_none_iff.mp place)
  | some index => exact ⟨frame.base + index + 1, by rw [Frame.slot?, place]; rfl⟩

/-- In a block, the names that occur in it have a slot as well: it declares those that are new. -/
theorem Frames.Covers.enter {frames : Frames} {seen : List String} (covers : frames.Covers seen)
    (stmts : List Stmt) :
    (frames.enter seen stmts).Covers seen ∧ (frames.enter seen stmts).Covers (ownNames stmts) := by
  have outer : (frames.enter seen stmts).Covers seen := by
    intro name member
    obtain ⟨slot, found⟩ := covers name member
    cases own : Frame.slot? ⟨declaredNames seen stmts, frames.top⟩ name with
    | some slot => exact ⟨slot, slot?_cons.mpr (.inl own)⟩
    | none => exact ⟨slot, slot?_cons.mpr (.inr ⟨own, found⟩)⟩
  refine ⟨outer, fun name member => ?_⟩
  by_cases known : name ∈ seen
  · exact outer name known
  · have declared : name ∈ declaredNames seen stmts := by simp [declaredNames, member, known]
    obtain ⟨slot, own⟩ := Frame.exists_slot? ⟨declaredNames seen stmts, frames.top⟩ declared
    exact ⟨slot, slot?_cons.mpr (.inl own)⟩

theorem Variable.boundSlot_bind {frames : Frames} {v : Variable} {slot : Nat}
    (found : frames.slot? v.name = some slot) : (v.bind frames).boundSlot = .ok slot := by
  rw [boundSlot, bind, found]

theorem Expr.stripped_bind (frames : Frames) (e : Expr) :
    (e.bind frames).stripped = e.stripped.bind frames := by
  cases e with
  | paren inner => exact Expr.stripped_bind frames inner
  | _ => rfl

theorem Expr.slot_stripped (context : Span) (e : Expr) : e.stripped.slot context = e.slot context := by
  cases e with
  | paren inner => exact Expr.slot_stripped context inner
  | _ => rfl

theorem Expr.variables_stripped (e : Expr) : e.stripped.variables = e.variables := by
  cases e with
  | paren inner => exact Expr.variables_stripped inner
  | _ => rfl

theorem Site.violates_call {e : Expr} {context span : Span} {name : String} {args : List Expr}
    (call : e.stripped = .call name args span) (other : CompileError) :
    (value e context).Violates knownPlace other ↔
      other = .unsupportedExpression name (knownPlace context span) := by
  constructor
  · intro violated
    cases violated with
    | call same =>
      cases call.symm.trans same
      rfl
  · rintro rfl
    exact .call call

theorem Expr.settles_slot {frames : Frames} (context : Span) (e : Expr)
    (covers : frames.Covers (e.variables.map Variable.name)) :
    Settles [.value e context] ((e.bind frames).slot context) := by
  rw [← slot_stripped, stripped_bind]
  rcases e.stripped_eq with ⟨v, bare⟩ | ⟨name, args, span, call⟩
  · obtain ⟨slot, found⟩ := covers v.name (by rw [← variables_stripped, bare]; simp [Expr.variables])
    rw [bare, bind, Expr.slot, Variable.boundSlot_bind found]
    exact .sound (Site.sound_value.mpr ⟨v, bare⟩) slot
  · rw [call, bind, Expr.slot]
    exact .fault (Site.violates_call call) []

theorem Expr.settles_slots {frames : Frames} (context : Span) (args : List Expr)
    (covers : frames.Covers ((Expr.variablesAll args).map Variable.name)) :
    Settles (args.map (.value · context)) (Expr.slots context (Expr.bindAll frames args)) := by
  induction args with
  | nil => exact .ok []
  | cons e rest ih =>
    rw [variablesAll, List.map_append] at covers
    have head := Expr.settles_slot context e covers.left
    exact head.bind fun slot => (ih covers.right).bind_ok fun _ => rfl

theorem resultSlot_bind {frames : Frames} {result : Option Variable}
    (covers : frames.Covers (result.toList.map Variable.name)) :
    ∃ output, resultSlot (result.map (·.bind frames)) = .ok output := by
  cases result with
  | none => exact ⟨none, rfl⟩
  | some v =>
    obtain ⟨slot, found⟩ := covers v.name (by simp)
    exact ⟨some slot, by rw [Option.map_some, resultSlot, Variable.boundSlot_bind found]; rfl⟩

def OpenLoop.enclosing (opened : OpenLoop) : Enclosing := ⟨opened.label, opened.span⟩

@[simp] theorem OpenLoop.enclosing_label (opened : OpenLoop) :
    opened.enclosing.label = opened.label := rfl

def Surroundings.enclosing (around : Surroundings) : List Enclosing :=
  around.loops.map OpenLoop.enclosing

/-- The labels of the loops around the point reached differ. -/
def Surroundings.Distinct (around : Surroundings) : Prop :=
  ∀ a ∈ around.loops, ∀ b ∈ around.loops, a.label = b.label → a.label = none ∨ a = b

theorem Surroundings.Distinct.enterLoop {around : Surroundings} (distinct : around.Distinct)
    {label : Option String} (unused : around.clash? label = none) (span : Span)
    (localSlots exit : Nat) : (around.enterLoop label span localSlots exit).Distinct := by
  have new (outer : OpenLoop) (member : outer ∈ around.loops) : label = none ∨ outer.label ≠ label := by
    cases label with
    | none => exact .inl rfl
    | some own => exact .inr (by simpa using List.find?_eq_none.mp unused outer member)
  intro a inA b inB same
  rcases List.mem_cons.mp inA with rfl | outerA <;> rcases List.mem_cons.mp inB with rfl | outerB
  · exact .inr rfl
  · exact (new b outerB).imp id fun differs => absurd same.symm differs
  · exact (new a outerA).imp same.trans fun differs => absurd same differs
  · exact distinct a outerA b outerB same

theorem Surroundings.mem_enclosing {around : Surroundings} {outer : Enclosing} :
    outer ∈ around.enclosing ↔ ∃ opened ∈ around.loops, opened.enclosing = outer := List.mem_map

theorem Surroundings.label_ne_of_find? {around : Surroundings} {name : String}
    (none : around.loops.find? (·.label = some name) = none) {outer : Enclosing}
    (member : outer ∈ around.enclosing) : outer.label ≠ some name := by
  obtain ⟨opened, inside, rfl⟩ := mem_enclosing.mp member
  simpa using List.find?_eq_none.mp none opened inside

theorem Surroundings.violates_clash {around : Surroundings} (distinct : around.Distinct)
    {label : Option String} {span : Span} {outer : OpenLoop}
    (found : around.clash? label = some outer) (other : CompileError) :
    (Site.loop label span around.enclosing).Violates knownPlace other ↔
      other = .duplicateLoopLabel (label.getD "") span outer.span := by
  cases label with
  | none => exact nomatch found
  | some name =>
    have labelled : outer.label = some name := by simpa using List.find?_some found
    constructor
    · intro violated
      cases violated with
      | duplicate member same =>
        obtain ⟨opened, inside, rfl⟩ := mem_enclosing.mp member
        rcases distinct opened inside outer (List.mem_of_find?_eq_some found)
          (same.trans labelled.symm) with bare | rfl
        · exact nomatch bare.symm.trans same
        · rfl
    · rintro rfl
      exact .duplicate (mem_enclosing.mpr ⟨outer, List.mem_of_find?_eq_some found, rfl⟩) labelled

theorem Surroundings.sound_clash {around : Surroundings} {label : Option String}
    (unused : around.clash? label = none) (span : Span) :
    (Site.loop label span around.enclosing).Sound := by
  cases label with
  | none => exact Site.sound_loop_none
  | some name => exact Site.sound_loop_some.mpr fun _ => label_ne_of_find? unused

theorem Surroundings.sound_target {around : Surroundings} {label : Option String}
    {target : OpenLoop} (found : around.target? label = some target) (span : Span) :
    (Site.leave label span around.enclosing).Sound := by
  have member : target.enclosing ∈ around.enclosing :=
    mem_enclosing.mpr ⟨target, mem_of_target? found, rfl⟩
  cases label with
  | none => exact Site.sound_leave_none.mpr (List.ne_nil_of_mem member)
  | some name =>
    have labelled : target.label = some name := by simpa using List.find?_some found
    exact Site.sound_leave_some.mpr ⟨target.enclosing, member, labelled⟩

theorem Surroundings.violates_outside {around : Surroundings} {span : Span}
    (nowhere : around.target? none = none) (other : CompileError) :
    (Site.leave none span around.enclosing).Violates knownPlace other ↔ other = .breakOutsideLoop span := by
  have alone : around.enclosing = [] := by
    rw [enclosing, List.head?_eq_none_iff.mp nowhere]
    rfl
  rw [alone]
  constructor
  · intro violated
    cases violated
    rfl
  · rintro rfl
    exact .outside

theorem Surroundings.violates_unknown {around : Surroundings} {name : String} {span : Span}
    (nowhere : around.target? (some name) = none) (other : CompileError) :
    (Site.leave (some name) span around.enclosing).Violates knownPlace other ↔
      other = .unknownLoopLabel name span := by
  constructor
  · intro violated
    cases violated
    rfl
  · rintro rfl
    exact .unknown fun _ => label_ne_of_find? nowhere

mutual

theorem Block.settles_lower (block : Block) {frames : Frames} {seen : List String}
    (covers : frames.Covers seen) {around : Surroundings} (distinct : around.Distinct) (used : Nat) :
    Settles (block.sites around.enclosing) ((block.bind frames seen).lower around used) := by
  cases block with
  | mk stmts slots =>
    obtain ⟨outer, own⟩ := covers.enter stmts
    have growing : (around.grow (declaredNames seen stmts).length).Distinct := distinct
    exact (Stmt.settles_lowerAll stmts outer own growing used).bind_ok fun _ => rfl

theorem Stmt.settles_lowerAll (stmts : List Stmt) {frames : Frames} {seen : List String}
    (covers : frames.Covers seen) (own : frames.Covers (ownNames stmts)) {around : Surroundings}
    (distinct : around.Distinct) (used : Nat) :
    Settles (Stmt.sitesAll around.enclosing stmts)
      (Stmt.lowerAll around used (Stmt.bindAll frames seen stmts)) := by
  cases stmts with
  | nil => exact .ok _
  | cons s rest =>
    have parts : frames.Covers (ownNames [s] ++ ownNames rest) := ownNames_append [s] rest ▸ own
    have reached := covers.append parts.left
    have first := Stmt.settles_lower s reached (ownNames_singleton s ▸ parts.left) distinct used
    exact first.bind fun lowered =>
      (Stmt.settles_lowerAll rest reached parts.right distinct lowered.2).bind_ok fun _ => rfl

theorem Stmt.settles_lower (s : Stmt) {frames : Frames} {seen : List String}
    (covers : frames.Covers seen) (own : frames.Covers (s.ownVariables.map Variable.name))
    {around : Surroundings} (distinct : around.Distinct) (used : Nat) :
    Settles (s.sites around.enclosing) ((s.bind frames seen).lower around used) := by
  match s with
  | .call result name args span =>
    rw [Stmt.ownVariables, List.map_append] at own
    -- The result is looked up after the arguments, but is never missing.
    obtain ⟨output, written⟩ := resultSlot_bind own.left
    rw [Stmt.bind, Stmt.lower, written]
    exact (Expr.settles_slots span args own.right).bind_ok fun _ => rfl
  | .cond condition thenBlock none =>
    exact (Expr.settles_slot .unknown condition own).bind fun _ =>
      (Block.settles_lower thenBlock covers distinct _).bind_ok fun _ => rfl
  | .cond condition thenBlock (some elseBlock) =>
    exact (Expr.settles_slot .unknown condition own).bind fun _ =>
      (Block.settles_lower elseBlock covers distinct _).bind fun _ =>
        (Block.settles_lower thenBlock covers distinct _).bind_ok fun _ => rfl
  | .loop label (.mk stmts slots) span =>
    rw [Stmt.bind, Block.bind_mk, Stmt.lower]
    cases clash : around.clash? label with
    | some outer => exact .fault (Surroundings.violates_clash distinct clash) _
    | none =>
      -- The body is lowered as its statements, in the frames of a block.
      obtain ⟨outer, own⟩ := covers.enter stmts
      have opened := Stmt.settles_lowerAll stmts outer own
        (distinct.enterLoop clash span (declaredNames seen stmts).length (used + 2)) (used + 2)
      exact .behind (Surroundings.sound_clash clash span) (opened.bind_ok fun _ => rfl)
  | .leave label span =>
    simp only [Stmt.bind, Stmt.lower]
    cases found : around.target? label with
    | some target => exact .sound (Surroundings.sound_target found span) _
    | none =>
      cases label with
      | none => exact .fault (Surroundings.violates_outside found) []
      | some name => exact .fault (Surroundings.violates_unknown found) []
  | .block inner => exact Block.settles_lower inner covers distinct used

end

/-- Each jump of the code goes to a label set in it or to the end of a loop around it. -/
def JumpsWithin (around : Surroundings) (code : List Symbolic) : Prop :=
  ∀ condition id, .jump condition id ∈ code →
    .label id ∈ code ∨ ∃ opened ∈ around.loops, opened.exit = id

@[simp] theorem Symbolic.jump_notMem_growBy (count condition id : Nat) :
    .jump condition id ∉ growBy count := by
  unfold growBy
  split <;> simp

@[simp] theorem Symbolic.jump_notMem_shrinkBy (count condition id : Nat) :
    .jump condition id ∉ shrinkBy count := by
  unfold shrinkBy
  split <;> simp

theorem JumpsWithin.append {around : Surroundings} {a b : List Symbolic} (first : JumpsWithin around a)
    (second : JumpsWithin around b) : JumpsWithin around (a ++ b) := by
  intro condition id member
  rcases List.mem_append.mp member with inFirst | inSecond
  · exact (first condition id inFirst).imp_left (List.mem_append_left b)
  · exact (second condition id inSecond).imp_left (List.mem_append_right a)

theorem JumpsWithin.of_none {around : Surroundings} {code : List Symbolic}
    (none : ∀ condition id, .jump condition id ∉ code) : JumpsWithin around code :=
  fun condition id member => absurd member (none condition id)

mutual

theorem Block.jumpsWithin_lower (block : Block) {around : Surroundings} {used after : Nat}
    {part : List Symbolic} (lowered : block.lower around used = .ok (part, after)) :
    JumpsWithin around part := by
  cases block with
  | mk stmts localSlots =>
    obtain ⟨body, inner, rfl⟩ := Block.lower_eq_ok lowered
    have parts := Stmt.jumpsWithin_lowerAll stmts inner
    have within : JumpsWithin around body := parts
    exact ((JumpsWithin.of_none (by simp)).append within).append (.of_none (by simp))

theorem Stmt.jumpsWithin_lowerAll (stmts : List Stmt) {around : Surroundings} {used after : Nat}
    {part : List Symbolic} (lowered : Stmt.lowerAll around used stmts = .ok (part, after)) :
    JumpsWithin around part := by
  cases stmts with
  | nil =>
    obtain ⟨rfl, rfl⟩ := Stmt.lowerAll_nil_eq_ok lowered
    exact .of_none (by simp)
  | cons s rest =>
    obtain ⟨first, between, others, head, tail, rfl⟩ := Stmt.lowerAll_cons_eq_ok lowered
    exact (Stmt.jumpsWithin_lower s head).append (Stmt.jumpsWithin_lowerAll rest tail)

theorem Stmt.jumpsWithin_lower (s : Stmt) {around : Surroundings} {used after : Nat}
    {part : List Symbolic} (lowered : s.lower around used = .ok (part, after)) :
    JumpsWithin around part := by
  intro condition id member
  match s with
  | .call _ _ _ _ =>
    obtain ⟨inputs, output, _, _, rfl, rfl⟩ := Stmt.lower_call_eq_ok lowered
    simp at member
  | .cond _ thenBlock none =>
    obtain ⟨slot, whenTrue, _, inner, rfl⟩ := Stmt.lower_cond_eq_ok lowered
    have parts := Block.jumpsWithin_lower thenBlock inner condition id
    grind
  | .cond _ thenBlock (some elseBlock) =>
    obtain ⟨slot, whenFalse, between, whenTrue, _, first, second, rfl⟩ :=
      Stmt.lower_condElse_eq_ok lowered
    have parts := ((Block.jumpsWithin_lower elseBlock first).append
      (Block.jumpsWithin_lower thenBlock second)) condition id
    grind
  | .loop _ (.mk stmts _) _ =>
    obtain ⟨body, inner, rfl⟩ := Stmt.lower_loop_eq_ok lowered
    have parts := Stmt.jumpsWithin_lowerAll stmts inner condition id
    have own : .jump condition id ∈ body ∨ condition = 0 ∧ id = used + 1 := by simpa using member
    rcases own with inBody | ⟨-, rfl⟩
    · rcases parts inBody with set | ⟨opened, member, exit⟩
      · exact .inl (by simp [set])
      · -- A break leaves the loop itself or one around it.
        rcases List.mem_cons.mp member with rfl | outer
        · exact .inl (by simp [← exit])
        · exact .inr ⟨opened, outer, exit⟩
    · exact .inl (by simp)
  | .leave _ _ =>
    obtain ⟨target, found, rfl, rfl⟩ := Stmt.lower_leave_eq_ok lowered
    have own : condition = 0 ∧ id = target.exit := by simpa using member
    exact .inr ⟨target, Surroundings.mem_of_target? found, own.2.symm⟩
  | .block inner =>
    rw [Stmt.lower] at lowered
    exact Block.jumpsWithin_lower inner lowered condition id member

end

theorem Block.exists_link_of_symbolic {root : Block} {code : List Symbolic}
    (lowered : root.symbolic = .ok code) : ∃ tape, link code = .ok tape := by
  obtain ⟨⟨part, after⟩, inner, rfl⟩ := Except.map_eq_ok.mp lowered
  -- There is no loop around a root block that a jump could leave.
  refine exists_link_eq_ok_iff.mpr fun condition id member => ?_
  rcases Block.jumpsWithin_lower root inner condition id member with set | ⟨opened, outer, -⟩
  · exact set
  · exact nomatch outer

theorem Block.settles_compile (root : Block) : Settles (root.sites []) root.compile := by
  have covers := Frames.covers_nil []
  have distinct : Surroundings.empty.Distinct := fun _ member => nomatch member
  have lowered : Settles (root.sites []) root.resolve.symbolic :=
    (Block.settles_lower root covers distinct 0).bind_ok fun _ => rfl
  rw [compile, generate]
  generalize made : root.resolve.symbolic = x at lowered
  cases lowered with
  | failed split sound only => exact .failed split sound only
  | passed code sound =>
    obtain ⟨tape, linked⟩ := Block.exists_link_of_symbolic made
    show Settles _ (link code)
    rw [linked]
    exact .passed tape sound

/-- Exactly the valid trees have a tape. Any other tree is refused for the first site, in the order in
which it is lowered, that something is wrong at, a call without a span being reported at the statement that
it is an argument of; variables without slots and jumps to labels that are not set do not occur. -/
theorem Block.compile_firstFault (root : Block) :
    ((∃ tape, root.compile = .ok tape) ↔ root.Valid) ∧
    (∀ e, root.compile = .error e ↔ FirstFault knownPlace (root.sites []) e) ∧
    (∀ name, root.compile ≠ .error (.unresolvedVariable name)) ∧
    ∀ id, root.compile ≠ .error (.undefinedLabel id) := by
  have settles := Block.settles_compile root
  refine ⟨?_, fun e => settles.error_iff, fun name failed => ?_, fun id failed => ?_⟩
  · rw [settles.exists_ok_iff, Block.valid_iff]
  · obtain ⟨_, _, _, _, _, violated⟩ := settles.error_iff.mp failed
    exact nomatch violated
  · obtain ⟨_, _, _, _, _, violated⟩ := settles.error_iff.mp failed
    exact nomatch violated

def spanlessArgument : Block := .unscoped [.call none "f" [.call "g" [] .unknown] ⟨3, 9⟩]

theorem spanlessArgument_misplaced :
    spanlessArgument.compile = .error (.unsupportedExpression "g" ⟨3, 9⟩) ∧
      FirstFault ownPlace (spanlessArgument.sites []) (.unsupportedExpression "g" .unknown) ∧
      ¬FirstFault ownPlace (spanlessArgument.sites []) (.unsupportedExpression "g" ⟨3, 9⟩) := by
  have only : spanlessArgument.sites [] = [.value (.call "g" [] .unknown) ⟨3, 9⟩] := rfl
  refine ⟨by decide +kernel, ⟨[], _, [], only, List.forall_mem_nil _, .call rfl⟩, ?_⟩
  rintro ⟨before, site, behind, split, -, violated⟩
  have member : site ∈ spanlessArgument.sites [] := by simp [split]
  rw [only, List.mem_singleton] at member
  subst member
  -- The error that fits the one site has the span of the argument.
  generalize reported : CompileError.unsupportedExpression "g" ⟨3, 9⟩ = e at violated
  cases violated with
  | call call =>
    cases call
    cases reported

end LoopTape
