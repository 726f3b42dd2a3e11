import LoopTape.Proofs.Symbolic.Linked

/-! What the code of a tree consists of.

For each kind of tree, lowering it gave the codes of its parts between instructions of its own. The
labels set in a code are new ones, each set once: those between the numbers of labels in use before
and after it.
-/

set_option autoImplicit false

namespace LoopTape

variable {around : Surroundings} {used after : Nat} {part : List Symbolic}

theorem Block.lower_eq_ok {stmts : List Stmt} {localSlots : Nat}
    (lowered : (Block.mk stmts localSlots).lower around used = .ok (part, after)) :
    ∃ body, Stmt.lowerAll (around.grow localSlots) used stmts = .ok (body, after) ∧
      part = Symbolic.growBy localSlots ++ body ++ Symbolic.shrinkBy localSlots := by
  rw [Block.lower] at lowered
  obtain ⟨⟨body, last⟩, inner, same⟩ := Except.bind_eq_ok.mp lowered
  cases same
  exact ⟨body, inner, rfl⟩

theorem Stmt.lowerAll_nil_eq_ok (lowered : Stmt.lowerAll around used [] = .ok (part, after)) :
    part = [] ∧ after = used := by
  rw [Stmt.lowerAll] at lowered
  cases lowered
  exact ⟨rfl, rfl⟩

theorem Stmt.lowerAll_cons_eq_ok {s : Stmt} {rest : List Stmt}
    (lowered : Stmt.lowerAll around used (s :: rest) = .ok (part, after)) :
    ∃ first between others, s.lower around used = .ok (first, between) ∧
      Stmt.lowerAll around between rest = .ok (others, after) ∧ part = first ++ others := by
  rw [Stmt.lowerAll] at lowered
  obtain ⟨⟨first, between⟩, head, lowered⟩ := Except.bind_eq_ok.mp lowered
  obtain ⟨⟨others, last⟩, tail, same⟩ := Except.bind_eq_ok.mp lowered
  cases same
  exact ⟨first, between, others, head, tail, rfl⟩

theorem Stmt.lower_call_eq_ok {result : Option Variable} {name : String} {args : List Expr}
    {span : Span} (lowered : (Stmt.call result name args span).lower around used = .ok (part, after)) :
    ∃ inputs output, Expr.slots span args = .ok inputs ∧ resultSlot result = .ok output ∧
      part = [.call name inputs output] ∧ after = used := by
  rw [Stmt.lower] at lowered
  obtain ⟨inputs, read, lowered⟩ := Except.bind_eq_ok.mp lowered
  obtain ⟨output, written, same⟩ := Except.bind_eq_ok.mp lowered
  cases same
  exact ⟨inputs, output, read, written, rfl, rfl⟩

theorem Stmt.lower_cond_eq_ok {condition : Expr} {thenBlock : Block}
    (lowered : (Stmt.cond condition thenBlock none).lower around used = .ok (part, after)) :
    ∃ slot whenTrue, condition.slot .unknown = .ok slot ∧
      thenBlock.lower around (used + 2) = .ok (whenTrue, after) ∧
      part = .jump slot (used + 1) :: .jump 0 (used + 2) :: .label (used + 1) ::
        whenTrue ++ [.label (used + 2)] := by
  rw [Stmt.lower] at lowered
  obtain ⟨slot, read, lowered⟩ := Except.bind_eq_ok.mp lowered
  obtain ⟨⟨whenTrue, last⟩, inner, same⟩ := Except.bind_eq_ok.mp lowered
  cases same
  exact ⟨slot, whenTrue, read, inner, rfl⟩

theorem Stmt.lower_condElse_eq_ok {condition : Expr} {thenBlock elseBlock : Block}
    (lowered :
      (Stmt.cond condition thenBlock (some elseBlock)).lower around used = .ok (part, after)) :
    ∃ slot whenFalse between whenTrue, condition.slot .unknown = .ok slot ∧
      elseBlock.lower around (used + 2) = .ok (whenFalse, between) ∧
      thenBlock.lower around between = .ok (whenTrue, after) ∧
      part = .jump slot (used + 1) :: whenFalse ++ .jump 0 (used + 2) :: .label (used + 1) ::
        whenTrue ++ [.label (used + 2)] := by
  rw [Stmt.lower] at lowered
  obtain ⟨slot, read, lowered⟩ := Except.bind_eq_ok.mp lowered
  obtain ⟨⟨whenFalse, between⟩, first, lowered⟩ := Except.bind_eq_ok.mp lowered
  obtain ⟨⟨whenTrue, last⟩, second, same⟩ := Except.bind_eq_ok.mp lowered
  cases same
  exact ⟨slot, whenFalse, between, whenTrue, read, first, second, rfl⟩

def Surroundings.enterLoop (around : Surroundings) (label : Option String) (span : Span)
    (localSlots exit : Nat) : Surroundings :=
  ⟨⟨label, span, around.depth + localSlots, exit⟩ :: around.loops, around.depth + localSlots⟩

theorem Stmt.lower_loop_eq_ok {label : Option String} {stmts : List Stmt} {localSlots : Nat}
    {span : Span}
    (lowered : (Stmt.loop label (.mk stmts localSlots) span).lower around used = .ok (part, after)) :
    ∃ body, Stmt.lowerAll (around.enterLoop label span localSlots (used + 2)) (used + 2) stmts =
        .ok (body, after) ∧
      part = Symbolic.growBy localSlots ++ .label (used + 1) :: body ++
        .jump 0 (used + 1) :: .label (used + 2) :: Symbolic.shrinkBy localSlots := by
  rw [Stmt.lower] at lowered
  cases clash : around.clash? label with
  | some outer => simp [clash] at lowered
  | none =>
    rw [clash] at lowered
    obtain ⟨⟨body, last⟩, inner, same⟩ := Except.bind_eq_ok.mp lowered
    cases same
    exact ⟨body, inner, rfl⟩

theorem Stmt.lower_leave_eq_ok {label : Option String} {span : Span}
    (lowered : (Stmt.leave label span).lower around used = .ok (part, after)) :
    ∃ target, around.target? label = some target ∧
      part = Symbolic.shrinkBy (around.depth - target.depth) ++ [.jump 0 target.exit] ∧
      after = used := by
  cases found : around.target? label with
  | none => cases label <;> simp [Stmt.lower, found] at lowered
  | some target =>
    simp only [Stmt.lower, found] at lowered
    cases lowered
    exact ⟨target, rfl, rfl, rfl⟩

theorem Surroundings.mem_of_target? {around : Surroundings} {label : Option String}
    {target : OpenLoop} (found : around.target? label = some target) : target ∈ around.loops := by
  cases label with
  | none => exact List.mem_of_mem_head? found
  | some name => exact List.mem_of_find?_eq_some found

/-- No loop around a point has more slots allocated in its body than there are at the point. -/
def Surroundings.Ordered (around : Surroundings) : Prop :=
  ∀ opened ∈ around.loops, opened.depth ≤ around.depth

theorem Surroundings.Ordered.grow {around : Surroundings} (ordered : around.Ordered) (count : Nat) :
    (around.grow count).Ordered :=
  fun opened member => Nat.le_add_right_of_le (ordered opened member)

theorem Surroundings.Ordered.enterLoop {around : Surroundings} (ordered : around.Ordered)
    (label : Option String) (span : Span) (localSlots exit : Nat) :
    (around.enterLoop label span localSlots exit).Ordered := by
  intro opened member
  rcases List.mem_cons.mp member with rfl | outer
  · exact Nat.le_refl _
  · exact Nat.le_add_right_of_le (ordered opened outer)

theorem Surroundings.Ordered.target {around : Surroundings} (ordered : around.Ordered)
    {label : Option String} {target : OpenLoop} (found : around.target? label = some target) :
    target.depth ≤ around.depth :=
  ordered target (mem_of_target? found)

/-- The labels set in the code lie above `low` and up to `high`, and none is set twice. -/
structure Numbered (low high : Nat) (code : List Symbolic) : Prop where
  ordered : low ≤ high
  bounds : ∀ id ∈ setLabels code, low < id ∧ id ≤ high
  distinct : (setLabels code).Nodup

namespace Numbered

variable {low middle high : Nat}

theorem append {a b : List Symbolic} (first : Numbered low middle a)
    (second : Numbered middle high b) : Numbered low high (a ++ b) := by
  have before := first.ordered
  have behind := second.ordered
  constructor
  case ordered => exact Nat.le_trans before behind
  case bounds =>
    intro id member
    rw [setLabels_append] at member
    rcases List.mem_append.mp member with inFirst | inSecond
    · have inside := first.bounds id inFirst
      omega
    · have inside := second.bounds id inSecond
      omega
  case distinct =>
    rw [setLabels_append]
    refine List.nodup_append.mpr ⟨first.distinct, second.distinct, ?_⟩
    intro id inFirst other inSecond
    have upTo := (first.bounds id inFirst).2
    have above := (second.bounds other inSecond).1
    omega

theorem of_none {code : List Symbolic} (none : setLabels code = []) : Numbered low low code := by
  constructor
  case ordered => exact Nat.le_refl low
  case bounds => simp [none]
  case distinct => simp [none]

/-- A tree with parts of its own sets two labels and then those of the parts. -/
theorem of_perm {inner code : List Symbolic} (parts : Numbered (low + 2) high inner)
    (perm : (setLabels code).Perm ((low + 1) :: (low + 2) :: setLabels inner)) :
    Numbered low high code := by
  have ordered := parts.ordered
  constructor
  case ordered => omega
  case bounds =>
    intro id member
    rcases List.mem_cons.mp (perm.mem_iff.mp member) with rfl | member
    · omega
    rcases List.mem_cons.mp member with rfl | member
    · omega
    have inside := parts.bounds id member
    omega
  case distinct =>
    -- The labels of the parts lie above both of the tree's own.
    have new (id : Nat) (upTo : id ≤ low + 2) : id ∉ setLabels inner := by
      intro member
      have inside := parts.bounds id member
      omega
    rw [perm.nodup_iff]
    refine List.nodup_cons.mpr ⟨?_, List.nodup_cons.mpr ⟨new _ (by omega), parts.distinct⟩⟩
    intro member
    rcases List.mem_cons.mp member with same | member
    · omega
    · exact new _ (by omega) member

end Numbered

@[simp] theorem setLabels_growBy (count : Nat) : setLabels (Symbolic.growBy count) = [] := by
  unfold Symbolic.growBy
  split <;> rfl

@[simp] theorem setLabels_shrinkBy (count : Nat) : setLabels (Symbolic.shrinkBy count) = [] := by
  unfold Symbolic.shrinkBy
  split <;> rfl

mutual

theorem Block.numbered_of_lower (block : Block) {around : Surroundings} {used after : Nat}
    {part : List Symbolic} (lowered : block.lower around used = .ok (part, after)) :
    Numbered used after part := by
  cases block with
  | mk stmts localSlots =>
    obtain ⟨body, inner, rfl⟩ := Block.lower_eq_ok lowered
    have within := Stmt.numbered_of_lowerAll stmts inner
    exact ((Numbered.of_none (setLabels_growBy _)).append within).append
      (.of_none (setLabels_shrinkBy _))

theorem Stmt.numbered_of_lowerAll (stmts : List Stmt) {around : Surroundings} {used after : Nat}
    {part : List Symbolic} (lowered : Stmt.lowerAll around used stmts = .ok (part, after)) :
    Numbered used after part := by
  cases stmts with
  | nil =>
    obtain ⟨rfl, rfl⟩ := Stmt.lowerAll_nil_eq_ok lowered
    exact .of_none rfl
  | cons s rest =>
    obtain ⟨first, between, others, head, tail, rfl⟩ := Stmt.lowerAll_cons_eq_ok lowered
    exact (Stmt.numbered_of_lower s head).append (Stmt.numbered_of_lowerAll rest tail)

theorem Stmt.numbered_of_lower (s : Stmt) {around : Surroundings} {used after : Nat}
    {part : List Symbolic} (lowered : s.lower around used = .ok (part, after)) :
    Numbered used after part := by
  match s with
  | .call _ _ _ _ =>
    obtain ⟨inputs, output, _, _, rfl, rfl⟩ := Stmt.lower_call_eq_ok lowered
    exact .of_none rfl
  | .cond _ thenBlock none =>
    obtain ⟨slot, whenTrue, _, inner, rfl⟩ := Stmt.lower_cond_eq_ok lowered
    apply (Block.numbered_of_lower thenBlock inner).of_perm
    simp
  | .cond _ thenBlock (some elseBlock) =>
    obtain ⟨slot, whenFalse, between, whenTrue, _, first, second, rfl⟩ :=
      Stmt.lower_condElse_eq_ok lowered
    have parts := (Block.numbered_of_lower elseBlock first).append
      (Block.numbered_of_lower thenBlock second)
    apply parts.of_perm
    -- The first label stands between the two parts, the second one behind them.
    have between : (setLabels whenFalse ++ (used + 1) :: (setLabels whenTrue ++ [used + 2])).Perm
        ((used + 1) :: (setLabels whenFalse ++ (setLabels whenTrue ++ [used + 2]))) :=
      List.perm_middle
    have last := List.perm_append_singleton (used + 2) (setLabels (whenFalse ++ whenTrue))
    rw [setLabels_append, List.append_assoc] at last
    simpa using between.trans (last.cons (used + 1))
  | .loop _ (.mk stmts _) _ =>
    obtain ⟨body, inner, rfl⟩ := Stmt.lower_loop_eq_ok lowered
    apply (Stmt.numbered_of_lowerAll stmts inner).of_perm
    simp
  | .leave _ _ =>
    obtain ⟨target, _, rfl, rfl⟩ := Stmt.lower_leave_eq_ok lowered
    exact .of_none (by simp)
  | .block inner =>
    rw [Stmt.lower] at lowered
    exact Block.numbered_of_lower inner lowered

end

end LoopTape
