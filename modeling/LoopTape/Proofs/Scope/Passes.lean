import LoopTape.Proofs.Scope.Lookup
import LoopTape.Proofs.Scope.Nesting

/-! The two walks choose the slots that the names themselves determine.

While the first walk stands in a block, the names that are found from there are those that occurred in
the open blocks so far. So a block declares the names that are new when they occur, and the frames end up
as the tree tells. What the walk notes for an occurrence still stands for the same name in the final
arena, and the second walk reads exactly these notes.
-/

set_option autoImplicit false

namespace LoopTape

def Arena.unlaid (arena : Arena) : Arena := arena.map fun frame => { frame with base := 0 }

theorem run_return {σ α β : Type} {first : StateM σ α} {state after : σ} {a : α} (f : α → β)
    (ran : first.run state = (a, after)) :
    (do return f (← first) : StateM σ β).run state = (f a, after) := by
  show (match first.run state with | (a, after) => (f a, after)) = _
  rw [ran]

theorem run_return₂ {σ α β γ : Type} {first : StateM σ α} {later : StateM σ β}
    {state mid after : σ} {a : α} {b : β} (f : α → β → γ) (ran : first.run state = (a, mid))
    (behind : later.run mid = (b, after)) :
    (do return f (← first) (← later) : StateM σ γ).run state = (f a b, after) := by
  show (match first.run state with
    | (a, mid) => match later.run mid with | (b, after) => (f a b, after)) = _
  rw [ran]
  dsimp only
  rw [behind]

namespace Binder

/-- The binder behind a part of a block: the names that the part declares in the block, the frames of
the blocks in it, and the bindings of its occurrences. -/
def extend (binder : Binder) (id : Nat) (added : List String) (inner : Arena)
    (recorded : List Binding) : Binder :=
  { binder with
    arena := binder.arena.modify id (·.declare added) ++ inner
    bindings := binder.bindings ++ recorded }

/-- The open blocks are in the arena, and the names found from the innermost one are those in `seen`. -/
structure Inside (binder : Binder) (seen : List String) : Prop where
  below : ∀ id ∈ binder.stack, id < binder.arena.length
  sees : ∀ name, name ∈ seen ↔
    ∃ id, binder.stack.head? = some id ∧ (binder.arena.binding? name id).isSome

theorem Inside.binding?_eq_none {binder : Binder} {seen : List String} {id : Nat}
    {outer : List Nat} (inside : binder.Inside seen) (stack : binder.stack = id :: outer)
    {name : String} (unseen : name ∉ seen) : binder.arena.binding? name id = none := by
  rw [inside.sees, not_exists] at unseen
  have notFound := unseen id
  rw [stack, List.head?_cons, not_and] at notFound
  simpa using notFound rfl

end Binder

/-- What both walks make of a part of a block. The first walk ends in `after`, and in `second` the second
walk goes over the same part in the arena that everything ends up in. It uses up the bindings that the
first one added, and yields the part with the slots of the frames around it. -/
def Walked {α : Type} (binder after : Binder) (id : Nat) (added : List String) (inner : Nat → Arena)
    (second : Arena → StateM (List Binding) α) (bound : Frames → α) : Prop :=
  ∃ recorded, (∀ base, after = binder.extend id added (inner base).unlaid recorded) ∧
    ∀ whole frames, after.arena.Grows whole → whole.Chain binder.stack frames →
      whole.Lists binder.arena.length (inner frames.top) →
        ∀ rest, (second whole).run (recorded ++ rest) = (bound frames, rest)

section

variable {α β γ : Type} {binder mid after : Binder} {id : Nat} {outer : List Nat}
  {seen names more : List String} {added : List String} {inner inner₁ inner₂ : Nat → Arena}
  {second : Arena → StateM (List Binding) α} {bound : Frames → α}

theorem Walked.stack_eq (walked : Walked binder after id added inner second bound) :
    after.stack = binder.stack := by
  obtain ⟨recorded, reached, -⟩ := walked
  rw [reached 0]
  rfl

theorem Walked.length_arena (walked : Walked binder after id added inner second bound)
    (base : Nat) : after.arena.length = binder.arena.length + (inner base).length := by
  obtain ⟨recorded, reached, -⟩ := walked
  rw [reached base]
  simp [Binder.extend, Arena.unlaid]

theorem Walked.inside (walked : Walked binder after id (newNames seen names) inner second bound)
    (inside : binder.Inside seen) (stack : binder.stack = id :: outer) :
    after.Inside (seen ++ names) := by
  have kept := walked.stack_eq
  have longer := walked.length_arena 0
  obtain ⟨recorded, reached, -⟩ := walked
  constructor
  · intro other member
    have := inside.below other (kept ▸ member)
    omega
  · intro name
    have here : id < binder.arena.length := inside.below id (stack ▸ List.mem_cons_self)
    have found := Arena.isSome_binding?_declare here
      (congrArg Binder.arena (reached 0)) name
    have before := inside.sees name
    rw [stack, List.head?_cons] at before
    simp only [kept, stack, List.head?_cons, Option.some.injEq, exists_eq_left'] at before ⊢
    rw [found, ← before, List.mem_append, mem_newNames]
    by_cases known : name ∈ seen <;> simp [known]

theorem Walked.grows (walked : Walked binder after id (newNames seen names) inner second bound)
    (inside : binder.Inside seen) (stack : binder.stack = id :: outer) :
    binder.arena.Grows after.arena := by
  obtain ⟨recorded, reached, -⟩ := walked
  rw [reached 0]
  apply Arena.grows_declare
  intro name member
  exact inside.binding?_eq_none stack (mem_newNames.mp member).2

theorem Walked.pure (binder : Binder) (id : Nat) (seen : List String) (value : α) :
    Walked binder binder id (newNames seen []) (fun _ => []) (fun _ => Pure.pure value)
      (fun _ => value) := by
  refine ⟨[], fun base => ?_, fun _ _ _ _ _ _ => rfl⟩
  simp [Binder.extend, newNames, Arena.modify_declare_nil, Arena.unlaid]

theorem Walked.map (f : α → β) (walked : Walked binder after id added inner second bound) :
    Walked binder after id added inner (fun whole => return f (← second whole))
      (fun frames => f (bound frames)) := by
  obtain ⟨recorded, reached, slots⟩ := walked
  refine ⟨recorded, reached, fun whole frames settled chain lists rest => ?_⟩
  exact run_return f (slots whole frames settled chain lists rest)

theorem Walked.andThen {second₁ : Arena → StateM (List Binding) α} {bound₁ : Frames → α}
    {second₂ : Arena → StateM (List Binding) β} {bound₂ : Frames → β} (combine : α → β → γ)
    (first : Walked binder mid id (newNames seen names) inner₁ second₁ bound₁)
    (later : Walked mid after id (newNames (seen ++ names) more) inner₂ second₂ bound₂)
    (inside : binder.Inside seen) (stack : binder.stack = id :: outer) :
    Walked binder after id (newNames seen (names ++ more)) (fun base => inner₁ base ++ inner₂ base)
      (fun whole => return combine (← second₁ whole) (← second₂ whole))
      (fun frames => combine (bound₁ frames) (bound₂ frames)) := by
  have grows := later.grows (first.inside inside stack) (first.stack_eq.trans stack)
  have kept := first.stack_eq
  have longer := first.length_arena
  obtain ⟨recorded₁, reached₁, slots₁⟩ := first
  obtain ⟨recorded₂, reached₂, slots₂⟩ := later
  refine ⟨recorded₁ ++ recorded₂, fun base => ?_, fun whole frames settled chain lists rest => ?_⟩
  · have here : id < binder.arena.length := inside.below id (stack ▸ List.mem_cons_self)
    rw [reached₂ base, reached₁ base, newNames_append]
    simp only [Binder.extend, Arena.modify_declare_append here, Arena.unlaid, List.map_append,
      List.append_assoc]
  · have firstSlots := slots₁ whole frames (grows.trans settled) chain lists.left
      (recorded₂ ++ rest)
    have laterSlots := slots₂ whole frames settled (kept ▸ chain)
      (longer frames.top ▸ lists.right) rest
    rw [List.append_assoc]
    exact run_return₂ combine firstSlots laterSlots

end

theorem Arena.Chain.slotOf?_binding? {whole : Arena} {id : Nat} {outer : List Nat} {frames : Frames}
    (chain : whole.Chain (id :: outer) frames) (name : String) :
    (whole.binding? name id).bind whole.slotOf? = frames.slot? name := by
  generalize start : id :: outer = ids at chain
  induction chain generalizing id outer with
  | nil => cases start
  | @cons id' outer' names frames listed before around ih =>
    cases start
    rw [Frames.slot?, List.findSome?_cons]
    cases position : names.idxOf? name with
    | some index =>
      rw [Arena.binding?_of_index listed position]
      simp [Frame.slot?, position, Arena.slotOf?, listed]
    | none =>
      rw [Arena.binding?_of_missing listed (List.idxOf?_eq_none_iff.mp position)]
      simp only [Frame.slot?, position, Option.map_none]
      cases outer' with
      | nil =>
        cases around
        rfl
      | cons next beyond =>
        rw [List.head?_cons, Option.bind_some, if_pos (before next List.mem_cons_self)]
        exact ih rfl

theorem Arena.binding?_declare_new {arena : Arena} {id : Nat} {name : String}
    (inside : id < arena.length) (unknown : arena.binding? name id = none) :
    binding? (arena.modify id (·.declare [name])) name id =
      some ⟨id, (arena.names id).length⟩ := by
  have listed : arena[id]? = some arena[id] := List.getElem?_eq_getElem inside
  have missing : name ∉ arena[id].names := by
    intro own
    have found := (isSome_binding? listed).mpr (.inl own)
    rw [unknown] at found
    cases found
  have declared : (arena.modify id (·.declare [name]))[id]? = some (arena[id].declare [name]) := by
    rw [List.getElem?_modify, listed]
    simp
  have position : (arena[id].declare [name]).names.idxOf? name = some arena[id].names.length := by
    rw [List.idxOf?_eq_some_iff]
    refine ⟨by simp [NestedFrame.declare], by simp [NestedFrame.declare], ?_⟩
    intro index before same
    rw [← same] at missing
    simp [NestedFrame.declare, List.getElem_append_left before] at missing
  rw [binding?_of_index declared position, names, listed]
  rfl

/-- What is noted at an occurrence is what is found for its name from then on. -/
theorem Binder.visit_eq {binder : Binder} {seen : List String} {id : Nat} {outer : List Nat}
    (inside : binder.Inside seen) (stack : binder.stack = id :: outer) (name : String) :
    ∃ found, binder.visit name = binder.extend id (newNames seen [name]) [] [found] ∧
      (binder.visit name).arena.binding? name id = some found := by
  have here : id < binder.arena.length := inside.below id (stack ▸ List.mem_cons_self)
  have sees := inside.sees name
  simp only [stack, List.head?_cons, Option.some.injEq, exists_eq_left'] at sees
  rw [newNames_singleton]
  cases known : binder.arena.binding? name id with
  | some found =>
    have visited : binder.visit name =
        { binder with bindings := binder.bindings ++ [found] } := by
      simp only [visit, stack, known]
    rw [if_pos (sees.mpr (by rw [known]; rfl)), visited]
    exact ⟨found, by simp [extend, Arena.modify_declare_nil], known⟩
  | none =>
    have visited : binder.visit name =
        { binder with
          arena := binder.arena.modify id (·.declare [name])
          bindings := binder.bindings ++ [⟨id, (binder.arena.names id).length⟩] } := by
      simp only [visit, stack, known]
    rw [if_neg (by rw [sees, known]; nofun), visited]
    exact ⟨_, by simp [extend], Arena.binding?_declare_new here known⟩

theorem Variable.walked (v : Variable) {binder : Binder} {seen : List String} {id : Nat}
    {outer : List Nat} (inside : binder.Inside seen) (stack : binder.stack = id :: outer) :
    Walked binder (binder.visit v.name) id (newNames seen [v.name]) (fun _ => [])
      (fun whole => whole.assigner.visit v) (v.bind ·) := by
  obtain ⟨found, visited, noted⟩ := Binder.visit_eq inside stack v.name
  refine ⟨[found], fun base => visited, fun whole frames settled chain lists rest => ?_⟩
  have slot := (stack ▸ chain).slotOf?_binding? v.name
  rw [settled.binding? noted, Option.bind_some] at slot
  show ((⟨v.name, whole.slotOf? found⟩, rest) : Variable × List Binding) = (v.bind frames, rest)
  rw [slot]
  rfl

mutual

theorem Expr.walked (e : Expr) {binder : Binder} {seen : List String} {id : Nat}
    {outer : List Nat} (inside : binder.Inside seen) (stack : binder.stack = id :: outer) :
    Walked binder ((e.walk Binder.visitor).run binder).2 id
      (newNames seen (e.variables.map Variable.name)) (fun _ => [])
      (fun whole => ((e.walk Binder.visitor).run binder).1.walk whole.assigner) (e.bind ·) := by
  match e with
  | .variable v => exact (v.walked inside stack).map Expr.variable
  | .paren inner => exact (Expr.walked inner inside stack).map Expr.paren
  | .call name args span => exact (Expr.walkedAll args inside stack).map (Expr.call name · span)

theorem Expr.walkedAll (args : List Expr) {binder : Binder} {seen : List String} {id : Nat}
    {outer : List Nat} (inside : binder.Inside seen) (stack : binder.stack = id :: outer) :
    Walked binder ((Expr.walkAll Binder.visitor args).run binder).2 id
      (newNames seen ((Expr.variablesAll args).map Variable.name)) (fun _ => [])
      (fun whole => Expr.walkAll whole.assigner ((Expr.walkAll Binder.visitor args).run binder).1)
      (Expr.bindAll · args) := by
  cases args with
  | nil => exact Walked.pure binder id seen []
  | cons e rest =>
    have first := Expr.walked e inside stack
    have later := Expr.walkedAll rest (first.inside inside stack) (first.stack_eq.trans stack)
    rw [Expr.variablesAll, List.map_append]
    exact first.andThen List.cons later inside stack

end

theorem Binder.length_arena_enter (binder : Binder) :
    binder.enter.arena.length = binder.arena.length + 1 := List.length_append

theorem Binder.Inside.enter {binder : Binder} {seen : List String} (inside : binder.Inside seen) :
    binder.enter.Inside seen := by
  have listed : binder.enter.arena[binder.arena.length]? =
      some ⟨⟨[], 0⟩, binder.stack.head?⟩ := List.getElem?_concat_length
  constructor
  · intro id member
    rw [Binder.length_arena_enter]
    rcases List.mem_cons.mp member with rfl | outer
    · omega
    · have := inside.below id outer
      omega
  · intro name
    -- The new frame has no names, so all that is found is found from the block around it.
    have around : ∀ outer < binder.arena.length,
        binder.enter.arena.binding? name outer = binder.arena.binding? name outer := by
      intro outer before
      apply Arena.binding?_congr
      intro other bound
      exact List.getElem?_append_left (by omega)
    rw [inside.sees, show binder.enter.stack.head? = some binder.arena.length from rfl]
    simp only [Option.some.injEq, exists_eq_left', Arena.isSome_binding? listed, List.not_mem_nil,
      false_or]
    constructor
    · rintro ⟨outer, innermost, found⟩
      have before := inside.below outer (List.mem_of_mem_head? innermost)
      exact ⟨outer, innermost, before, around outer before ▸ found⟩
    · rintro ⟨outer, innermost, before, found⟩
      exact ⟨outer, innermost, around outer before ▸ found⟩

theorem Walked.leaveBlock {binder after : Binder} {seen names : List String} {inner : Nat → Arena}
    {second : Arena → StateM (List Binding) (List Stmt)} {bound : Frames → List Stmt}
    (body : Walked binder.enter after binder.arena.length (newNames seen names) inner second bound)
    (inside : binder.Inside seen) (id slots : Nat) :
    Walked binder (after.leave slots).2 id (newNames seen [])
      (fun base => ⟨⟨newNames seen names, base⟩, binder.stack.head?⟩ ::
        inner (base + (newNames seen names).length))
      (fun whole => return Block.mk (← second whole) (after.leave slots).1)
      (fun frames => Block.mk (bound (⟨newNames seen names, frames.top⟩ :: frames))
        (newNames seen names).length) := by
  obtain ⟨recorded, reached, slotted⟩ := body
  have arena : ∀ base, after.arena = binder.arena ++
      ⟨⟨newNames seen names, 0⟩, binder.stack.head?⟩ :: (inner base).unlaid := by
    intro base
    rw [reached base]
    simp only [Binder.extend, Binder.enter, Arena.modify_between, List.append_assoc]
    rfl
  have stack : after.stack = binder.arena.length :: binder.stack := by
    rw [reached 0]
    rfl
  have counted : (after.arena.names binder.arena.length).length = (newNames seen names).length := by
    rw [arena 0, Arena.names, List.getElem?_append_right (Nat.le_refl _), Nat.sub_self]
    rfl
  refine ⟨recorded, fun base => ?_, fun whole frames settled chain lists rest => ?_⟩
  · have noted : after.bindings = binder.bindings ++ recorded := by
      rw [reached 0]
      rfl
    simp only [Binder.leave, stack, arena (base + (newNames seen names).length), noted]
    simp only [Binder.extend, newNames, List.eraseDups_nil, List.filter_nil,
      Arena.modify_declare_nil]
    rfl
  · simp only [Binder.leave, stack, counted] at settled ⊢
    have listed := lists.head
    have own := Arena.Chain.cons listed inside.below chain
    have later := lists.tail
    rw [← Binder.length_arena_enter] at later
    exact run_return (Block.mk · (newNames seen names).length) (slotted whole _ settled own later rest)

mutual

theorem Block.walked (block : Block) {binder : Binder} {seen : List String} (id : Nat)
    (inside : binder.Inside seen) :
    Walked binder ((block.walk Binder.visitor).run binder).2 id (newNames seen [])
      (fun base => block.arenaFrom binder.arena.length binder.stack base seen)
      (fun whole => ((block.walk Binder.visitor).run binder).1.walk whole.assigner)
      (block.bind · seen) := by
  cases block with
  | mk stmts slots =>
    have body := (Stmt.walkedAll stmts inside.enter rfl).leaveBlock inside id slots
    rw [Binder.length_arena_enter] at body
    exact body

theorem Stmt.walkedAll (stmts : List Stmt) {binder : Binder} {seen : List String} {id : Nat}
    {outer : List Nat} (inside : binder.Inside seen) (stack : binder.stack = id :: outer) :
    Walked binder ((Stmt.walkAll Binder.visitor stmts).run binder).2 id
      (newNames seen (ownNames stmts))
      (fun base => Stmt.arenaAllFrom binder.arena.length binder.stack base seen stmts)
      (fun whole => Stmt.walkAll whole.assigner ((Stmt.walkAll Binder.visitor stmts).run binder).1)
      (Stmt.bindAll · seen stmts) := by
  cases stmts with
  | nil => exact Walked.pure binder id seen []
  | cons s rest =>
    have first := Stmt.walked s inside stack
    have later := Stmt.walkedAll rest (first.inside inside stack) (first.stack_eq.trans stack)
    have joined := first.andThen List.cons later inside stack
    simp only [first.length_arena 0, Stmt.length_arenaFrom, first.stack_eq,
      ← Stmt.arenaAllFrom_cons, ← ownNames_append] at joined
    exact joined

theorem Stmt.walked (s : Stmt) {binder : Binder} {seen : List String} {id : Nat}
    {outer : List Nat} (inside : binder.Inside seen) (stack : binder.stack = id :: outer) :
    Walked binder ((s.walk Binder.visitor).run binder).2 id (newNames seen (ownNames [s]))
      (fun base => s.arenaFrom binder.arena.length binder.stack base (seen ++ ownNames [s]))
      (fun whole => ((s.walk Binder.visitor).run binder).1.walk whole.assigner)
      (s.bind · (seen ++ ownNames [s])) := by
  match s with
  | .cond condition thenBlock none =>
    have first := condition.walked inside stack
    have later := Block.walked thenBlock id (first.inside inside stack)
    have joined := first.andThen (Stmt.cond · · none) later inside stack
    simp only [first.length_arena 0, List.length_nil, Nat.add_zero, first.stack_eq,
      List.append_nil, List.nil_append] at joined
    rw [ownNames_singleton]
    exact joined
  | .cond condition thenBlock (some elseBlock) =>
    have first := condition.walked inside stack
    have behind := first.inside inside stack
    have whenTrue := Block.walked thenBlock id behind
    have chosen := first.andThen Prod.mk whenTrue inside stack
    have afterwards := chosen.inside inside stack
    rw [List.append_nil] at afterwards
    have whenFalse := Block.walked elseBlock id afterwards
    rw [← List.append_nil (condition.variables.map Variable.name)] at whenFalse
    have joined := chosen.andThen (fun c e => Stmt.cond c.1 c.2 (some e)) whenFalse inside stack
    simp only [chosen.length_arena 0, first.length_arena 0, List.length_nil, Nat.add_zero,
      first.stack_eq, whenTrue.stack_eq, Block.length_arenaFrom,
      List.append_nil, List.nil_append] at joined
    simp only [ownNames_singleton, Stmt.ownVariables, Stmt.arenaFrom_cond]
    exact joined
  | .loop label body span =>
    simp only [ownNames_singleton, Stmt.ownVariables, List.map_nil, List.append_nil]
    exact (Block.walked body id inside).map (Stmt.loop label · span)
  | .leave label span => exact Walked.pure binder id seen _
  | .call none name args span =>
    rw [ownNames_singleton]
    exact (Expr.walkedAll args inside stack).map (Stmt.call none name · span)
  | .call (some result) name args span =>
    have first := result.walked inside stack
    have later := Expr.walkedAll args (first.inside inside stack) (first.stack_eq.trans stack)
    have joined := first.andThen (fun v args => Stmt.call (some v) name args span) later inside stack
    rw [ownNames_singleton]
    exact joined
  | .block inner =>
    simp only [ownNames_singleton, Stmt.ownVariables, List.map_nil, List.append_nil]
    exact (Block.walked inner id inside).map Stmt.block

end

theorem Arena.Chain.base_eq {arena : Arena} {id : Nat} {outer : List Nat} {frames : Frames}
    (chain : arena.Chain (id :: outer) frames) :
    ∃ frame, arena[id]? = some frame ∧ frame.base = arena.topOf frame.parent ∧
      ∀ parent, frame.parent = some parent → parent < id := by
  cases chain with
  | cons listed before around =>
    refine ⟨_, listed, ?_, fun parent innermost => before parent (List.mem_of_mem_head? innermost)⟩
    cases around with
    | nil => rfl
    | cons outside _ _ =>
      simp only [topOf, List.head?_cons, Option.bind_some, outside]
      rfl

def Arena.laidTo (whole : Arena) (count : Nat) : Arena :=
  whole.take count ++ unlaid (whole.drop count)

theorem Arena.modify_laidTo {whole : Arena} {count : Nat} {frame : NestedFrame}
    (listed : whole[count]? = some frame) (base : frame.base = whole.topOf frame.parent)
    (earlier : ∀ parent, frame.parent = some parent → parent < count) :
    (whole.laidTo count).modify count (fun waiting =>
      { waiting with base := (whole.laidTo count).topOf waiting.parent }) =
      whole.laidTo (count + 1) := by
  obtain ⟨bound, here⟩ := List.getElem?_eq_some_iff.mp listed
  have length : (whole.take count).length = count := List.length_take_of_le (by omega)
  have split : whole.laidTo count =
      whole.take count ++ { frame with base := 0 } :: unlaid (whole.drop (count + 1)) := by
    rw [laidTo, List.drop_eq_getElem_cons bound, here]
    rfl
  have sameTop : (whole.laidTo count).topOf frame.parent = frame.base := by
    rw [base]
    unfold topOf
    cases parent : frame.parent with
    | none => rfl
    | some other =>
      have before := earlier other parent
      rw [Option.bind_some, Option.bind_some, laidTo, List.getElem?_append_left (by omega),
        List.getElem?_take_of_lt before]
  have modified := modify_between (whole.take count) (unlaid (whole.drop (count + 1)))
    { frame with base := 0 } fun waiting =>
      { waiting with base := (whole.laidTo count).topOf waiting.parent }
  rw [length, ← split, sameTop] at modified
  rw [modified, laidTo, List.take_add_one, listed]
  simp

theorem Arena.layout_unlaid {whole : Arena}
    (chained : ∀ id < whole.length, ∃ outer frames, whole.Chain (id :: outer) frames) :
    whole.unlaid.layout = whole := by
  have laid : ∀ count ≤ whole.length,
      (List.range count).foldl (fun laid id =>
        laid.modify id fun frame => { frame with base := laid.topOf frame.parent }) whole.unlaid =
      whole.laidTo count := by
    intro count
    induction count with
    | zero => exact fun _ => rfl
    | succ count ih =>
      intro bound
      obtain ⟨outer, frames, chain⟩ := chained count bound
      obtain ⟨frame, listed, base, earlier⟩ := chain.base_eq
      rw [List.range_succ, List.foldl_append, ih (by omega)]
      exact modify_laidTo listed base earlier
  rw [layout, show whole.unlaid.length = whole.length from List.length_map _,
    laid whole.length (Nat.le_refl _)]
  simp [laidTo, unlaid]

theorem Block.frames_of_allChains {root : Block} {chain : List Nat}
    (member : chain ∈ root.allChains) : ∃ frames, root.arena.Chain chain frames :=
  root.frames_of_chain .nil (fun _ outside => nomatch outside) (Arena.lists_self _) chain member

theorem Block.length_arena (root : Block) : root.arena.length = root.blocks.length :=
  root.length_arenaFrom 0 [] 0 []

theorem Block.chain_of_lt {root : Block} {id : Nat} (inside : id < root.arena.length) :
    ∃ outer frames, id :: outer ∈ root.allChains ∧ root.arena.Chain (id :: outer) frames := by
  rw [length_arena, ← root.length_chains 0 []] at inside
  have listed : root.allChains[id]? = some root.allChains[id] := List.getElem?_eq_getElem inside
  obtain ⟨outer, split⟩ := List.head?_eq_some_iff.mp (Block.head?_of_allChains listed)
  have member := List.mem_of_getElem? listed
  rw [split] at member
  obtain ⟨frames, chain⟩ := Block.frames_of_allChains member
  exact ⟨outer, frames, member, chain⟩

/-- Both walks together bind every variable as the names around it tell. -/
theorem Block.resolveInArena_eq (root : Block) :
    root.resolveInArena = (root.resolve, root.arena) := by
  have inside : Binder.empty.Inside [] := ⟨(fun _ member => nomatch member), by simp [Binder.empty]⟩
  obtain ⟨recorded, reached, slotted⟩ := root.walked 0 inside
  have bound : ((root.walk Binder.visitor).run .empty).2 =
      ⟨root.arena.unlaid, [], recorded⟩ := reached 0
  have laid : root.arena.unlaid.layout = root.arena :=
    Arena.layout_unlaid fun id inside =>
      have ⟨outer, frames, _, chain⟩ := Block.chain_of_lt inside
      ⟨outer, frames, chain⟩
  have settled : root.arena.unlaid.Grows root.arena := by
    intro id frame listed
    rw [Arena.unlaid, List.getElem?_map, Option.map_eq_some_iff] at listed
    obtain ⟨laidFrame, there, rfl⟩ := listed
    exact ⟨laidFrame, [], there, (List.append_nil _).symm, rfl, nofun⟩
  have second := slotted root.arena [] (bound ▸ settled) .nil (Arena.lists_self _) []
  rw [List.append_nil] at second
  unfold resolveInArena
  generalize (root.walk Binder.visitor).run .empty = first at bound second ⊢
  obtain ⟨counted, binder⟩ := first
  cases bound
  show (((counted.walk root.arena.unlaid.layout.assigner).run recorded).1,
    root.arena.unlaid.layout) = (root.resolve, root.arena)
  rw [laid, second]
  rfl

end LoopTape
