import LoopTape.Proofs.Symbolic.Faults
import LoopTape.Proofs.Symbolic.Standing
import LoopTape.Proofs.Tree.Relabelling

/-! Trees whose spans are others.

Each site of such a tree is one of the tree itself with its spans changed, so the first one at which
something is wrong is the same. Conditions have no span, but what stands there has, so an error is about the
same construct.
-/

set_option autoImplicit false

namespace LoopTape

def CompileError.displace (f : Span → Span) : CompileError → CompileError
  | .unsupportedExpression callee span => .unsupportedExpression callee (f span)
  | .breakOutsideLoop span => .breakOutsideLoop (f span)
  | .unknownLoopLabel label span => .unknownLoopLabel label (f span)
  | .duplicateLoopLabel label span previous => .duplicateLoopLabel label (f span) (f previous)
  | .unresolvedVariable name => .unresolvedVariable name
  | .undefinedLabel id => .undefinedLabel id

def Enclosing.displace (f : Span → Span) (outer : Enclosing) : Enclosing := ⟨outer.label, f outer.span⟩

/-- The one site is the other with its spans changed. The statement that an argument belongs to does not
count: where spans are known an error is never about it. -/
inductive Site.Displaced (f : Span → Span) : Site → Site → Prop
  | value (e : Expr) (context other : Span) :
    Displaced f (.value e context) (.value (e.relabel (.forgetful f)) other)
  | loop (label : Option String) (span : Span) (around : List Enclosing) :
    Displaced f (.loop label span around) (.loop label (f span) (around.map (·.displace f)))
  | leave (label : Option String) (span : Span) (around : List Enclosing) :
    Displaced f (.leave label span around) (.leave label (f span) (around.map (·.displace f)))

def Site.Known (f : Span → Span) : Site → Prop
  | .value e _ => ∀ name args span, e.stripped = .call name args span →
    span ≠ .unknown ∧ f span ≠ .unknown
  | .loop .. | .leave .. => True

variable {f : Span → Span}

theorem Expr.stripped_relabel (r : Relabelling) (e : Expr) :
    (e.relabel r).stripped = e.stripped.relabel r := by
  cases e with
  | paren inner => exact Expr.stripped_relabel r inner
  | _ => rfl

theorem Stmt.sites_arguments (args : List Expr) (span : Span) :
    List.Forall₂ (Site.Displaced f) (args.map (.value · span))
      ((Expr.relabelAll (.forgetful f) args).map (.value · (f span))) := by
  rw [Expr.relabelAll_eq_map, List.map_map]
  exact List.forall₂_map_left_iff.mpr (List.forall₂_map_right_iff.mpr
    (List.forall₂_same.mpr fun e _ => .value e span (f span)))

mutual

theorem Block.sites_displaced (block : Block) (around : List Enclosing) :
    List.Forall₂ (Site.Displaced f) (block.sites around)
      ((block.relabel (.forgetful f)).sites (around.map (·.displace f))) := by
  cases block with
  | mk stmts localSlots => exact Stmt.sitesAll_displaced stmts around

theorem Stmt.sitesAll_displaced (stmts : List Stmt) (around : List Enclosing) :
    List.Forall₂ (Site.Displaced f) (Stmt.sitesAll around stmts)
      (Stmt.sitesAll (around.map (·.displace f)) (Stmt.relabelAll (.forgetful f) stmts)) := by
  cases stmts with
  | nil => exact .nil
  | cons s rest =>
    exact List.rel_append (Stmt.sites_displaced s around) (Stmt.sitesAll_displaced rest around)

theorem Stmt.sites_displaced (s : Stmt) (around : List Enclosing) :
    List.Forall₂ (Site.Displaced f) (s.sites around)
      ((s.relabel (.forgetful f)).sites (around.map (·.displace f))) := by
  match s with
  | .call result name args span => exact Stmt.sites_arguments args span
  | .cond condition thenBlock none =>
    exact .cons (.value condition _ _) (Block.sites_displaced thenBlock around)
  | .cond condition thenBlock (some elseBlock) =>
    exact .cons (.value condition _ _)
      (List.rel_append (Block.sites_displaced elseBlock around) (Block.sites_displaced thenBlock around))
  | .loop label body span =>
    exact .cons (.loop label span around) (Block.sites_displaced body (⟨label, span⟩ :: around))
  | .leave label span => exact .cons (.leave label span around) .nil
  | .block inner => exact Block.sites_displaced inner around

end

theorem Site.Displaced.sound {site other : Site} (displaced : site.Displaced f other)
    (sound : site.Sound) : other.Sound := by
  cases displaced with
  | value e context other =>
    obtain ⟨v, bare⟩ := sound_value.mp sound
    exact sound_value.mpr ⟨v.relabel _, by rw [Expr.stripped_relabel, bare]; rfl⟩
  | loop label span around =>
    cases label with
    | none => exact sound_loop_none
    | some name => exact sound_loop_some.mpr (List.forall_mem_map.mpr (sound_loop_some.mp sound))
  | leave label span around =>
    cases label with
    | none => exact sound_leave_none.mpr (by simpa using sound_leave_none.mp sound)
    | some name =>
      obtain ⟨outer, member, same⟩ := sound_leave_some.mp sound
      exact sound_leave_some.mpr ⟨_, List.mem_map_of_mem member, same⟩

theorem Site.Displaced.violates {site other : Site} (displaced : site.Displaced f other)
    (known : site.Known f) {e : CompileError} (violated : site.Violates knownPlace e) :
    other.Violates knownPlace (e.displace f) := by
  cases displaced with
  | value expr context place =>
    cases violated with
    | @call _ _ name args span call =>
      obtain ⟨before, after⟩ := known name args span call
      have moved : (expr.relabel (.forgetful f)).stripped =
          .call name (Expr.relabelAll (.forgetful f) args) (f span) := by
        rw [Expr.stripped_relabel, call]
        rfl
      have fault := @Violates.call knownPlace _ place _ _ _ moved
      rw [knownPlace, if_neg after] at fault
      rw [knownPlace, if_neg before]
      exact fault
  | loop label span around =>
    cases violated with
    | duplicate member same => exact .duplicate (List.mem_map_of_mem member) same
  | leave label span around =>
    cases violated with
    | outside => exact .outside
    | unknown others => exact .unknown (List.forall_mem_map.mpr others)

theorem FirstFault.displaced {sites others : List Site}
    (displaced : List.Forall₂ (Site.Displaced f) sites others) (known : ∀ site ∈ sites, site.Known f)
    {e : CompileError} (fault : FirstFault knownPlace sites e) :
    FirstFault knownPlace others (e.displace f) := by
  obtain ⟨before, site, behind, rfl, sound, violated⟩ := fault
  induction before generalizing others with
  | nil =>
    cases displaced with
    | cons here later =>
      have moved := here.violates (known site List.mem_cons_self) violated
      exact ⟨[], _, _, rfl, List.forall_mem_nil _, moved⟩
  | cons first before ih =>
    cases displaced with
    | cons here later =>
      obtain ⟨firstSound, restSound⟩ := List.forall_mem_cons.mp sound
      obtain ⟨_, restKnown⟩ := List.forall_mem_cons.mp known
      obtain ⟨front, other, back, rfl, others, fault⟩ := ih later restKnown restSound
      exact ⟨_ :: front, other, back, rfl, List.forall_mem_cons.mpr ⟨here.sound firstSound, others⟩, fault⟩

/-- A tree whose spans are others is refused for the same construct. -/
theorem Block.compile_displaced {root : Block} (known : ∀ site ∈ root.sites [], site.Known f)
    {e : CompileError} (failed : root.compile = .error e) :
    (root.relabel (.forgetful f)).compile = .error (e.displace f) := by
  have fault := root.settles_compile.error_iff.mp failed
  have displaced := Block.sites_displaced (f := f) root []
  exact (root.relabel (.forgetful f)).settles_compile.error_iff.mpr (fault.displaced displaced known)

end LoopTape
