import LoopTape.Symbolic.Fault
import LoopTape.Tree.Basic

/-! What a tree must satisfy to have code.

A site is a place of a tree that code can be refused for: an argument or a condition that is no
variable, a break that leaves nothing, a loop inside another one of the same label. The sites are listed
in the order in which the tree is lowered.
-/

set_option autoImplicit false

namespace LoopTape

def Expr.stripped : Expr → Expr
  | .variable v => .variable v
  | .paren inner => inner.stripped
  | .call name args span => .call name args span

structure Enclosing where
  label : Option String
  span : Span
  deriving Repr, DecidableEq

/-- An argument has its statement's place as its context, and a condition has none. The loops around a
site are listed with the innermost first. -/
inductive Site where
  | value (e : Expr) (context : Span)
  | loop (label : Option String) (span : Span) (around : List Enclosing)
  | leave (label : Option String) (span : Span) (around : List Enclosing)

mutual

def Block.sites (around : List Enclosing) : Block → List Site
  | .mk stmts _ => Stmt.sitesAll around stmts

def Stmt.sitesAll (around : List Enclosing) : List Stmt → List Site
  | [] => []
  | s :: rest => s.sites around ++ Stmt.sitesAll around rest

/-- The second block of a choice is lowered before the first one. -/
def Stmt.sites (around : List Enclosing) : Stmt → List Site
  | .call _ _ args span => args.map (.value · span)
  | .cond condition thenBlock none => .value condition .unknown :: thenBlock.sites around
  | .cond condition thenBlock (some elseBlock) =>
    .value condition .unknown :: (elseBlock.sites around ++ thenBlock.sites around)
  | .loop label body span => .loop label span around :: body.sites (⟨label, span⟩ :: around)
  | .leave label span => [.leave label span around]
  | .block inner => inner.sites around

end

/-- The error that says what is wrong at a site. A call is reported at a place that may depend on the
statement that it is an argument of, and everything else where it stands. -/
inductive Site.Violates (place : Span → Span → Span) : Site → CompileError → Prop
  | call {e : Expr} {context : Span} {name : String} {args : List Expr} {span : Span} :
      e.stripped = .call name args span →
      Violates place (.value e context) (.unsupportedExpression name (place context span))
  | outside {span : Span} : Violates place (.leave none span []) (.breakOutsideLoop span)
  | unknown {label : String} {span : Span} {around : List Enclosing} :
      (∀ outer ∈ around, outer.label ≠ some label) →
      Violates place (.leave (some label) span around) (.unknownLoopLabel label span)
  | duplicate {label : String} {span : Span} {around : List Enclosing} {outer : Enclosing} :
      outer ∈ around → outer.label = some label →
      Violates place (.loop (some label) span around) (.duplicateLoopLabel label span outer.span)

/-- Calls are reported where they stand. -/
def ownPlace (_context span : Span) : Span := span

/-- Calls that were not read from a text are reported at the statement that they are arguments of. -/
def knownPlace (context span : Span) : Span := if span = .unknown then context else span

def Site.Sound (site : Site) : Prop := ∀ place e, ¬ site.Violates place e

/-- The error is that of the first site at which something is wrong. -/
def FirstFault (place : Span → Span → Span) (sites : List Site) (e : CompileError) : Prop :=
  ∃ before site behind, sites = before ++ site :: behind ∧
    (∀ earlier ∈ before, earlier.Sound) ∧ site.Violates place e

structure Block.Valid (root : Block) : Prop where
  values : ∀ e context, .value e context ∈ root.sites [] → ∃ v, e.stripped = .variable v
  breaks : ∀ span around, .leave none span around ∈ root.sites [] → around ≠ []
  labelledBreaks : ∀ label span around, .leave (some label) span around ∈ root.sites [] →
    ∃ outer ∈ around, outer.label = some label
  labelledLoops : ∀ label span around, .loop (some label) span around ∈ root.sites [] →
    ∀ outer ∈ around, outer.label ≠ some label

theorem Expr.stripped_eq (e : Expr) :
    (∃ v, e.stripped = .variable v) ∨ ∃ name args span, e.stripped = .call name args span := by
  cases e with
  | «variable» v => exact .inl ⟨v, rfl⟩
  | paren inner => exact Expr.stripped_eq inner
  | call name args span => exact .inr ⟨name, args, span, rfl⟩

namespace Site

theorem sound_value {e : Expr} {context : Span} :
    (value e context).Sound ↔ ∃ v, e.stripped = .variable v := by
  constructor
  · intro sound
    rcases e.stripped_eq with bare | ⟨name, args, span, call⟩
    · exact bare
    · exact absurd (.call call) (sound ownPlace _)
  · rintro ⟨v, bare⟩ _ e violated
    cases violated with
    | call call => exact nomatch bare.symm.trans call

theorem sound_leave_none {span : Span} {around : List Enclosing} :
    (leave none span around).Sound ↔ around ≠ [] := by
  constructor
  · rintro sound rfl
    exact sound ownPlace _ .outside
  · intro inside _ e violated
    cases violated with
    | outside => exact inside rfl

theorem sound_leave_some {label : String} {span : Span} {around : List Enclosing} :
    (leave (some label) span around).Sound ↔ ∃ outer ∈ around, outer.label = some label := by
  constructor
  · intro sound
    apply Classical.byContradiction
    intro missing
    exact sound ownPlace _ (.unknown fun outer member same => missing ⟨outer, member, same⟩)
  · rintro ⟨outer, member, same⟩ _ e violated
    cases violated with
    | unknown missing => exact missing outer member same

theorem sound_loop_none {span : Span} {around : List Enclosing} :
    (loop none span around).Sound := nofun

theorem sound_loop_some {label : String} {span : Span} {around : List Enclosing} :
    (loop (some label) span around).Sound ↔ ∀ outer ∈ around, outer.label ≠ some label := by
  constructor
  · intro sound outer member same
    exact sound ownPlace _ (.duplicate member same)
  · intro others _ e violated
    cases violated with
    | duplicate member same => exact others _ member same

end Site

/-- A tree is valid exactly if nothing is wrong at any of its sites. -/
theorem Block.valid_iff {root : Block} : root.Valid ↔ ∀ site ∈ root.sites [], site.Sound := by
  constructor
  · intro valid site member
    match site with
    | .value e context => exact Site.sound_value.mpr (valid.values e context member)
    | .leave none span around => exact Site.sound_leave_none.mpr (valid.breaks span around member)
    | .leave (some label) span around =>
      exact Site.sound_leave_some.mpr (valid.labelledBreaks label span around member)
    | .loop none span around => exact Site.sound_loop_none
    | .loop (some label) span around =>
      exact Site.sound_loop_some.mpr (valid.labelledLoops label span around member)
  · intro sound
    constructor
    case values => exact fun e context member => Site.sound_value.mp (sound _ member)
    case breaks => exact fun span around member => Site.sound_leave_none.mp (sound _ member)
    case labelledBreaks =>
      exact fun label span around member => Site.sound_leave_some.mp (sound _ member)
    case labelledLoops =>
      exact fun label span around member => Site.sound_loop_some.mp (sound _ member)

/-- What a computation gave that checks sites from the first to the last. No second error fits the site
that it failed at. -/
inductive Settles {α : Type} (sites : List Site) : Except CompileError α → Prop
  | passed (a : α) : (∀ site ∈ sites, site.Sound) → Settles sites (.ok a)
  | failed {before behind : List Site} {site : Site} {e : CompileError} :
      sites = before ++ site :: behind → (∀ earlier ∈ before, earlier.Sound) →
      (∀ other, site.Violates knownPlace other ↔ other = e) → Settles sites (.error e)

namespace Settles

variable {α β : Type} {a b : List Site} {x : Except CompileError α}

theorem ok (value : α) : Settles [] (.ok value : Except CompileError α) :=
  .passed value fun _ member => nomatch member

theorem sound {site : Site} (sound : site.Sound) (value : α) :
    Settles [site] (.ok value : Except CompileError α) :=
  .passed value fun _ member => List.mem_singleton.mp member ▸ sound

theorem fault {site : Site} {e : CompileError}
    (only : ∀ other, site.Violates knownPlace other ↔ other = e) (behind : List Site) :
    Settles (site :: behind) (.error e : Except CompileError α) :=
  have here : site :: behind = [] ++ site :: behind := rfl
  .failed here (fun _ member => nomatch member) only

theorem bind {f : α → Except CompileError β} (first : Settles a x) (second : ∀ v, Settles b (f v)) :
    Settles (a ++ b) (x >>= f) := by
  cases first with
  | @failed before behind site e split sound only =>
    have longer : a ++ b = before ++ site :: (behind ++ b) := by
      rw [split, List.append_assoc, List.cons_append]
    exact .failed longer sound only
  | passed v sound =>
    show Settles (a ++ b) (f v)
    have later := second v
    generalize f v = y at later
    cases later with
    | passed w others =>
      refine .passed w fun site member => ?_
      rcases List.mem_append.mp member with inFirst | inSecond
      · exact sound site inFirst
      · exact others site inSecond
    | @failed before behind site e split others only =>
      subst split
      refine .failed (List.append_assoc _ _ _).symm (fun earlier member => ?_) only
      rcases List.mem_append.mp member with inFirst | inSecond
      · exact sound earlier inFirst
      · exact others earlier inSecond

theorem behind {site : Site} (sound : site.Sound) (later : Settles a x) : Settles (site :: a) x :=
  (Settles.sound sound ()).bind fun _ => later

theorem bind_ok {f : α → Except CompileError β} {g : α → β} (first : Settles a x)
    (last : ∀ v, f v = .ok (g v)) : Settles a (x >>= f) := by
  have both := first.bind fun v => last v ▸ Settles.ok (g v)
  rwa [List.append_nil] at both

theorem exists_ok_iff (settles : Settles a x) :
    (∃ v, x = .ok v) ↔ ∀ site ∈ a, site.Sound := by
  cases settles with
  | passed v sound => exact ⟨fun _ => sound, fun _ => ⟨v, rfl⟩⟩
  | @failed before behind site e split sound only =>
    refine ⟨nofun, fun all => ?_⟩
    exact absurd ((only e).mpr rfl) (all site (by rw [split]; simp) knownPlace e)

theorem error_iff (settles : Settles a x) {e : CompileError} :
    x = .error e ↔ FirstFault knownPlace a e := by
  cases settles with
  | passed v sound =>
    refine ⟨nofun, ?_⟩
    rintro ⟨before, site, behind, split, -, violated⟩
    exact absurd violated (sound site (by rw [split]; simp) knownPlace e)
  | @failed before behind site first split sound only =>
    constructor
    · intro same
      cases same
      exact ⟨before, site, behind, split, sound, (only _).mpr rfl⟩
    · rintro ⟨before', site', behind', split', sound', violated⟩
      -- Neither of the two sites stands among those in front of the other.
      rw [split] at split'
      rcases List.append_eq_append_iff.mp split' with ⟨more, further, rest⟩ | ⟨more, further, rest⟩
      · cases more with
        | nil =>
          cases rest
          exact congrArg _ ((only e).mp violated).symm
        | cons next more =>
          cases rest
          exact absurd ((only first).mpr rfl) (sound' site (by rw [further]; simp) knownPlace first)
      · cases more with
        | nil =>
          cases rest
          exact congrArg _ ((only e).mp violated).symm
        | cons next more =>
          cases rest
          exact absurd violated (sound site' (by rw [further]; simp) knownPlace e)

end Settles

end LoopTape
