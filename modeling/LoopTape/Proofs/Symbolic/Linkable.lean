import Mathlib.Data.List.Forall2
import LoopTape.Proofs.Symbolic.Linked

/-! Which code has a tape, and which tape that is.

Code can be linked if each label that a jump names is set somewhere in it. Its tape has one instruction
for each entry that is no label, in the same order; a jump goes to the number of instructions in front of
the last place where its label is set.
-/

set_option autoImplicit false

namespace LoopTape

inductive Symbolic.LinksTo (code : List Symbolic) : Symbolic → Instr → Prop
  | call (name : String) (inputs : List Nat) (output : Option Nat) :
      LinksTo code (.call name inputs output) (.call name inputs output)
  | jump (condition id : Nat) {before behind : List Symbolic} :
      code = before ++ .label id :: behind → .label id ∉ behind →
      LinksTo code (.jump condition id) (.jump condition (instrCount before))
  | grow (count : Nat) : LinksTo code (.grow count) (.grow count)
  | shrink (count : Nat) : LinksTo code (.shrink count) (.shrink count)

theorem mem_setLabels {id : Nat} {code : List Symbolic} :
    id ∈ setLabels code ↔ .label id ∈ code := by
  simp only [setLabels, List.mem_filterMap]
  constructor
  · rintro ⟨entry, member, sets⟩
    cases entry with
    | label own => exact Option.some.inj sets ▸ member
    | _ => exact nomatch sets
  · intro member
    exact ⟨.label id, member, rfl⟩

theorem exists_last_label {id : Nat} {code : List Symbolic} (member : .label id ∈ code) :
    ∃ before behind, code = before ++ .label id :: behind ∧ .label id ∉ behind := by
  obtain ⟨behind, before, split, last⟩ := List.eq_append_cons_of_mem (List.mem_reverse.mpr member)
  refine ⟨before.reverse, behind.reverse, ?_, by simpa using last⟩
  have whole := congrArg List.reverse split
  simpa using whole

theorem labelIndex?_of_last {id : Nat} (before : List Symbolic) {behind : List Symbolic}
    (last : .label id ∉ behind) :
    labelIndex? id (before ++ .label id :: behind) = some (instrCount before) :=
  labelIndex?_append before (mt mem_setLabels.mp last)

theorem Symbolic.instr?_eq_some_iff {code : List Symbolic} {entry : Symbolic} {instr : Instr} :
    entry.instr? code = some instr ↔ entry.LinksTo code instr := by
  constructor
  · intro becomes
    cases entry with
    | call name inputs output => cases becomes; exact .call name inputs output
    | grow count => cases becomes; exact .grow count
    | shrink count => cases becomes; exact .shrink count
    | label id => cases becomes
    | jump condition id =>
      by_cases member : .label id ∈ code
      · obtain ⟨before, behind, split, last⟩ := exists_last_label member
        have found : labelIndex? id code = some (instrCount before) := by
          rw [split]
          exact labelIndex?_of_last before last
        rw [instr?, found] at becomes
        cases becomes
        exact .jump condition id split last
      · rw [instr?, labelIndex?_eq_none (mt mem_setLabels.mp member)] at becomes
        cases becomes
  · intro links
    cases links with
    | call | grow | shrink => rfl
    | jump condition id split last =>
      rw [instr?, split, labelIndex?_of_last _ last]
      rfl

theorem Symbolic.instr?_jump {code : List Symbolic} {condition id : Nat} {instr : Instr}
    (becomes : (Symbolic.jump condition id).instr? code = some instr) : .label id ∈ code := by
  cases instr?_eq_some_iff.mp becomes with
  | jump _ _ split _ => simp [split]

theorem linkPart_label {code : List Symbolic} {entry : Symbolic} (label : entry.isLabel = true)
    (rest : List Symbolic) : linkPart code (entry :: rest) = linkPart code rest := by
  cases entry <;> first | rfl | exact nomatch label

theorem linkPart_instr {code : List Symbolic} {entry : Symbolic} {instr : Instr}
    (becomes : entry.instr? code = some instr) (rest : List Symbolic) :
    linkPart code (entry :: rest) = (instr :: ·) <$> linkPart code rest := by
  cases entry with
  | call | grow | shrink => cases becomes; rfl
  | label id => exact nomatch becomes
  | jump condition id =>
    obtain ⟨target, found, rfl⟩ := Option.map_eq_some_iff.mp becomes
    simp only [linkPart, found]

/-- The instructions of a tape are those that the entries become, one after the other. -/
theorem linkPart_eq_ok_iff {code part : List Symbolic} {tape : Tape} :
    linkPart code part = .ok tape ↔
      List.Forall₂ (Symbolic.LinksTo code) (part.filter (!·.isLabel)) tape := by
  induction part generalizing tape with
  | nil =>
    rw [List.filter_nil, List.forall₂_nil_left_iff]
    exact ⟨fun linked => by cases linked; rfl, fun none => none ▸ rfl⟩
  | cons entry rest ih =>
    by_cases label : entry.isLabel = true
    · rw [linkPart_label label, List.filter_cons_of_neg (by simp [label])]
      exact ih
    · rw [List.filter_cons_of_pos (by simpa using label), List.forall₂_cons_left_iff]
      constructor
      · intro linked
        rcases linkPart_cons linked with ⟨isLabel, _⟩ | ⟨instr, later, _, becomes, tail, rfl⟩
        · exact absurd isLabel label
        · exact ⟨instr, later, Symbolic.instr?_eq_some_iff.mp becomes, ih.mp tail, rfl⟩
      · rintro ⟨instr, later, links, tail, rfl⟩
        rw [linkPart_instr (Symbolic.instr?_eq_some_iff.mpr links), ih.mpr tail]
        rfl

/-- The jump is the first one of the part whose label is set nowhere in the code. -/
def FirstDangling (code part : List Symbolic) (id : Nat) : Prop :=
  ∃ before condition behind, part = before ++ .jump condition id :: behind ∧ .label id ∉ code ∧
    ∀ other target, .jump other target ∈ before → .label target ∈ code

theorem FirstDangling.cons {code part : List Symbolic} {id : Nat} (first : FirstDangling code part id)
    {entry : Symbolic} (known : ∀ condition own, entry = .jump condition own → .label own ∈ code) :
    FirstDangling code (entry :: part) id := by
  obtain ⟨before, condition, behind, rfl, missing, earlier⟩ := first
  refine ⟨entry :: before, condition, behind, rfl, missing, ?_⟩
  intro other target member
  rcases List.mem_cons.mp member with same | later
  · exact known other target same.symm
  · exact earlier other target later

theorem FirstDangling.tail {code part : List Symbolic} {id : Nat} {entry : Symbolic}
    (first : FirstDangling code (entry :: part) id)
    (known : ∀ condition own, entry = .jump condition own → .label own ∈ code) :
    FirstDangling code part id := by
  obtain ⟨before, condition, behind, split, missing, earlier⟩ := first
  cases before with
  | nil =>
    obtain ⟨rfl, -⟩ := List.cons.inj split
    exact absurd (known condition id rfl) missing
  | cons front before =>
    obtain ⟨-, rfl⟩ := List.cons.inj split
    exact ⟨before, condition, behind, rfl, missing,
      fun other target member => earlier other target (List.mem_cons_of_mem _ member)⟩

theorem linkPart_eq_error_iff {code part : List Symbolic} {e : CompileError} :
    linkPart code part = .error e ↔ ∃ id, FirstDangling code part id ∧ e = .undefinedLabel id := by
  induction part with
  | nil =>
    constructor
    · intro failed
      cases failed
    · rintro ⟨id, ⟨before, condition, behind, split, -⟩, -⟩
      exact absurd split (by simp)
  | cons entry rest ih =>
    have passed (known : ∀ condition own, entry = .jump condition own → .label own ∈ code) :
        (∃ id, FirstDangling code rest id ∧ e = .undefinedLabel id) ↔
          ∃ id, FirstDangling code (entry :: rest) id ∧ e = .undefinedLabel id :=
      exists_congr fun id => and_congr_left' ⟨fun first => first.cons known,
        fun first => first.tail known⟩
    by_cases label : entry.isLabel = true
    · rw [linkPart_label label, ih]
      exact passed (by rintro condition own rfl; cases label)
    · cases becomes : entry.instr? code with
      | some instr =>
        have failed : linkPart code (entry :: rest) = .error e ↔ linkPart code rest = .error e := by
          rw [linkPart_instr becomes]
          cases linkPart code rest <;> simp [Functor.map, Except.map]
        rw [failed, ih]
        apply passed
        rintro condition own rfl
        exact Symbolic.instr?_jump becomes
      | none =>
        -- only a jump to a label that is not set becomes nothing
        cases entry with
        | call | grow | shrink => cases becomes
        | label id => exact absurd rfl label
        | jump condition id =>
          have none : labelIndex? id code = none := Option.map_eq_none_iff.mp becomes
          have missing : .label id ∉ code := by
            intro member
            obtain ⟨before, behind, rfl, last⟩ := exists_last_label member
            rw [labelIndex?_of_last before last] at none
            cases none
          simp only [linkPart, none]
          constructor
          · intro failed
            cases failed
            have front : ∀ other target, Symbolic.jump other target ∈ [] → .label target ∈ code :=
              fun _ _ member => absurd member List.not_mem_nil
            exact ⟨id, ⟨[], condition, rest, rfl, missing, front⟩, rfl⟩
          · rintro ⟨other, ⟨before, condition', behind, split, dangling, earlier⟩, rfl⟩
            cases before with
            | nil =>
              cases split
              rfl
            | cons front before =>
              obtain ⟨rfl, -⟩ := List.cons.inj split
              exact absurd (earlier condition id List.mem_cons_self) missing

theorem link_eq_error_iff {code : List Symbolic} {e : CompileError} :
    link code = .error e ↔ ∃ id, FirstDangling code code id ∧ e = .undefinedLabel id :=
  linkPart_eq_error_iff

theorem exists_link_eq_ok_iff {code : List Symbolic} :
    (∃ tape, link code = .ok tape) ↔ ∀ condition id, .jump condition id ∈ code → .label id ∈ code := by
  constructor
  · rintro ⟨tape, linked⟩ condition id member
    obtain ⟨before, behind, rfl⟩ := List.append_of_mem member
    obtain ⟨instr, becomes, -⟩ := linkPart_getElem? linked rfl
    exact Symbolic.instr?_jump becomes
  · intro known
    cases linked : link code with
    | ok tape => exact ⟨tape, rfl⟩
    | error e =>
      obtain ⟨id, ⟨before, condition, behind, split, missing, -⟩, -⟩ := link_eq_error_iff.mp linked
      exact absurd (known condition id (by rw [split]; simp)) missing

theorem exists_linksTo_of_mem {code entries : List Symbolic} {tape : Tape} {instr : Instr}
    (links : List.Forall₂ (Symbolic.LinksTo code) entries tape) (member : instr ∈ tape) :
    ∃ entry, Symbolic.LinksTo code entry instr := by
  induction links with
  | nil => exact nomatch member
  | @cons entry _ _ _ first _ ih =>
    rcases List.mem_cons.mp member with rfl | later
    · exact ⟨entry, first⟩
    · exact ih later

theorem targetsValid_of_link {code : List Symbolic} {tape : Tape} (linked : link code = .ok tape) :
    tape.targetsValid = true := by
  simp only [Tape.targetsValid, List.all_eq_true, Option.all_eq_true, decide_eq_true_eq]
  intro instr member target jumps
  obtain ⟨entry, links⟩ := exists_linksTo_of_mem (linkPart_eq_ok_iff.mp linked) member
  cases links with
  | jump condition id split _ =>
    cases jumps
    rw [length_linkPart linked, split, instrCount_append]
    exact Nat.le_add_right _ _
  | _ => exact nomatch jumps

end LoopTape
