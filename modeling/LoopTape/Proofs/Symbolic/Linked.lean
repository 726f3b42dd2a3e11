import LoopTape.Proofs.Result
import LoopTape.Symbolic.Linking

/-! Where linking puts the parts of symbolic code.

A label takes no place on the tape, so the index of an instruction is the number of instructions in
front of it, and a label that is set only once stands for the number in front of it.
-/

set_option autoImplicit false

namespace LoopTape

def Symbolic.isLabel : Symbolic → Bool
  | .label _ => true
  | _ => false

def instrCount (code : List Symbolic) : Nat := code.countP (!·.isLabel)

@[simp] theorem instrCount_nil : instrCount [] = 0 := rfl

@[simp] theorem instrCount_append (a b : List Symbolic) :
    instrCount (a ++ b) = instrCount a + instrCount b := by
  simp [instrCount]

@[simp] theorem instrCount_label (id : Nat) (rest : List Symbolic) :
    instrCount (.label id :: rest) = instrCount rest := by
  simp [instrCount, Symbolic.isLabel]

theorem instrCount_cons {entry : Symbolic} (instruction : entry.isLabel = false)
    (rest : List Symbolic) : instrCount (entry :: rest) = instrCount rest + 1 := by
  simp [instrCount, instruction]

@[simp] theorem instrCount_call (name : String) (inputs : List Nat) (output : Option Nat)
    (rest : List Symbolic) :
    instrCount (.call name inputs output :: rest) = instrCount rest + 1 := instrCount_cons rfl rest

@[simp] theorem instrCount_jump (condition label : Nat) (rest : List Symbolic) :
    instrCount (.jump condition label :: rest) = instrCount rest + 1 := instrCount_cons rfl rest

@[simp] theorem instrCount_grow (count : Nat) (rest : List Symbolic) :
    instrCount (.grow count :: rest) = instrCount rest + 1 := instrCount_cons rfl rest

@[simp] theorem instrCount_shrink (count : Nat) (rest : List Symbolic) :
    instrCount (.shrink count :: rest) = instrCount rest + 1 := instrCount_cons rfl rest

def Symbolic.label? : Symbolic → Option Nat
  | .label id => some id
  | _ => none

def setLabels (code : List Symbolic) : List Nat := code.filterMap Symbolic.label?

@[simp] theorem setLabels_nil : setLabels [] = [] := rfl

@[simp] theorem setLabels_append (a b : List Symbolic) :
    setLabels (a ++ b) = setLabels a ++ setLabels b := List.filterMap_append

@[simp] theorem setLabels_label (id : Nat) (rest : List Symbolic) :
    setLabels (.label id :: rest) = id :: setLabels rest := rfl

@[simp] theorem setLabels_jump (condition label : Nat) (rest : List Symbolic) :
    setLabels (.jump condition label :: rest) = setLabels rest := rfl

theorem labelIndex?_eq_none {id : Nat} {code : List Symbolic} (absent : id ∉ setLabels code) :
    labelIndex? id code = none := by
  induction code with
  | nil => rfl
  | cons entry rest ih =>
    cases entry with
    | label own =>
      obtain ⟨other, later⟩ := not_or.mp (mt List.mem_cons.mpr absent)
      simp [labelIndex?, ih later, Ne.symm other]
    | _ => simp [labelIndex?, ih absent]

/-- A label stands for the instruction after the last place where it is set. -/
theorem labelIndex?_append {id : Nat} (before : List Symbolic) {behind : List Symbolic}
    (last : id ∉ setLabels behind) :
    labelIndex? id (before ++ .label id :: behind) = some (instrCount before) := by
  induction before with
  | nil => simp [labelIndex?, labelIndex?_eq_none last]
  | cons entry rest ih => cases entry <;> simp [labelIndex?, ih]

/-- The instruction of an entry that is no label, when its label is set somewhere in `code`. -/
def Symbolic.instr? (code : List Symbolic) : Symbolic → Option Instr
  | .call name inputs output => some (.call name inputs output)
  | .jump condition id => (labelIndex? id code).map (.jump condition ·)
  | .label .. => none
  | .grow count => some (.grow count)
  | .shrink count => some (.shrink count)

theorem linkPart_cons {code : List Symbolic} {entry : Symbolic} {rest : List Symbolic} {tape : Tape}
    (linked : linkPart code (entry :: rest) = .ok tape) :
    (entry.isLabel = true ∧ linkPart code rest = .ok tape) ∨
      ∃ instr later, entry.isLabel = false ∧ entry.instr? code = some instr ∧
        linkPart code rest = .ok later ∧ tape = instr :: later := by
  cases entry with
  | label id => exact .inl ⟨rfl, linked⟩
  | jump condition id =>
    simp only [linkPart] at linked
    split at linked
    · next target found =>
      obtain ⟨later, tail, rfl⟩ := Except.map_eq_ok.mp linked
      exact .inr ⟨_, later, rfl, by simp [Symbolic.instr?, found], tail, rfl⟩
    · cases linked
  | _ =>
    obtain ⟨later, tail, rfl⟩ := Except.map_eq_ok.mp linked
    exact .inr ⟨_, later, rfl, rfl, tail, rfl⟩

theorem length_linkPart {code part : List Symbolic} {tape : Tape}
    (linked : linkPart code part = .ok tape) : tape.length = instrCount part := by
  induction part generalizing tape with
  | nil => cases linked; rfl
  | cons entry rest ih =>
    rcases linkPart_cons linked with ⟨label, later⟩ | ⟨instr, later, instruction, _, tail, rfl⟩
    · cases entry <;> simp_all [Symbolic.isLabel]
    · rw [instrCount_cons instruction, List.length_cons, ih tail]

theorem linkPart_getElem? {code before behind : List Symbolic} {entry : Symbolic} {tape : Tape}
    (linked : linkPart code (before ++ entry :: behind) = .ok tape)
    (instruction : entry.isLabel = false) :
    ∃ instr, entry.instr? code = some instr ∧ tape[instrCount before]? = some instr := by
  induction before generalizing tape with
  | nil =>
    rcases linkPart_cons linked with ⟨label, _⟩ | ⟨instr, later, _, found, _, rfl⟩
    · simp [instruction] at label
    · exact ⟨instr, found, rfl⟩
  -- An entry in front is a label and takes no place, or moves the index by one.
  | cons first rest ih =>
    rcases linkPart_cons linked with ⟨label, tail⟩ | ⟨instr, later, other, _, tail, rfl⟩
    · obtain ⟨instr, found, place⟩ := ih tail
      cases first <;> simp_all [Symbolic.isLabel]
    · obtain ⟨instr, found, place⟩ := ih tail
      exact ⟨instr, found, by rw [instrCount_cons other, List.getElem?_cons_succ]; exact place⟩

/-- The part stands in the code with `start` instructions in front of it. -/
def Stands (code : List Symbolic) (start : Nat) (part : List Symbolic) : Prop :=
  ∃ before behind, code = before ++ (part ++ behind) ∧ start = instrCount before

namespace Stands

variable {code : List Symbolic} {start : Nat}

theorem whole (code : List Symbolic) : Stands code 0 code := ⟨[], [], by simp, rfl⟩

theorem left {a b : List Symbolic} (stands : Stands code start (a ++ b)) : Stands code start a := by
  obtain ⟨before, behind, split, starts⟩ := stands
  exact ⟨before, b ++ behind, by simpa using split, starts⟩

theorem right {a b : List Symbolic} (stands : Stands code start (a ++ b)) :
    Stands code (start + instrCount a) b := by
  obtain ⟨before, behind, split, starts⟩ := stands
  exact ⟨before ++ a, behind, by simpa using split, by simp [starts]⟩

theorem afterJump {condition id : Nat} {rest : List Symbolic}
    (stands : Stands code start (.jump condition id :: rest)) : Stands code (start + 1) rest :=
  right (a := [.jump condition id]) stands

theorem afterLabel {id : Nat} {rest : List Symbolic}
    (stands : Stands code start (.label id :: rest)) : Stands code start rest :=
  right (a := [.label id]) stands

/-- A label that is set nowhere else stands for the place where it is set. -/
theorem labelIndex?_eq {id : Nat} {rest : List Symbolic}
    (stands : Stands code start (.label id :: rest)) (distinct : (setLabels code).Nodup) :
    labelIndex? id code = some start := by
  obtain ⟨before, behind, rfl, rfl⟩ := stands
  simp only [List.cons_append, setLabels_append, setLabels_label] at distinct
  have once := (List.nodup_append.mp distinct).2.1
  have last : id ∉ setLabels (rest ++ behind) := by
    simpa using (List.nodup_cons.mp once).1
  exact labelIndex?_append before last

end Stands

end LoopTape
