import LoopTape.Proofs.Text.Cut
import LoopTape.Proofs.Token.Spelling
import LoopTape.Tape.Listing
import Mathlib.Data.Set.Function

/-! What a listing says.

A line of code is read back: its first word tells the kind of the instruction, a name ends at a blank, the
slots of arguments end at a bracket, and a result stands behind an arrow. So two pieces of code with the
same lines are the same, if names are names. A listing has a line for each instruction, with its index.
-/

set_option autoImplicit false

namespace LoopTape

def readNumber? (digits : List Char) : Option Nat :=
  if digits ≠ [] ∧ digits.all Char.isDigit then some (Nat.ofDigitChars 10 digits 0) else none

def readSlot? : List Char → Option Nat
  | '$' :: digits => readNumber? digits
  | _ => none

def readSlots? (text : List Char) : Option (List Nat) :=
  if text = [] then some [] else (text.splitOn ' ').mapM readSlot?

def readOutput? : List Char → Option (Option Nat)
  | [] => some none
  | ' ' :: '-' :: '>' :: ' ' :: slot => (readSlot? slot).map some
  | _ => none

def readCall? (operands : List Char) : Option Symbolic := do
  let (name, rest) ← cut? ' ' operands
  match rest with
  | '[' :: rest =>
    let (inputs, output) ← cut? ']' rest
    return .call (String.ofList name) (← readSlots? inputs) (← readOutput? output)
  | _ => none

def readBranch? (place : List Char → Option Nat) (operands : List Char) : Option Symbolic := do
  let (condition, target) ← cut? ' ' operands
  return .jump (← readSlot? condition) (← place target)

def readLabel? (name : List Char) : Option Symbolic :=
  match name with
  | 'L' :: rest => do
    let (id, _) ← cut? ':' rest
    return .label (← readNumber? id)
  | _ => none

/-- The code that a line says; `place` reads where a jump goes. -/
def Symbolic.read? (place : List Char → Option Nat) (line : List Char) : Option Symbolic :=
  match cut? ' ' line with
  | none => readLabel? line
  | some (word, operands) =>
    if word = "call".toList then readCall? operands
    else if word = "jump".toList then (place operands).map (.jump 0)
    else if word = "jump-if".toList then readBranch? place operands
    else if word = "grow".toList then (readNumber? operands).map .grow
    else if word = "shrink".toList then (readNumber? operands).map .shrink
    else none

theorem readNumber?_toDigits (n : Nat) : readNumber? (Nat.toDigits 10 n) = some n := by
  have digits : (Nat.toDigits 10 n).all Char.isDigit = true :=
    List.all_eq_true.mpr fun _ => Nat.isDigit_of_mem_toDigits (by decide) (by decide)
  rw [readNumber?, if_pos ⟨Nat.toDigits_ne_nil, digits⟩, Nat.ofDigitChars_ten_toDigits]

theorem notMem_toDigits {c : Char} (other : c.isDigit = false) (n : Nat) : c ∉ Nat.toDigits 10 n := by
  intro member
  have digit := Nat.isDigit_of_mem_toDigits (by decide) (by decide) member
  exact absurd digit (by simp [other])

theorem toList_slotText (slot : Nat) : (slotText slot).toList = '$' :: Nat.toDigits 10 slot := by
  simp [slotText, String.toList_append]

theorem readSlot?_slotText (slot : Nat) : readSlot? (slotText slot).toList = some slot := by
  rw [toList_slotText, readSlot?, readNumber?_toDigits]

theorem notMem_slotText {c : Char} (other : c.isDigit = false) (dollar : c ≠ '$') (slot : Nat) :
    c ∉ (slotText slot).toList := by
  rw [toList_slotText]
  exact List.not_mem_cons_of_ne_of_not_mem dollar (notMem_toDigits other slot)

def slotsText (inputs : List Nat) : List Char := (" ".intercalate (inputs.map slotText)).toList

theorem slotsText_eq (inputs : List Nat) :
    slotsText inputs = [' '].intercalate (inputs.map fun slot => (slotText slot).toList) := by
  rw [slotsText, String.toList_intercalate, List.map_map]
  rfl

theorem mapM_readSlot? (inputs : List Nat) :
    (inputs.map fun slot => (slotText slot).toList).mapM readSlot? = some inputs := by
  induction inputs with
  | nil => rfl
  | cons slot rest ih => simp [readSlot?_slotText, ih]

theorem readSlots?_slotsText (inputs : List Nat) : readSlots? (slotsText inputs) = some inputs := by
  rw [slotsText_eq]
  cases inputs with
  | nil => rfl
  | cons slot rest =>
    have words : ∀ word ∈ (slot :: rest).map fun slot => (slotText slot).toList, ' ' ∉ word := by
      intro word member
      obtain ⟨slot, -, rfl⟩ := List.mem_map.mp member
      exact notMem_slotText (by decide) (by decide) slot
    -- The brackets are empty only if there are no slots, since a slot begins with its mark.
    have begun : [' '].intercalate ((slot :: rest).map fun slot => (slotText slot).toList) ≠ [] := by
      cases rest <;> simp [toList_slotText, List.intercalate_cons_cons]
    rw [readSlots?, if_neg begun, List.splitOn_intercalate ' ' words (by simp), mapM_readSlot?]

theorem notMem_slotsText {c : Char} (other : c.isDigit = false) (dollar : c ≠ '$') (blank : c ≠ ' ')
    (inputs : List Nat) : c ∉ slotsText inputs := by
  rw [slotsText_eq]
  induction inputs with
  | nil => exact List.not_mem_nil
  | cons slot rest ih =>
    have first := notMem_slotText other dollar slot
    cases rest with
    | nil => simpa using first
    | cons next more =>
      simp only [List.map_cons, List.intercalate_cons_cons, List.mem_append, List.mem_singleton,
        not_or] at ih ⊢
      exact ⟨⟨first, blank⟩, ih⟩

def outputText : Option Nat → List Char
  | some slot => " -> ".toList ++ (slotText slot).toList
  | none => []

theorem readOutput?_outputText (output : Option Nat) : readOutput? (outputText output) = some output := by
  cases output with
  | none => rfl
  | some slot =>
    show (readSlot? (slotText slot).toList).map some = some (some slot)
    rw [readSlot?_slotText, Option.map_some]

theorem toList_callText (name : String) (inputs : List Nat) (output : Option Nat) :
    (callText name inputs output).toList = "call".toList ++ ' ' :: (name.toList ++ ' ' :: '[' ::
      (slotsText inputs ++ ']' :: outputText output)) := by
  cases output <;> simp [callText, slotsText, outputText]

theorem readCall?_call {name : String} (unbroken : ' ' ∉ name.toList) (inputs : List Nat)
    (output : Option Nat) :
    readCall? (name.toList ++ ' ' :: '[' :: (slotsText inputs ++ ']' :: outputText output)) =
      some (.call name inputs output) := by
  have slots := notMem_slotsText (c := ']') (by decide) (by decide) (by decide) inputs
  rw [readCall?, cut?_append _ unbroken]
  simp [cut?_append _ slots, readSlots?_slotsText, readOutput?_outputText]

def Symbolic.line (place : Nat → String) : Symbolic → String
  | .call name inputs output => callText name inputs output
  | .jump condition target => jumpText condition (place target)
  | .label id => labelText id ++ ":"
  | .grow count => growText count
  | .shrink count => shrinkText count

theorem Symbolic.text_eq_line (entry : Symbolic) : entry.text = entry.line labelText := by
  cases entry <;> rfl

def Instr.symbolic : Instr → Symbolic
  | .call name inputs output => .call name inputs output
  | .jump condition target => .jump condition target
  | .grow count => .grow count
  | .shrink count => .shrink count

theorem Instr.text_eq_line (instr : Instr) : instr.text = instr.symbolic.line toString := by
  cases instr <;> rfl

theorem Instr.symbolic_injective : Function.Injective Instr.symbolic := by
  intro a b same
  cases a <;> cases b <;> simp_all [symbolic]

def Symbolic.Named : Symbolic → Prop
  | .call name _ _ => isName name = true
  | .jump .. | .label _ | .grow _ | .shrink _ => True

instance : DecidablePred Symbolic.Named
  | .call name _ _ => inferInstanceAs (Decidable (isName name = true))
  | .jump .. | .label _ | .grow _ | .shrink _ => inferInstanceAs (Decidable True)

theorem notMem_of_isName {name : String} {c : Char} (spelled : isName name = true)
    (other : isNameChar c = false) : c ∉ name.toList := by
  intro member
  exact absurd (isNameChar_of_isName spelled c member) (by simp [other])

/-- A line is read as what it was written for, if places are. -/
theorem Symbolic.read?_line {place : Nat → String} {readPlace : List Char → Option Nat}
    (places : ∀ target, readPlace (place target).toList = some target) {entry : Symbolic}
    (named : entry.Named) : read? readPlace (entry.line place).toList = some entry := by
  cases entry with
  | call name inputs output =>
    have unbroken := notMem_of_isName named (c := ' ') (by decide)
    rw [line, toList_callText, read?, cut?_append _ (by decide)]
    exact readCall?_call unbroken inputs output
  | jump condition target =>
    by_cases always : condition = 0
    · have text : (jumpText condition (place target)).toList =
          "jump".toList ++ ' ' :: (place target).toList := by
        simp [jumpText, always]
      rw [line, text, read?, cut?_append _ (by decide)]
      simp [places, always]
    · have text : (jumpText condition (place target)).toList =
          "jump-if".toList ++ ' ' :: ((slotText condition).toList ++ ' ' :: (place target).toList) := by
        simp [jumpText, always]
      have unbroken := notMem_slotText (c := ' ') (by decide) (by decide) condition
      rw [line, text, read?, cut?_append _ (by decide)]
      simp [readBranch?, cut?_append _ unbroken, readSlot?_slotText, places]
  | label id =>
    have text : (labelText id ++ ":").toList = 'L' :: (Nat.toDigits 10 id ++ [':']) := by
      simp [labelText]
    have unbroken : ' ' ∉ 'L' :: (Nat.toDigits 10 id ++ [':']) := by
      simp [notMem_toDigits (c := ' ') (by decide) id]
    have ended := notMem_toDigits (c := ':') (by decide) id
    rw [line, text, read?, cut?_eq_none unbroken]
    simp [readLabel?, cut?_append _ ended, readNumber?_toDigits]
  | grow count =>
    have text : (growText count).toList = "grow".toList ++ ' ' :: Nat.toDigits 10 count := by
      simp [growText]
    rw [line, text, read?, cut?_append _ (by decide)]
    simp [readNumber?_toDigits]
  | shrink count =>
    have text : (shrinkText count).toList = "shrink".toList ++ ' ' :: Nat.toDigits 10 count := by
      simp [shrinkText]
    rw [line, text, read?, cut?_append _ (by decide)]
    simp [readNumber?_toDigits]

theorem Symbolic.line_injOn {place : Nat → String} {readPlace : List Char → Option Nat}
    (places : ∀ target, readPlace (place target).toList = some target) :
    Set.InjOn (Symbolic.line place) {entry | entry.Named} := by
  intro entry named other named' same
  have read := read?_line places named
  rw [same, read?_line places named'] at read
  exact (Option.some.inj read).symm

def readPlace? : List Char → Option Nat
  | 'L' :: digits => readNumber? digits
  | _ => none

theorem readPlace?_labelText (id : Nat) : readPlace? (labelText id).toList = some id := by
  have text : (labelText id).toList = 'L' :: Nat.toDigits 10 id := by simp [labelText]
  rw [text, readPlace?, readNumber?_toDigits]

theorem Symbolic.text_injOn : Set.InjOn Symbolic.text {entry | entry.Named} := by
  intro entry named other named' same
  rw [text_eq_line, text_eq_line] at same
  exact line_injOn readPlace?_labelText named named' same

theorem eq_of_map_text {code other : List Symbolic} (named : ∀ entry ∈ code, entry.Named)
    (named' : ∀ entry ∈ other, entry.Named)
    (same : code.map Symbolic.text = other.map Symbolic.text) : code = other := by
  induction code generalizing other with
  | nil => exact (List.map_eq_nil_iff.mp same.symm).symm
  | cons entry rest ih =>
    obtain ⟨entry', rest', rfl, line, lines⟩ := List.map_eq_cons_iff.mp same.symm
    obtain ⟨first, later⟩ := List.forall_mem_cons.mp named
    obtain ⟨first', later'⟩ := List.forall_mem_cons.mp named'
    rw [Symbolic.text_injOn first first' line.symm, ih later later' lines.symm]

/-- The function that an instruction calls has a name that a function can have. -/
def Instr.Named (instr : Instr) : Prop := instr.symbolic.Named

instance : DecidablePred Instr.Named := fun instr => inferInstanceAs (Decidable instr.symbolic.Named)

theorem Instr.text_injOn : Set.InjOn Instr.text {instr | instr.Named} := by
  have places (target : Nat) : readNumber? (toString target).toList = some target := by
    rw [Nat.toString_eq_repr, Nat.toList_repr, readNumber?_toDigits]
  intro instr named other named' same
  rw [text_eq_line, text_eq_line] at same
  exact symbolic_injective (Symbolic.line_injOn places named named' same)

structure Padded (index : Nat) (number : List Char) : Prop where
  digits : ∀ c ∈ number, c.isDigit = true
  value : Nat.ofDigitChars 10 number 0 = index
  width : number.length = max 4 (Nat.toDigits 10 index).length

theorem padded_indexText (index : Nat) : Padded index (indexText index).toList := by
  have text : (indexText index).toList =
      List.replicate (4 - (Nat.toDigits 10 index).length) '0' ++ Nat.toDigits 10 index := by
    simp [indexText]
  constructor
  case digits =>
    intro c member
    rw [text] at member
    rcases List.mem_append.mp member with zero | digit
    · rw [List.eq_of_mem_replicate zero]
      decide
    · exact Nat.isDigit_of_mem_toDigits (by decide) (by decide) digit
  case value =>
    rw [text, Nat.ofDigitChars_append, Nat.ofDigitChars_replicate_zero, Nat.mul_zero,
      Nat.ofDigitChars_ten_toDigits]
  case width =>
    rw [text, List.length_append, List.length_replicate]
    omega

example : indexText 7 = "0007" ∧ indexText 10000 = "10000" := by decide

/-- A line of code goes on with no mark but those that lines are made of. -/
theorem Instr.lineFeed_notMem_text {instr : Instr} (named : instr.Named) :
    '\n' ∉ instr.text.toList := by
  have slots := notMem_slotsText (c := '\n') (by decide) (by decide) (by decide)
  have slot := notMem_slotText (c := '\n') (by decide) (by decide)
  have number := notMem_toDigits (c := '\n') (by decide)
  cases instr with
  | call name inputs output =>
    have unbroken := notMem_of_isName named (c := '\n') (by decide)
    rw [text, toList_callText]
    cases output <;> simp [outputText, unbroken, slots, slot]
  | jump condition target =>
    by_cases always : condition = 0 <;> simp [text, jumpText, always, slot, number]
  | grow count => simp [text, growText, number]
  | shrink count => simp [text, shrinkText, number]

def rowText (index : Nat) (instr : Instr) : List Char :=
  (indexText index).toList ++ ' ' :: ' ' :: instr.text.toList

theorem lineFeed_notMem_rowText (index : Nat) {instr : Instr} (named : instr.Named) :
    '\n' ∉ rowText index instr := by
  have number : '\n' ∉ (indexText index).toList := fun member =>
    absurd ((padded_indexText index).digits _ member) (by decide)
  simp [rowText, number, instr.lineFeed_notMem_text named]

theorem toList_listingFrom_cons (index : Nat) (instr : Instr) (rest : Tape) :
    (listingFrom index (instr :: rest)).toList =
      rowText index instr ++ '\n' :: (listingFrom (index + 1) rest).toList := by
  simp [listingFrom, rowText]

theorem listingFrom_cons_ne (index : Nat) (instr : Instr) (rest : Tape) :
    listingFrom index (instr :: rest) ≠ listingFrom index [] := by
  intro same
  have text := congrArg String.toList same
  rw [toList_listingFrom_cons] at text
  simp [listingFrom] at text

/-- From some index on, a listing says what tape it is of. -/
theorem eq_of_listingFrom {tape other : Tape} (index : Nat) (named : ∀ instr ∈ tape, instr.Named)
    (named' : ∀ instr ∈ other, instr.Named) (same : listingFrom index tape = listingFrom index other) :
    tape = other := by
  induction tape generalizing other index with
  | nil =>
    cases other with
    | nil => rfl
    | cons instr rest => exact absurd same.symm (listingFrom_cons_ne index instr rest)
  | cons instr rest ih =>
    cases other with
    | nil => exact absurd same (listingFrom_cons_ne index instr rest)
    | cons instr' rest' =>
      obtain ⟨first, later⟩ := List.forall_mem_cons.mp named
      obtain ⟨first', later'⟩ := List.forall_mem_cons.mp named'
      have text := congrArg (cut? '\n' ·.toList) same
      simp only [toList_listingFrom_cons, cut?_append _ (lineFeed_notMem_rowText index first),
        cut?_append _ (lineFeed_notMem_rowText index first'), Option.some.injEq, Prod.mk.injEq,
        String.toList_inj] at text
      obtain ⟨row, others⟩ := text
      -- Both rows begin with the same number.
      have line : instr.text = instr'.text := by simpa [rowText, String.toList_inj] using row
      rw [Instr.text_injOn first first' line, ih (index + 1) later later' others]

/-- The rows of a listing: one for each instruction, with its index in front of it and a line feed
behind it. -/
structure Rows (tape : Tape) (rows : List (List Char)) : Prop where
  whole : tape.listing.toList = rows.flatMap (· ++ ['\n'])
  single : ∀ row ∈ rows, '\n' ∉ row
  length_eq : rows.length = tape.length
  numbered : ∀ index instr, tape[index]? = some instr →
    ∃ number, rows[index]? = some (number ++ "  ".toList ++ instr.text.toList) ∧ Padded index number

theorem toList_listingFrom (index : Nat) (tape : Tape) :
    (listingFrom index tape).toList =
      ((tape.zipIdx index).map fun entry => rowText entry.2 entry.1).flatMap (· ++ ['\n']) := by
  induction tape generalizing index with
  | nil => rfl
  | cons instr rest ih => simp [toList_listingFrom_cons, ih]

theorem exists_rows {tape : Tape} (named : ∀ instr ∈ tape, instr.Named) : ∃ rows, Rows tape rows := by
  refine ⟨tape.zipIdx.map fun entry => rowText entry.2 entry.1, ?_⟩
  constructor
  case whole => exact toList_listingFrom 0 tape
  case single =>
    intro row member
    obtain ⟨⟨instr, index⟩, listed, rfl⟩ := List.mem_map.mp member
    exact lineFeed_notMem_rowText index (named instr (List.fst_mem_of_mem_zipIdx listed))
  case length_eq => rw [List.length_map, List.length_zipIdx]
  case numbered =>
    intro index instr fetched
    refine ⟨(indexText index).toList, ?_, padded_indexText index⟩
    simp [fetched, rowText]

/-- Code with the same lines is the same code, and a tape with the same listing is the same tape, if all
functions have names that functions can have. A listing has a row for each instruction, which begins with
the index of the instruction. -/
theorem listings_unambiguous :
    Set.InjOn Tape.listing {tape | ∀ instr ∈ tape, instr.Named} ∧
    Set.InjOn (List.map Symbolic.text) {code | ∀ entry ∈ code, entry.Named} ∧
    ∀ tape : Tape, (∀ instr ∈ tape, instr.Named) → ∃ rows, Rows tape rows := by
  refine ⟨?tapes, ?codes, fun tape => exists_rows⟩
  case tapes =>
    intro tape named other named' same
    exact eq_of_listingFrom 0 named named' same
  case codes =>
    intro code named other named' same
    exact eq_of_map_text named named' same

def printing : Tape :=
  [.grow 2, .call "true" [] (some 1), .jump 1 4, .jump 0 7, .call "print" [1, 2] none,
    .call "next" [2] (some 1), .jump 0 2, .shrink 2]

theorem printing_unambiguous :
    (∀ instr ∈ printing, instr.Named) ∧ (∃ rows, Rows printing rows) ∧
      ∀ tape : Tape, (∀ instr ∈ tape, instr.Named) → tape.listing = printing.listing →
        tape = printing := by
  have named : ∀ instr ∈ printing, instr.Named := by decide
  obtain ⟨tapes, -, rows⟩ := listings_unambiguous
  exact ⟨named, rows printing named, fun tape named' same => tapes named' named same⟩

example : printing.listing = "0000  grow 2\n0001  call true [] -> $1\n0002  jump-if $1 4\n" ++
    "0003  jump 7\n0004  call print [$1 $2]\n0005  call next [$2] -> $1\n0006  jump 2\n" ++
    "0007  shrink 2\n" := by decide

end LoopTape
