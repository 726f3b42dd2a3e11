import LoopTape.Pipeline
import LoopTape.Proofs.Result
import LoopTape.Proofs.Symbolic.Unplaced
import LoopTape.Proofs.Tree.Recorded
import LoopTape.Tape.Record

/-! What is lost when a tree or a tape is printed as JSON and read again.

A tape comes back as it was, if its numbers are in the range that they have in a record. A tree comes
back without its slots and spans, which are worked out again when it is compiled.
-/

set_option autoImplicit false

namespace LoopTape

/-- The numbers of an instruction are in the range that its record has for them. -/
def Instr.InRange : Instr → Prop
  | .call _ inputs output =>
    (∀ slot ∈ inputs, slot < Nat.pow 2 32) ∧ ∀ slot ∈ output, slot < Nat.pow 2 32
  | .jump condition target => condition < Nat.pow 2 32 ∧ target < Nat.pow 2 64
  | .grow count | .shrink count => count < Nat.pow 2 32

theorem mapM_read_eq_some {α β : Type} {write : α → β} {read : β → Option α} {proper : α → Prop}
    (each : ∀ a b, read (write a) = some b ↔ proper a ∧ b = a) (items others : List α) :
    (items.map write).mapM read = some others ↔ (∀ a ∈ items, proper a) ∧ others = items := by
  induction items generalizing others with
  | nil => simp [eq_comm]
  | cons a rest ih =>
    simp only [List.map_cons, List.mapM_cons, Option.bind_eq_bind, Option.bind_eq_some_iff, each, ih,
      List.forall_mem_cons, Option.pure_def, Option.some.injEq]
    constructor
    · rintro ⟨b, ⟨first, rfl⟩, tail, ⟨later, rfl⟩, rfl⟩
      exact ⟨⟨first, later⟩, rfl⟩
    · rintro ⟨⟨first, later⟩, rfl⟩
      exact ⟨a, ⟨first, rfl⟩, rest, ⟨later, rfl⟩, rfl⟩

theorem Json.nat?_ofNat {bound n m : Nat} : nat? bound (ofNat n) = some m ↔ n < bound ∧ m = n := by
  have small : 0 ≤ (n : Int) ∧ (n : Int) < bound ↔ n < bound := by omega
  simp only [nat?, ofNat, small, Option.ite_none_right_eq_some, Option.some.injEq, Int.toNat_natCast]
  exact and_congr_right fun _ => eq_comm

theorem slotOfJson?_ofNat {n m : Nat} : slotOfJson? (.ofNat n) = some m ↔ n < Nat.pow 2 32 ∧ m = n :=
  Json.nat?_ofNat

theorem orNull?_ofNat {output other : Option Nat} :
    (Json.ofOption .ofNat output).orNull? slotOfJson? = some other ↔
      (∀ slot ∈ output, slot < Nat.pow 2 32) ∧ other = output := by
  cases output with
  | none =>
    have absent : (Json.ofOption .ofNat none).orNull? slotOfJson? = some none := rfl
    simp [absent, eq_comm]
  | some n =>
    have present : (Json.ofOption .ofNat (some n)).orNull? slotOfJson? =
        (slotOfJson? (.ofNat n)).map some := rfl
    simp only [present, Option.map_eq_some_iff, slotOfJson?_ofNat, Option.mem_some_iff, forall_eq']
    constructor
    · rintro ⟨m, ⟨small, rfl⟩, rfl⟩
      exact ⟨small, rfl⟩
    · rintro ⟨small, rfl⟩
      exact ⟨n, ⟨small, rfl⟩, rfl⟩

/-- An instruction with a number that is out of range has no record that can be read. -/
theorem Instr.ofJson?_toJson {instr other : Instr} :
    Instr.ofJson? instr.toJson = some other ↔ instr.InRange ∧ other = instr := by
  cases instr with
  | call name inputs output =>
    have read : Instr.ofJson? (Instr.call name inputs output).toJson =
        ((inputs.map .ofNat).mapM slotOfJson?).bind fun inputs =>
          ((Json.ofOption .ofNat output).orNull? slotOfJson?).bind fun output =>
            some (.call name inputs output) := rfl
    simp only [read, Option.bind_eq_some_iff, orNull?_ofNat, InRange,
      mapM_read_eq_some (fun _ _ => slotOfJson?_ofNat)]
    grind
  | jump condition target =>
    have read : Instr.ofJson? (Instr.jump condition target).toJson =
        (slotOfJson? (.ofNat condition)).bind fun condition =>
          (Json.nat? (Nat.pow 2 64) (.ofNat target)).bind fun target =>
            some (.jump condition target) := rfl
    simp only [read, Option.bind_eq_some_iff, slotOfJson?_ofNat, Json.nat?_ofNat, InRange]
    grind
  | grow count =>
    have read : Instr.ofJson? (Instr.grow count).toJson =
        (slotOfJson? (.ofNat count)).map .grow := rfl
    simp only [read, Option.map_eq_some_iff, slotOfJson?_ofNat, InRange]
    grind
  | shrink count =>
    have read : Instr.ofJson? (Instr.shrink count).toJson =
        (slotOfJson? (.ofNat count)).map .shrink := rfl
    simp only [read, Option.map_eq_some_iff, slotOfJson?_ofNat, InRange]
    grind

theorem Tape.ofJson?_toJson {tape other : Tape} :
    Tape.ofJson? tape.toJson = some other ↔ (∀ instr ∈ tape, instr.InRange) ∧ other = tape :=
  mapM_read_eq_some (fun _ _ => Instr.ofJson?_toJson) tape other

theorem Json.ofNat_injective : Function.Injective Json.ofNat :=
  fun _ _ same => Int.ofNat.inj (Json.int.inj same)

theorem Json.ofOption_ofNat_injective : Function.Injective (Json.ofOption Json.ofNat) := by
  rintro (_ | n) (_ | m) same
  · rfl
  · exact nomatch same
  · exact nomatch same
  · exact congrArg some (Json.ofNat_injective same)

theorem Instr.toJson_injective : Function.Injective Instr.toJson := by
  intro instr other same
  have inputs {a b : List Nat} : a.map Json.ofNat = b.map Json.ofNat ↔ a = b :=
    List.map_inj_right fun _ _ equal => Json.ofNat_injective equal
  cases instr <;> cases other <;>
    simp_all [Instr.toJson, Json.ofNat_injective.eq_iff, Json.ofOption_ofNat_injective.eq_iff]

theorem Tape.toJson_injective : Function.Injective Tape.toJson := by
  intro tape other same
  simp only [Tape.toJson, Json.obj.injEq, List.cons.injEq, Prod.mk.injEq, Json.arr.injEq, true_and,
    and_true] at same
  exact (List.map_inj_right fun _ _ equal => Instr.toJson_injective equal).mp same

theorem Instr.whole_toJson (instr : Instr) : instr.toJson.Whole := by
  cases instr with
  | call name inputs output =>
    have slots : Json.WholeItems (inputs.map .ofNat) :=
      Json.wholeItems_map (fun n => show (Json.ofNat n).Whole from trivial) inputs
    cases output <;> exact ⟨⟨trivial, slots, trivial, trivial⟩, trivial⟩
  | jump condition target => exact ⟨⟨trivial, trivial, trivial⟩, trivial⟩
  | grow count => exact ⟨trivial, trivial⟩
  | shrink count => exact ⟨trivial, trivial⟩

theorem Tape.whole_toJson (tape : Tape) : tape.toJson.Whole :=
  ⟨Json.wholeItems_map Instr.whole_toJson tape, trivial⟩

theorem Instr.nesting_toJson_le (instr : Instr) : instr.toJson.nesting ≤ 3 := by
  cases instr with
  | call name inputs output =>
    have slots : Json.nestingItems (inputs.map .ofNat) = 0 :=
      Nat.le_zero.mp (Json.nestingItems_map_le (fun _ => Nat.le_refl 0) inputs)
    cases output <;>
      simp [toJson, Json.ofOption, Json.ofNat, Json.nesting, Json.nestingMembers, slots]
  | jump condition target => exact Nat.le_succ 2
  | grow count => exact Nat.le_add_left 1 2
  | shrink count => exact Nat.le_add_left 1 2

theorem Tape.nesting_toJson_le (tape : Tape) : tape.toJson.nesting ≤ 5 := by
  have code := Json.nestingItems_map_le Instr.nesting_toJson_le tape
  simp only [toJson, Json.nesting, Json.nestingMembers, Nat.max_zero]
  omega

theorem Tape.nesting_toJson_le_depthLimit (tape : Tape) : tape.toJson.nesting ≤ Json.depthLimit :=
  Nat.le_trans tape.nesting_toJson_le (by decide)

theorem Block.parse_toJson (root : Block) :
    (Json.parse root.toJson.pretty).bind Block.ofJson? =
      if root.toJson.nesting ≤ Json.depthLimit then some (root.relabel .bare) else none := by
  rw [Json.parse_pretty (Block.whole_toJson root)]
  split
  · rw [Option.bind_some, Block.ofJson?_toJson]
  · rfl

theorem Block.compile_bare (root : Block) :
    unplaced (root.relabel .bare).compile = unplaced root.compile := by
  have same : (root.relabel .bare).resolve = root.resolve.relabel .unspanned :=
    Block.bind_relabel .bare root [] []
  rw [compile, same, Block.generate_unspanned, compile]

theorem compileSource_eq_ok_iff {source : String} {tape : Tape} :
    compileSource source = .ok tape ↔
      ∃ root, parseSource source = .ok root ∧ root.compile = .ok tape := by
  simp only [compileSource, Except.bind_eq_ok, Except.mapError_eq_ok]

theorem eq_ok_of_unplaced {α : Type} {x y : Except CompileError α} (same : unplaced x = unplaced y)
    {a : α} (made : x = .ok a) : y = .ok a := by
  subst made
  cases y with
  | ok b => exact same.symm
  | error e => exact nomatch same

/-- What is printed as JSON is read back: of a root block the words, which it has before and after slots
are chosen for it, unless it is nested too deep; and of a tape, if its numbers are in range, everything. So
the tape of a source is that of the tree which is read from the printed tree of the source. -/
theorem json_lossless :
    (∀ root : Block,
      (Json.parse root.toJson.pretty).bind Block.ofJson? =
        (if root.toJson.nesting ≤ Json.depthLimit then some (root.relabel .bare) else none) ∧
      root.resolve.toJson.pretty = root.toJson.pretty) ∧
    (∀ tape : Tape, (Json.parse tape.toJson.pretty).bind Tape.ofJson? = some tape ↔
      ∀ instr ∈ tape, instr.InRange) ∧
    ∀ source root, parseSource source = .ok root → root.toJson.nesting ≤ Json.depthLimit →
      ∀ tape, compileSource source = .ok tape ↔
        ∃ decoded, (Json.parse root.toJson.pretty).bind Block.ofJson? = some decoded ∧
          decoded.compile = .ok tape := by
  refine ⟨fun root => ⟨Block.parse_toJson root, ?_⟩, fun tape => ?_,
    fun source root parsed shallow tape => ?_⟩
  · rw [Block.toJson_resolve]
  · rw [Json.parse_pretty (Tape.whole_toJson tape), if_pos tape.nesting_toJson_le_depthLimit,
      Option.bind_some, Tape.ofJson?_toJson]
    exact and_iff_left rfl
  · have read := Block.parse_toJson root
    rw [if_pos shallow] at read
    rw [compileSource_eq_ok_iff]
    constructor
    · rintro ⟨_, parsedToo, compiled⟩
      cases parsed.symm.trans parsedToo
      exact ⟨root.relabel .bare, read, eq_ok_of_unplaced (Block.compile_bare root).symm compiled⟩
    · rintro ⟨decoded, readToo, compiled⟩
      -- There is only one tree that the text is read as.
      cases read.symm.trans readToo
      exact ⟨root, parsed, eq_ok_of_unplaced (Block.compile_bare root) compiled⟩

def nestedBraces : String := String.ofList (List.replicate 43 '\x7b' ++ List.replicate 43 '\x7d')

theorem nestedBraces_unread :
    compileSource nestedBraces = .ok [] ∧
      ∃ root, parseSource nestedBraces = .ok root ∧
        (Json.parse root.toJson.pretty).bind Block.ofJson? = none := by
  have compiled : compileSource nestedBraces = .ok [] := by decide +kernel
  obtain ⟨root, parsed, -⟩ := compileSource_eq_ok_iff.mp compiled
  have nesting : (parseSource nestedBraces).map (·.toJson.nesting) = .ok 128 := by decide +kernel
  rw [parsed] at nesting
  have deep : ¬root.toJson.nesting ≤ Json.depthLimit := by
    rw [show root.toJson.nesting = 128 from Except.ok.inj nesting]
    decide
  exact ⟨compiled, root, parsed, (Block.parse_toJson root).trans (if_neg deep)⟩

end LoopTape
