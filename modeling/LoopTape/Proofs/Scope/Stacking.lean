import LoopTape.Proofs.Scope.Lexical
import Mathlib.Algebra.Ring.Nat
import Mathlib.Data.Set.Function
import Mathlib.Order.Bounds.Defs
import Mathlib.Order.Interval.Set.Defs

/-! The slots of the names that a point of a program can mean.

The names that a block and the blocks around it declare have the slots from one up to their number, each
name its own. The slots of a block lie right above all those of the blocks around it, also of the names
that those blocks declare behind it, and blocks that lie side by side start at the same slot.
-/

set_option autoImplicit false

namespace LoopTape

def Block.slotCount (root : Block) (chain : List Nat) : Nat :=
  (chain.map fun id => (root.blocks[id]?.map Block.localSlots).getD 0).sum

/-- The names that the blocks of a chain declare, each with the number of its block. -/
def Arena.declarations (arena : Arena) (chain : List Nat) : Set (Nat × String) :=
  {entry | entry.1 ∈ chain ∧ entry.2 ∈ arena.names entry.1}

/-- How the slots of a bound tree lie. -/
structure SlotsStacked (root : Block) (arena : Arena) : Prop where
  bijective : ∀ chain ∈ root.allChains,
    Set.BijOn (fun entry => arena.slot? entry.2 entry.1) (arena.declarations chain)
      (some '' Set.Icc 1 (root.slotCount chain))
  contiguous : ∀ id around, id :: around ∈ root.allChains →
    (arena.names id).map (arena.slot? · id) =
      (List.range' (root.slotCount around + 1) (arena.names id).length).map some
  positive : ∀ v ∈ root.variables, ∃ slot, v.slot = some slot ∧ 0 < slot
  siblings : ∀ first ∈ arena, ∀ second ∈ arena, first.parent = second.parent →
    first.base = second.base
  peak : IsGreatest {count | ∃ chain ∈ root.allChains, root.slotCount chain = count} arena.peakSlot
  limited : arena.peakSlot ≤ (arena.map (·.names.length)).sum

theorem Frame.slots_eq_range' (frame : Frame) (distinct : frame.names.Nodup) :
    frame.names.map frame.slot? =
      (List.range' (frame.base + 1) frame.names.length).map some := by
  apply List.ext_getElem
  · simp
  · intro index inside _
    rw [List.length_map] at inside
    have position : frame.names.idxOf? frame.names[index] = some index := by
      rw [List.idxOf?_eq_some_iff]
      refine ⟨inside, rfl, fun other before same => ?_⟩
      exact absurd ((List.getElem_inj distinct).mp same) (Nat.ne_of_lt before)
    simp only [List.getElem_map, List.getElem_range', Frame.slot?, position, Option.map_some,
      Option.some.injEq]
    omega

theorem Frame.slot?_inj {frame : Frame} {name other : String} (declared : name ∈ frame.names)
    (same : frame.slot? name = frame.slot? other) : name = other := by
  obtain ⟨index, position⟩ := exists_idxOf? declared
  rw [Frame.slot?, position, Option.map_some, eq_comm, Frame.slot?, Option.map_eq_some_iff] at same
  obtain ⟨place, there, slot⟩ := same
  obtain ⟨inside, here, -⟩ := List.idxOf?_eq_some_iff.mp position
  obtain ⟨_, alike, -⟩ := List.idxOf?_eq_some_iff.mp there
  have samePlace : place = index := by omega
  subst samePlace
  exact here.symm.trans alike

namespace Arena

variable {arena : Arena} {id : Nat} {chain outer : List Nat} {frames : Frames}

theorem slot?_of_frame {frame : NestedFrame} (listed : arena[id]? = some frame) (name : String) :
    arena.slot? name id = frame.slot? name := by
  rw [slot?, listed]
  rfl

theorem mem_declarations {id : Nat} {name : String} :
    (id, name) ∈ arena.declarations chain ↔ id ∈ chain ∧ name ∈ arena.names id := Iff.rfl

theorem bijOn_own {frame : NestedFrame} (listed : arena[id]? = some frame)
    (distinct : frame.names.Nodup) :
    Set.BijOn (fun entry => arena.slot? entry.2 entry.1) (arena.declarations [id])
      (some '' Set.Icc (frame.base + 1) frame.top) := by
  have slots := frame.slots_eq_range' distinct
  have own := names_of_frame listed
  refine ⟨?_, ?_, ?_⟩
  · rintro ⟨other, name⟩ member
    obtain ⟨here, declared⟩ := mem_declarations.mp member
    obtain rfl := List.mem_singleton.mp here
    have taken : frame.slot? name ∈ frame.names.map frame.slot? :=
      List.mem_map_of_mem (own ▸ declared)
    rw [slots, List.mem_map] at taken
    obtain ⟨slot, range, same⟩ := taken
    rw [List.mem_range'_1] at range
    have below : slot ≤ frame.top := by
      unfold Frame.top
      omega
    exact ⟨slot, ⟨range.1, below⟩, same.trans (slot?_of_frame listed name).symm⟩
  · rintro ⟨first, name⟩ member ⟨second, other⟩ otherMember same
    obtain ⟨here, declared⟩ := mem_declarations.mp member
    obtain rfl := List.mem_singleton.mp here
    obtain rfl := List.mem_singleton.mp (mem_declarations.mp otherMember).1
    simp only [slot?_of_frame listed] at same
    rw [Frame.slot?_inj (own ▸ declared) same]
  · rintro _ ⟨slot, ⟨above, below⟩, rfl⟩
    have range : slot ∈ List.range' (frame.base + 1) frame.names.length := by
      unfold Frame.top at below
      exact List.mem_range'_1.mpr ⟨above, by omega⟩
    have taken : some slot ∈ frame.names.map frame.slot? := by
      rw [slots]
      exact List.mem_map_of_mem range
    obtain ⟨name, declared, same⟩ := List.mem_map.mp taken
    refine ⟨(id, name), mem_declarations.mpr ⟨List.mem_singleton_self id, own ▸ declared⟩, ?_⟩
    exact (slot?_of_frame listed name).trans same

theorem declarations_cons (arena : Arena) (id : Nat) (outer : List Nat) :
    arena.declarations (id :: outer) = arena.declarations outer ∪ arena.declarations [id] := by
  ext ⟨other, name⟩
  rw [Set.mem_union, mem_declarations, mem_declarations, mem_declarations, List.mem_cons,
    List.mem_singleton]
  tauto

/-- The declarations of a chain take all slots up to the top of its frames. -/
theorem Chain.bijOn (chained : arena.Chain chain frames)
    (distinct : ∀ id, (arena.names id).Nodup) :
    Set.BijOn (fun entry => arena.slot? entry.2 entry.1) (arena.declarations chain)
      (some '' Set.Icc 1 frames.top) := by
  induction chained with
  | nil =>
    refine ⟨?_, ?_, ?_⟩
    · rintro entry ⟨member, -⟩
      cases member
    · rintro entry ⟨member, -⟩
      cases member
    · rintro _ ⟨slot, ⟨above, below⟩, rfl⟩
      exact absurd (Nat.le_trans above below) (Nat.not_succ_le_zero 0)
  | @cons id outer names frames listed before around ih =>
    have own := bijOn_own listed (names_of_frame listed ▸ distinct id)
    have slots : some '' Set.Icc 1 (Frames.top (⟨names, frames.top⟩ :: frames)) =
        some '' Set.Icc 1 frames.top ∪
          some '' Set.Icc (frames.top + 1) (Frame.top ⟨names, frames.top⟩) := by
      rw [← Set.image_union]
      congr 1
      ext slot
      simp only [Frames.top, Frame.top, Set.mem_union, Set.mem_Icc]
      omega
    rw [declarations_cons, slots]
    refine ih.union own ((Set.injOn_union ?_).mpr ⟨ih.injOn, own.injOn, ?_⟩)
    · rw [Set.disjoint_left]
      rintro ⟨other, name⟩ outside inside
      obtain rfl := List.mem_singleton.mp (mem_declarations.mp inside).1
      exact Nat.lt_irrefl _ (before _ (mem_declarations.mp outside).1)
    · -- The slots of the blocks around end where those of this block begin.
      intro entry outside other inside same
      obtain ⟨slot, ⟨-, below⟩, found⟩ := ih.mapsTo outside
      obtain ⟨higher, ⟨above, -⟩, there⟩ := own.mapsTo inside
      have equal : slot = higher := Option.some.inj (found.trans (same.trans there.symm))
      dsimp only at above
      omega

theorem Chain.top_eq (chained : arena.Chain chain frames) {count : Nat → Nat}
    (counts : ∀ id frame, arena[id]? = some frame → count id = frame.names.length) :
    frames.top = (chain.map count).sum := by
  induction chained with
  | nil => rfl
  | cons listed before around ih =>
    rw [List.map_cons, List.sum_cons, counts _ _ listed, ← ih]
    exact Nat.add_comm _ _

/-- A chain has no more slots than there are names in the frames of the blocks up to its last one. -/
theorem Chain.top_le (chained : arena.Chain chain frames) {bound : Nat}
    (opened : ∀ id ∈ chain, id < bound) :
    frames.top ≤ ((arena.take bound).map (·.names.length)).sum := by
  induction chained generalizing bound with
  | nil => exact Nat.zero_le _
  | @cons id outer names frames listed before around ih =>
    have earlier := ih before
    have first : (arena.take bound).take (id + 1) =
        arena.take id ++ [⟨⟨names, frames.top⟩, outer.head?⟩] := by
      rw [List.take_take, Nat.min_eq_left (opened id List.mem_cons_self), List.take_add_one, listed]
      rfl
    rw [← List.take_append_drop (id + 1) (arena.take bound), first]
    have top : Frames.top (⟨names, frames.top⟩ :: frames) = frames.top + names.length := rfl
    simp only [top, List.map_append, List.sum_append, List.map_cons, List.map_nil, List.sum_cons,
      List.sum_nil]
    omega

end Arena

theorem Block.slotCount_eq_top {root : Block} {chain : List Nat} {frames : Frames}
    (chained : root.arena.Chain chain frames) : root.resolve.slotCount chain = frames.top := by
  have counted := (Block.lexicallyBound_resolve root).counted
  rw [slotCount, ← chained.top_eq]
  intro id frame listed
  have here := congrArg (·[id]?) counted
  simp only [List.getElem?_map, listed, Option.map_some] at here
  rw [here]
  rfl

theorem foldl_max_mem {numbers : List Nat} (nonempty : numbers ≠ []) :
    numbers.foldl max 0 ∈ numbers := by
  rw [List.foldl_max_eq_max nonempty, Nat.zero_max]
  exact List.max_mem nonempty

theorem Block.top_of_mem_arena {root : Block} {frame : NestedFrame} (member : frame ∈ root.arena) :
    ∃ id outer frames, root.arena[id]? = some frame ∧ id :: outer ∈ root.allChains ∧
      root.arena.Chain (id :: outer) frames ∧ frames.top = frame.top := by
  obtain ⟨id, listed⟩ := List.getElem?_of_mem member
  obtain ⟨outer, frames, inTree, chained⟩ :=
    Block.chain_of_lt (List.getElem?_eq_some_iff.mp listed).1
  refine ⟨id, outer, frames, listed, inTree, chained, ?_⟩
  cases chained with
  | cons there _ _ =>
    cases listed.symm.trans there
    rfl

theorem Block.slotsStacked_resolve (root : Block) : SlotsStacked root.resolve root.arena := by
  have lexical := Block.lexicallyBound_resolve root
  have same := root.arena_resolve
  have chained : ∀ chain ∈ root.resolve.allChains, ∃ frames, root.arena.Chain chain frames := by
    intro chain member
    obtain ⟨frames, chained⟩ := Block.frames_of_allChains member
    exact ⟨frames, same ▸ chained⟩
  have peak : ∃ frame ∈ root.arena, frame.top = root.arena.peakSlot := by
    have opened : root.arena ≠ [] := by
      cases root
      exact List.cons_ne_nil _ _
    exact List.mem_map.mp (foldl_max_mem (mt List.map_eq_nil_iff.mp opened))
  constructor
  case bijective =>
    intro chain member
    obtain ⟨frames, chained⟩ := chained chain member
    rw [Block.slotCount_eq_top chained]
    exact chained.bijOn lexical.distinct
  case contiguous =>
    intro id around member
    obtain ⟨frames, chained⟩ := chained _ member
    cases chained with
    | @cons _ _ names outside listed before around =>
      have own := Arena.names_of_frame listed
      have distinct := lexical.distinct id
      rw [own] at distinct
      have slots := Frame.slots_eq_range' ⟨names, outside.top⟩ distinct
      rw [Block.slotCount_eq_top around, own, ← slots]
      exact List.map_congr_left fun name _ => Arena.slot?_of_frame listed name
  case positive =>
    intro v member
    rw [← root.resolve.variables_occurrences 0 [], List.mem_map] at member
    obtain ⟨o, occurs, rfl⟩ := member
    obtain ⟨id, slot, -, taken, bound⟩ := lexical.bound o occurs
    obtain ⟨frame, -, found⟩ := Option.bind_eq_some_iff.mp taken
    exact ⟨slot, bound, Nat.lt_of_le_of_lt (Nat.zero_le _) (Frame.slot?_bounds found).1⟩
  case siblings =>
    intro first member second other sameParent
    have base : ∀ frame ∈ root.arena, frame.base = root.arena.topOf frame.parent := by
      intro frame inArena
      obtain ⟨id, outer, frames, listed, -, chained, -⟩ := Block.top_of_mem_arena inArena
      obtain ⟨found, there, base, -⟩ := chained.base_eq
      cases listed.symm.trans there
      exact base
    rw [base first member, base second other, sameParent]
  case peak =>
    constructor
    · obtain ⟨frame, member, top⟩ := peak
      rw [← same] at member
      obtain ⟨id, outer, frames, -, inTree, chained, highest⟩ := Block.top_of_mem_arena member
      rw [same] at chained
      exact ⟨id :: outer, inTree, (Block.slotCount_eq_top chained).trans (highest.trans top)⟩
    · rintro count ⟨chain, member, rfl⟩
      obtain ⟨frames, chained⟩ := chained chain member
      rw [Block.slotCount_eq_top chained]
      cases chained with
      | nil => exact Nat.zero_le _
      | cons listed _ _ =>
        exact (le_foldl_max _ 0).2 _ (List.mem_map_of_mem (List.mem_of_getElem? listed))
  case limited =>
    obtain ⟨frame, member, top⟩ := peak
    obtain ⟨id, outer, frames, -, -, chained, highest⟩ := Block.top_of_mem_arena member
    have inside : ∀ block ∈ id :: outer, block < root.arena.length := by
      cases chained with
      | cons listed before _ =>
        have here := (List.getElem?_eq_some_iff.mp listed).1
        intro block inChain
        rcases List.mem_cons.mp inChain with rfl | around
        · exact here
        · exact Nat.lt_trans (before block around) here
    have limit := chained.top_le inside
    rw [List.take_length] at limit
    omega

/-- A name that the outer block declares behind an inner one still has its slot below the inner name. -/
example : (Block.mk [.call (some ⟨"a", none⟩) "f" [] .unknown,
    .block (.mk [.call (some ⟨"x", none⟩) "f" [] .unknown] 0),
    .call (some ⟨"late", none⟩) "f" [] .unknown] 0).resolve.variables.map (·.slot) =
      [some 1, some 3, some 2] := by
  decide

/-- No two variables that live together share a slot, and no slot is left out: the names that the blocks
around a point declare have the slots from 1 up, each block's above those of the blocks around it. -/
theorem Block.resolve_stacked (root : Block) :
    ∃ arena, root.resolveInArena = (root.resolve, arena) ∧ SlotsStacked root.resolve arena ∧
      arena.peakSlot = root.peakSlot := by
  refine ⟨root.arena, root.resolveInArena_eq, root.slotsStacked_resolve, ?_⟩
  rw [peakSlot, ← root.frames_arena, List.map_map]
  rfl

end LoopTape
