import LoopTape.Scope.Arena

/-! Looking a name up in an arena that still grows.

A frame of an open block may get more names, but only names that no block around it had by then. So a
name that was found once is found in the same place in every later arena, whatever was declared
meanwhile.
-/

set_option autoImplicit false

namespace LoopTape

/-- The names of a list that are not in another, each at the place where it first occurs. -/
def newNames (seen names : List String) : List String :=
  names.eraseDups.filter (!seen.contains ·)

theorem eraseDups_filter (keep : String → Bool) (names : List String) :
    (names.filter keep).eraseDups = names.eraseDups.filter keep := by
  -- What `eraseDups` goes on with is shorter than the rest, but not the rest itself.
  induction bound : names.length using Nat.strongRecOn generalizing names with
  | ind length ih =>
    cases names with
    | nil => rfl
    | cons name rest =>
      have shorter : (rest.filter fun other => !other == name).length < length := by
        rw [← bound]
        exact Nat.lt_succ_of_le (List.length_filter_le _ _)
      have later := ih _ shorter (rest.filter fun other => !other == name) rfl
      rw [List.filter_cons, List.eraseDups_cons, List.filter_cons]
      split
      · rw [List.eraseDups_cons, ← later, List.filter_filter, List.filter_filter]
        simp only [Bool.and_comm]
      · rename_i dropped
        rw [← later, List.filter_filter]
        congr 1
        apply List.filter_congr
        intro other _
        cases same : other == name with
        | false => simp
        | true => simpa [eq_of_beq same] using dropped

theorem nodup_eraseDups (names : List String) : names.eraseDups.Nodup := by
  induction bound : names.length using Nat.strongRecOn generalizing names with
  | ind length ih =>
    cases names with
    | nil => exact List.nodup_nil
    | cons name rest =>
      have shorter : (rest.filter fun other => !other == name).length < length := by
        rw [← bound]
        exact Nat.lt_succ_of_le (List.length_filter_le _ _)
      rw [List.eraseDups_cons, List.nodup_cons]
      exact ⟨by simp, ih _ shorter _ rfl⟩

theorem mem_newNames {seen names : List String} {name : String} :
    name ∈ newNames seen names ↔ name ∈ names ∧ name ∉ seen := by
  simp [newNames]

theorem newNames_append (seen first later : List String) :
    newNames seen (first ++ later) = newNames seen first ++ newNames (seen ++ first) later := by
  have fresh : (later.removeAll first).eraseDups = later.eraseDups.filter (!first.contains ·) :=
    eraseDups_filter _ later
  rw [newNames, List.eraseDups_append, List.filter_append, fresh, List.filter_filter, newNames,
    newNames]
  simp

theorem newNames_singleton (seen : List String) (name : String) :
    newNames seen [name] = if name ∈ seen then [] else [name] := by
  by_cases known : name ∈ seen <;> simp [newNames, known, List.eraseDups_cons]

theorem declaredNames_eq (seen : List String) (stmts : List Stmt) :
    declaredNames seen stmts = newNames seen (ownNames stmts) := rfl

theorem ownNames_singleton (s : Stmt) :
    ownNames [s] = s.ownVariables.map Variable.name := by
  simp [ownNames]

theorem ownNames_append (first later : List Stmt) :
    ownNames (first ++ later) = ownNames first ++ ownNames later := by
  rw [ownNames, List.flatMap_append, List.map_append]
  rfl

theorem exists_idxOf? {names : List String} {name : String} (member : name ∈ names) :
    ∃ index, names.idxOf? name = some index :=
  Option.ne_none_iff_exists'.mp (mt List.idxOf?_eq_none_iff.mp (not_not_intro member))

namespace Arena

theorem modify_declare_nil (arena : Arena) (id : Nat) : arena.modify id (·.declare []) = arena := by
  apply List.ext_getElem?
  intro other
  rw [List.getElem?_modify]
  simp [NestedFrame.declare]

theorem modify_declare_append {arena inner : Arena} {id : Nat} (inside : id < arena.length)
    (first later : List String) :
    (arena.modify id (·.declare first) ++ inner).modify id (·.declare later) =
      arena.modify id (·.declare (first ++ later)) ++ inner := by
  apply List.ext_getElem?
  intro other
  simp only [List.getElem?_modify, List.getElem?_append, List.length_modify]
  by_cases early : other < arena.length
  · by_cases here : id = other <;> simp [early, here, NestedFrame.declare]
  · simp [early, show id ≠ other by omega]

theorem modify_between (before after : Arena) (frame : NestedFrame)
    (change : NestedFrame → NestedFrame) :
    (before ++ frame :: after).modify before.length change = before ++ change frame :: after := by
  simp [List.modify_eq_take_drop]

/-- A name is looked up in the frame of the block, and then from the block around it. -/
theorem binding?_of_frame {arena : Arena} {id : Nat} {frame : NestedFrame} (name : String)
    (listed : arena[id]? = some frame) :
    arena.binding? name id =
      ((frame.names.idxOf? name).map (Binding.mk id)).or
        (frame.parent.bind fun outer => if outer < id then arena.binding? name outer else none) := by
  rw [binding?, listed]
  dsimp only
  cases frame.names.idxOf? name with
  | some index => rfl
  | none => cases frame.parent <;> rfl

theorem binding?_of_index {arena : Arena} {id index : Nat} {frame : NestedFrame} {name : String}
    (listed : arena[id]? = some frame) (position : frame.names.idxOf? name = some index) :
    arena.binding? name id = some ⟨id, index⟩ := by
  rw [binding?_of_frame name listed, position, Option.map_some, Option.some_or]

theorem binding?_of_missing {arena : Arena} {id : Nat} {frame : NestedFrame} {name : String}
    (listed : arena[id]? = some frame) (missing : name ∉ frame.names) :
    arena.binding? name id =
      frame.parent.bind fun outer => if outer < id then arena.binding? name outer else none := by
  rw [binding?_of_frame name listed, List.idxOf?_eq_none_iff.mpr missing, Option.map_none,
    Option.none_or]

theorem isSome_binding? {arena : Arena} {id : Nat} {frame : NestedFrame} {name : String}
    (listed : arena[id]? = some frame) :
    (arena.binding? name id).isSome ↔ name ∈ frame.names ∨
      ∃ outer, frame.parent = some outer ∧ outer < id ∧ (arena.binding? name outer).isSome := by
  by_cases own : name ∈ frame.names
  · obtain ⟨index, position⟩ := exists_idxOf? own
    simp [binding?_of_index listed position, own]
  · rw [binding?_of_missing listed own]
    cases frame.parent with
    | none => simp [own]
    | some outer =>
      by_cases before : outer < id <;> simp [own, before]

/-- Only the frames up to a block count for what is found from there. -/
theorem binding?_congr {arena later : Arena} {id : Nat} (name : String)
    (same : ∀ other ≤ id, later[other]? = arena[other]?) :
    later.binding? name id = arena.binding? name id := by
  induction id using Nat.strongRecOn with
  | ind id ih =>
    cases listed : arena[id]? with
    | none => rw [binding?, binding?, same id (Nat.le_refl id), listed]
    | some frame =>
      rw [binding?_of_frame name listed,
        binding?_of_frame name ((same id (Nat.le_refl id)).trans listed)]
      congr 2
      funext outer
      split
      · rename_i before
        exact ih outer before fun other bound => same other (by omega)
      · rfl

/-- A later state of an arena: every frame still has its names and its parent, and the names it got
since then were not found from there before. -/
def Grows (arena later : Arena) : Prop :=
  ∀ id frame, arena[id]? = some frame → ∃ grown added,
    later[id]? = some grown ∧ grown.names = frame.names ++ added ∧ grown.parent = frame.parent ∧
      ∀ name ∈ added, arena.binding? name id = none

/-- A name that was found is found in the same place later on. -/
theorem Grows.binding? {arena later : Arena} (grows : arena.Grows later) {name : String} {id : Nat}
    {found : Binding} (known : arena.binding? name id = some found) :
    later.binding? name id = some found := by
  induction id using Nat.strongRecOn with
  | ind id ih =>
    cases listed : arena[id]? with
    | none =>
      rw [Arena.binding?, listed] at known
      cases known
    | some frame =>
      obtain ⟨grown, added, there, names, parent, fresh⟩ := grows id frame listed
      cases position : frame.names.idxOf? name with
      | some index =>
        have still : grown.names.idxOf? name = some index := by
          rw [List.idxOf?_eq_some_iff] at position ⊢
          obtain ⟨inside, here, first⟩ := position
          refine ⟨by rw [names, List.length_append]; omega, ?_, ?_⟩
          · simpa only [names, List.getElem_append_left inside] using here
          · intro other before
            simpa only [names, List.getElem_append_left (Nat.lt_trans before inside)] using
              first other before
        rw [binding?_of_index there still, ← known, binding?_of_index listed position]
      | none =>
        have missing := List.idxOf?_eq_none_iff.mp position
        have notAdded : name ∉ added := by
          intro member
          rw [fresh name member] at known
          cases known
        have stillMissing : name ∉ grown.names := by
          simp only [names, List.mem_append, not_or]
          exact ⟨missing, notAdded⟩
        rw [binding?_of_missing listed missing, Option.bind_eq_some_iff] at known
        obtain ⟨outer, around, found⟩ := known
        rw [binding?_of_missing there stillMissing, parent, around]
        split at found
        · rename_i before
          simp only [Option.bind_some, before, if_true]
          exact ih outer before found
        · cases found

theorem Grows.trans {arena mid later : Arena} (first : arena.Grows mid) (second : mid.Grows later) :
    arena.Grows later := by
  intro id frame listed
  obtain ⟨between, added, there, names, parent, fresh⟩ := first id frame listed
  obtain ⟨grown, more, last, moreNames, sameParent, stillFresh⟩ := second id between there
  refine ⟨grown, added ++ more, last, ?_, sameParent.trans parent, ?_⟩
  · rw [moreNames, names, List.append_assoc]
  · intro name member
    rcases List.mem_append.mp member with early | late
    · exact fresh name early
    · -- What is found in the first arena is found in the second one too.
      cases known : arena.binding? name id with
      | none => rfl
      | some found => exact absurd (first.binding? known) (by rw [stillFresh name late]; nofun)

theorem grows_declare {arena : Arena} {id : Nat} {added : List String} (inner : Arena)
    (fresh : ∀ name ∈ added, arena.binding? name id = none) :
    arena.Grows (arena.modify id (·.declare added) ++ inner) := by
  intro other frame listed
  have inside : other < arena.length := (List.getElem?_eq_some_iff.mp listed).1
  have kept : (arena.modify id (·.declare added) ++ inner)[other]? =
      some (if id = other then frame.declare added else frame) := by
    rw [List.getElem?_append_left (by rwa [List.length_modify]), List.getElem?_modify, listed]
    rfl
  by_cases here : id = other
  · subst here
    exact ⟨frame.declare added, added, by rw [kept, if_pos rfl], rfl, rfl, fresh⟩
  · exact ⟨frame, [], by rw [kept, if_neg here], (List.append_nil _).symm, rfl, nofun⟩

theorem isSome_binding?_declare {arena later : Arena} {id : Nat} (inside : id < arena.length)
    {added : List String} {inner : Arena}
    (grown : later = arena.modify id (·.declare added) ++ inner) (name : String) :
    (later.binding? name id).isSome ↔ (arena.binding? name id).isSome ∨ name ∈ added := by
  have kept : ∀ other ≤ id, later[other]? =
      arena[other]?.map fun frame => if id = other then frame.declare added else frame := by
    intro other bound
    rw [grown, List.getElem?_append_left (by rw [List.length_modify]; omega),
      List.getElem?_modify]
    rfl
  obtain ⟨frame, listed⟩ : ∃ frame, arena[id]? = some frame :=
    ⟨_, List.getElem?_eq_getElem inside⟩
  have declared : later[id]? = some (frame.declare added) := by
    rw [kept id (Nat.le_refl id), listed, Option.map_some, if_pos rfl]
  have outside : ∀ outer < id, later.binding? name outer = arena.binding? name outer := by
    intro outer before
    apply binding?_congr
    intro other bound
    rw [kept other (by omega)]
    simp only [show id ≠ other by omega, if_false, Option.map_id']
  rw [isSome_binding? listed, isSome_binding? declared, NestedFrame.declare]
  simp only [List.mem_append]
  constructor
  · rintro ((own | new) | ⟨outer, around, before, found⟩)
    · exact .inl (.inl own)
    · exact .inr new
    · exact .inl (.inr ⟨outer, around, before, outside outer before ▸ found⟩)
  · rintro ((own | ⟨outer, around, before, found⟩) | new)
    · exact .inl (.inl own)
    · exact .inr ⟨outer, around, before, (outside outer before).symm ▸ found⟩
    · exact .inl (.inr new)

end Arena

end LoopTape
