import LoopTape.Machine.Basic
import LoopTape.Proofs.Scope.Slots

/-! What the names of the open blocks stand for, and how memory lays it out.

Each open block has a scope with its names and their values. A name means the innermost scope that has
it. Memory holds the values of all scopes above the reserved cell, the outermost scope first, so that
the slot of a name in the frames of the same blocks is the cell of its value.
-/

set_option autoImplicit false

namespace LoopTape

abbrev Scope := List (String × Value)

abbrev Scopes := List Scope

def Scope.names (scope : Scope) : List String := scope.map Prod.fst

def Scope.values (scope : Scope) : List Value := scope.map Prod.snd

def Scope.write? (name : String) (value : Value) : Scope → Option Scope
  | [] => none
  | (own, old) :: rest =>
    if own = name then some ((own, value) :: rest)
    else (Scope.write? name value rest).map ((own, old) :: ·)

namespace Scopes

def read? (name : String) : Scopes → Option Value
  | [] => none
  | scope :: rest =>
    match scope.lookup name with
    | some value => some value
    | none => read? name rest

def write? (name : String) (value : Value) : Scopes → Option Scopes
  | [] => none
  | scope :: rest =>
    match scope.write? name value with
    | some written => some (written :: rest)
    | none => (write? name value rest).map (scope :: ·)

def enter (names : List String) (scopes : Scopes) : Scopes := names.map (·, .nil) :: scopes

def cells : Scopes → List Value
  | [] => []
  | scope :: rest => cells rest ++ Scope.values scope

def memory (scopes : Scopes) : Memory := .nil :: scopes.cells

def frames : Scopes → Frames
  | [] => []
  | scope :: rest => ⟨Scope.names scope, Frames.top (frames rest)⟩ :: frames rest

def address? (name : String) (scopes : Scopes) : Option Nat := scopes.frames.slot? name

end Scopes

theorem Scope.lookup_of_index {scope : Scope} {name : String} {index : Nat}
    (found : scope.names.idxOf? name = some index) :
    ∃ value, scope.lookup name = some value ∧ scope.values[index]? = some value := by
  induction scope generalizing index with
  | nil => simp [names] at found
  | cons entry rest ih =>
    obtain ⟨own, old⟩ := entry
    simp only [names, List.map_cons, List.idxOf?_cons] at found
    by_cases same : own = name
    · subst same
      obtain rfl : 0 = index := by simpa using found
      exact ⟨old, by simp, by simp [values]⟩
    · simp only [beq_iff_eq, same, if_false, Option.map_eq_some_iff] at found
      obtain ⟨later, there, rfl⟩ := found
      obtain ⟨value, looked, cell⟩ := ih there
      have other : (name == own) = false := by simpa using fun h => same h.symm
      exact ⟨value, by simpa [List.lookup_cons, other] using looked,
        by simpa [values] using cell⟩

theorem Scope.lookup_of_missing {scope : Scope} {name : String} (missing : name ∉ scope.names) :
    scope.lookup name = none := by
  induction scope with
  | nil => rfl
  | cons entry rest ih =>
    obtain ⟨other, later⟩ := not_or.mp (mt List.mem_cons.mpr missing)
    rw [List.lookup_cons, beq_false_of_ne other]
    exact ih later

theorem Scope.write?_of_index {scope : Scope} {name : String} {index : Nat} (value : Value)
    (found : scope.names.idxOf? name = some index) :
    ∃ written, scope.write? name value = some written ∧ written.names = scope.names ∧
      written.values = scope.values.set index value := by
  induction scope generalizing index with
  | nil => simp [names] at found
  | cons entry rest ih =>
    obtain ⟨own, old⟩ := entry
    simp only [names, List.map_cons, List.idxOf?_cons] at found
    by_cases same : own = name
    · obtain rfl : 0 = index := by simpa [same] using found
      exact ⟨(own, value) :: rest, by simp [write?, same], rfl, rfl⟩
    · simp only [beq_iff_eq, same, if_false, Option.map_eq_some_iff] at found
      obtain ⟨later, there, rfl⟩ := found
      obtain ⟨written, wrote, sameNames, changed⟩ := ih there
      refine ⟨(own, old) :: written, by simp [write?, same, wrote], ?_, ?_⟩
      · exact congrArg (own :: ·) sameNames
      · exact congrArg (old :: ·) changed

theorem Scope.write?_of_missing {scope : Scope} {name : String} (value : Value)
    (missing : name ∉ scope.names) : scope.write? name value = none := by
  induction scope with
  | nil => rfl
  | cons entry rest ih =>
    obtain ⟨other, later⟩ := not_or.mp (mt List.mem_cons.mpr missing)
    rw [write?, if_neg (Ne.symm other), ih later]
    rfl

namespace Scopes

theorem top_frames (scopes : Scopes) : scopes.frames.top = scopes.cells.length := by
  induction scopes with
  | nil => rfl
  | cons scope rest ih =>
    rw [frames, cells, Frames.top, Frame.top, ih, List.length_append]
    simp [Scope.names, Scope.values]

theorem stacked_frames (scopes : Scopes) : scopes.frames.Stacked := by
  induction scopes with
  | nil => trivial
  | cons scope rest ih => exact ⟨rfl, ih⟩

theorem length_memory (scopes : Scopes) : scopes.memory.length = 1 + scopes.frames.top := by
  rw [memory, List.length_cons, top_frames, Nat.add_comm]

theorem read?_of_slot? {scopes : Scopes} {name : String} {slot : Nat}
    (found : scopes.frames.slot? name = some slot) :
    ∃ value, scopes.read? name = some value ∧ scopes.memory[slot]? = some value := by
  induction scopes with
  | nil => simp [frames, Frames.slot?] at found
  | cons scope rest ih =>
    have height := top_frames rest
    rcases Frames.slot?_cons.mp found with own | ⟨missing, outer⟩
    · obtain ⟨index, position, rfl⟩ := Option.map_eq_some_iff.mp own
      obtain ⟨value, looked, cell⟩ := Scope.lookup_of_index position
      refine ⟨value, by rw [read?, looked], ?_⟩
      -- The cells of the innermost scope are the last ones.
      rw [memory, cells, List.getElem?_cons_succ, height, List.getElem?_append_right (by dsimp only; omega)]
      simpa using cell
    · have absent : name ∉ scope.names := by simpa [Frame.slot?] using missing
      obtain ⟨value, looked, cell⟩ := ih outer
      -- An outer slot lies below those of this scope, so its cell is among those of the others.
      have bounds := Frames.slot?_bounds (stacked_frames rest) outer
      refine ⟨value, by rw [read?, Scope.lookup_of_missing absent, looked], ?_⟩
      rw [memory, cells, ← List.cons_append, List.getElem?_append_left (by simp; omega)]
      exact cell

theorem write?_of_slot? {scopes : Scopes} {name : String} {slot : Nat} (value : Value)
    (found : scopes.frames.slot? name = some slot) :
    ∃ written, scopes.write? name value = some written ∧ written.frames = scopes.frames ∧
      written.memory = scopes.memory.set slot value := by
  induction scopes with
  | nil => simp [frames, Frames.slot?] at found
  | cons scope rest ih =>
    have height := top_frames rest
    rcases Frames.slot?_cons.mp found with own | ⟨missing, outer⟩
    · obtain ⟨index, position, rfl⟩ := Option.map_eq_some_iff.mp own
      obtain ⟨written, wrote, sameNames, changed⟩ := Scope.write?_of_index value position
      refine ⟨written :: rest, by rw [write?, wrote], by rw [frames, frames, sameNames], ?_⟩
      rw [memory, cells, memory, cells, List.set_cons_succ, changed, height,
        List.set_append_right _ _ (by dsimp only; omega)]
      simp
    · have absent : name ∉ scope.names := by simpa [Frame.slot?] using missing
      obtain ⟨written, wrote, sameFrames, changed⟩ := ih outer
      have bounds := Frames.slot?_bounds (stacked_frames rest) outer
      refine ⟨scope :: written, ?_, by rw [frames, frames, sameFrames], ?_⟩
      · rw [write?, Scope.write?_of_missing value absent, wrote]
        rfl
      · rw [memory, cells, ← List.cons_append, memory, cells, ← List.cons_append,
          List.set_append_left _ _ (by simp; omega)]
        exact congrArg (· ++ scope.values) changed

theorem frames_enter (names : List String) (scopes : Scopes) :
    (scopes.enter names).frames = ⟨names, scopes.frames.top⟩ :: scopes.frames := by
  simp [enter, frames, Scope.names, Function.comp_def]

theorem memory_enter (names : List String) (scopes : Scopes) :
    (scopes.enter names).memory = scopes.memory ++ List.replicate names.length .nil := by
  simp [enter, memory, cells, Scope.values, Function.comp_def, List.map_const']

theorem frames_tail (scopes : Scopes) : Scopes.frames scopes.tail = scopes.frames.tail := by
  cases scopes <;> rfl

theorem memory_tail (scopes : Scopes) :
    Scopes.memory scopes.tail = scopes.memory.take (1 + Frames.top scopes.frames.tail) := by
  cases scopes with
  | nil => rfl
  | cons scope rest =>
    have height := length_memory rest
    simp only [List.tail_cons, frames, memory, cells, ← List.cons_append] at height ⊢
    rw [← height, List.take_left]

end Scopes

end LoopTape
