import LoopTape.Proofs.Scope.Passes

/-! Which block declares a name.

A block declares the names that occur directly in it when no block around it has declared them yet, in
the order in which they first occur there. Only blocks that are open at an occurrence matter for it, so
what stands in a block that was left is passed over.
-/

set_option autoImplicit false

namespace LoopTape

def namesIn (occurrences : List Occurrence) (id : Nat) : List String :=
  (occurrences.filter (·.block == id)).map (·.name)

namespace Arena

/-- One of the blocks has declared the name in one of the earlier occurrences. -/
def Declared (arena : Arena) (earlier : List Occurrence) (blocks : List Nat) (name : String) : Prop :=
  ∃ o ∈ earlier, o.name = name ∧ o.block ∈ blocks ∧ name ∈ arena.names o.block

/-- Behind some occurrences, each block declares the name of an occurrence in it exactly if no block
around it has declared it by then. -/
def Accounts (arena : Arena) (earlier occurrences : List Occurrence) : Prop :=
  ∀ before o after, occurrences = before ++ o :: after →
    (o.name ∈ arena.names o.block ↔ ¬ arena.Declared (earlier ++ before) o.around o.name)

theorem names_of_frame {arena : Arena} {id : Nat} {frame : NestedFrame}
    (listed : arena[id]? = some frame) : arena.names id = frame.names := by
  rw [names, listed]
  rfl

variable {arena : Arena} {earlier more occurrences later : List Occurrence} {blocks : List Nat}

theorem Declared.append {name : String} (declared : arena.Declared earlier blocks name)
    (more : List Occurrence) : arena.Declared (earlier ++ more) blocks name := by
  obtain ⟨o, member, rest⟩ := declared
  exact ⟨o, List.mem_append_left more member, rest⟩

/-- Occurrences in other blocks declare nothing in these. -/
theorem declared_append_of_outside {name : String} (outside : ∀ o ∈ more, o.block ∉ blocks) :
    arena.Declared (earlier ++ more) blocks name ↔ arena.Declared earlier blocks name := by
  constructor
  · rintro ⟨o, member, named, inside, declares⟩
    rcases List.mem_append.mp member with old | new
    · exact ⟨o, old, named, inside, declares⟩
    · exact absurd inside (outside o new)
  · intro declared
    exact declared.append more

theorem accounts_nil : arena.Accounts earlier [] := by
  intro before o after split
  exact absurd split.symm (List.append_ne_nil_of_right_ne_nil before (List.cons_ne_nil o after))

theorem Accounts.append (first : arena.Accounts earlier occurrences)
    (second : arena.Accounts (earlier ++ occurrences) later) :
    arena.Accounts earlier (occurrences ++ later) := by
  intro before o after split
  rcases List.append_eq_append_iff.mp split with ⟨between, reached, rest⟩ | ⟨between, reached, rest⟩
  · rw [reached, ← List.append_assoc]
    exact second between o after rest
  · cases between with
    | nil =>
      rw [List.append_nil] at reached
      rw [← reached, ← List.append_nil (earlier ++ occurrences)]
      exact second [] o after rest.symm
    | cons head tail =>
      obtain ⟨rfl, -⟩ := List.cons.inj rest
      exact first before o tail reached

end Arena

/-- At a point of the text the blocks opened so far have numbers below `next`, and the names in `seen` are
those that the blocks around it have declared. -/
structure Arena.Upto (arena : Arena) (earlier : List Occurrence) (next : Nat) (chain : List Nat)
    (seen : List String) : Prop where
  past : ∀ o ∈ earlier, o.block < next
  around : ∀ id ∈ chain, id < next
  known : ∀ name, name ∈ seen ↔ arena.Declared earlier chain name

section

variable {arena : Arena} {earlier more : List Occurrence} {next later : Nat} {chain : List Nat}
  {seen : List String}

theorem Arena.Upto.behind (upto : arena.Upto earlier next chain seen) (advanced : next ≤ later)
    (inner : ∀ o ∈ more, next ≤ o.block ∧ o.block < later) :
    arena.Upto (earlier ++ more) later chain seen := by
  constructor
  · intro o member
    rcases List.mem_append.mp member with old | new
    · exact Nat.lt_of_lt_of_le (upto.past o old) advanced
    · exact (inner o new).2
  · exact fun id member => Nat.lt_of_lt_of_le (upto.around id member) advanced
  · intro name
    rw [upto.known, Arena.declared_append_of_outside]
    intro o member inside
    have := upto.around o.block inside
    have := (inner o member).1
    omega

theorem Arena.Upto.enter (upto : arena.Upto earlier next chain seen) :
    arena.Upto earlier (next + 1) (next :: chain) seen := by
  constructor
  · exact fun o member => Nat.lt_succ_of_lt (upto.past o member)
  · intro id member
    rcases List.mem_cons.mp member with rfl | outer
    · exact Nat.lt_succ_self _
    · exact Nat.lt_succ_of_lt (upto.around id outer)
  · intro name
    rw [upto.known]
    constructor
    · rintro ⟨o, member, named, inside, declares⟩
      exact ⟨o, member, named, List.mem_cons_of_mem next inside, declares⟩
    · rintro ⟨o, member, named, inside, declares⟩
      rcases List.mem_cons.mp inside with here | outer
      · exact absurd (upto.past o member) (by omega)
      · exact ⟨o, member, named, outer, declares⟩

variable {id : Nat} {vars : List Variable}

/-- The variables of a statement are accounted for by what the blocks around have declared before. -/
theorem Arena.accounts_own (past : id ∉ chain)
    (own : ∀ v ∈ vars, v.name ∈ arena.names id ↔ ¬ arena.Declared earlier chain v.name) :
    arena.Accounts earlier (vars.map (Occurrence.mk · id chain)) := by
  intro before o after split
  have here : ∀ other ∈ vars.map (Occurrence.mk · id chain),
      ∃ v ∈ vars, (⟨v, id, chain⟩ : Occurrence) = other := fun other member =>
    List.mem_map.mp member
  obtain ⟨v, member, rfl⟩ := here o (by rw [split]; simp)
  rw [own v member, declared_append_of_outside]
  intro other inBefore
  obtain ⟨_, _, rfl⟩ := here other (by rw [split]; exact List.mem_append_left _ inBefore)
  exact past

theorem Arena.Upto.own (upto : arena.Upto earlier next (id :: chain) seen)
    (own : ∀ v ∈ vars, v.name ∈ arena.names id ↔ ¬ arena.Declared earlier chain v.name) :
    arena.Upto (earlier ++ vars.map (Occurrence.mk · id chain)) next (id :: chain)
      (seen ++ vars.map Variable.name) := by
  have here := upto.around id List.mem_cons_self
  constructor
  · intro o member
    rcases List.mem_append.mp member with old | new
    · exact upto.past o old
    · obtain ⟨v, _, rfl⟩ := List.mem_map.mp new
      exact here
  · exact upto.around
  · intro name
    rw [List.mem_append, upto.known]
    constructor
    · rintro (declared | occurs)
      · exact declared.append _
      · obtain ⟨v, member, rfl⟩ := List.mem_map.mp occurs
        by_cases declares : v.name ∈ arena.names id
        · refine ⟨⟨v, id, chain⟩, ?_, rfl, List.mem_cons_self, declares⟩
          exact List.mem_append_right _ (List.mem_map.mpr ⟨v, member, rfl⟩)
        · -- It is not declared here because a block around has done so.
          obtain ⟨o, old, named, outer, there⟩ :=
            Classical.not_not.mp (mt (own v member).mpr declares)
          exact ⟨o, List.mem_append_left _ old, named, List.mem_cons_of_mem id outer, there⟩
    · rintro ⟨o, member, named, inside, declares⟩
      rcases List.mem_append.mp member with old | new
      · exact .inl ⟨o, old, named, inside, declares⟩
      · obtain ⟨v, occurs, rfl⟩ := List.mem_map.mp new
        exact .inr (List.mem_map.mpr ⟨v, occurs, named⟩)

end

mutual

theorem Block.accounts (block : Block) {arena : Arena} {earlier : List Occurrence} {next : Nat}
    {around : List Nat} {base : Nat} {seen : List String}
    (upto : arena.Upto earlier next around seen)
    (lists : arena.Lists next (block.arenaFrom next around base seen)) :
    arena.Accounts earlier (block.occurrences next around) := by
  cases block with
  | mk stmts slots =>
    rw [Block.arenaFrom_mk] at lists
    refine Stmt.accountsAll stmts upto.enter (fun inside => ?_) (fun name occurs => ?_) lists.tail
    · exact Nat.lt_irrefl next (upto.around next inside)
    · rw [Arena.names_of_frame lists.head, declaredNames_eq, mem_newNames, ← upto.known]
      simp [occurs]

theorem Stmt.accountsAll (stmts : List Stmt) {arena : Arena} {earlier : List Occurrence}
    {id next : Nat} {around : List Nat} {base : Nat} {seen : List String}
    (upto : arena.Upto earlier next (id :: around) seen) (apart : id ∉ around)
    (own : ∀ name ∈ ownNames stmts,
      name ∈ arena.names id ↔ ¬ arena.Declared earlier around name)
    (lists : arena.Lists next (Stmt.arenaAllFrom next (id :: around) base seen stmts)) :
    arena.Accounts earlier (Stmt.occurrencesAll id next around stmts) := by
  cases stmts with
  | nil => exact Arena.accounts_nil
  | cons s rest =>
    rw [Stmt.arenaAllFrom_cons] at lists
    rw [ownNames_cons] at own
    have first : ∀ v ∈ s.ownVariables,
        v.name ∈ arena.names id ↔ ¬ arena.Declared earlier around v.name := fun v member =>
      own v.name (List.mem_append_left _ (List.mem_map_of_mem member))
    have reached := upto.own first
    rw [← ownNames_singleton] at reached
    have nested := Stmt.accounts s reached lists.left
    have passed := reached.behind (Nat.le_add_right next _) (s.block_of_nested next (id :: around))
    have behind := lists.right
    rw [Stmt.length_arenaFrom] at behind
    -- What stands in this block or in nested ones declares nothing in the blocks around.
    have later : ∀ name ∈ ownNames rest, name ∈ arena.names id ↔
        ¬ arena.Declared (earlier ++ s.ownVariables.map (Occurrence.mk · id around) ++
          s.nestedOccurrences next (id :: around)) around name := by
      intro name occurs
      rw [own name (List.mem_append_right _ occurs), List.append_assoc,
        Arena.declared_append_of_outside]
      intro o member inside
      rcases List.mem_append.mp member with mine | inner
      · obtain ⟨v, _, rfl⟩ := List.mem_map.mp mine
        exact apart inside
      · have := (s.block_of_nested next (id :: around) o inner).1
        have := upto.around o.block (List.mem_cons_of_mem id inside)
        omega
    have others := Stmt.accountsAll rest passed apart later behind
    have start := Arena.accounts_own apart first
    rw [List.append_assoc] at others
    exact (start.append nested).append others

theorem Stmt.accounts (s : Stmt) {arena : Arena} {earlier : List Occurrence} {next : Nat}
    {around : List Nat} {base : Nat} {seen : List String}
    (upto : arena.Upto earlier next around seen)
    (lists : arena.Lists next (s.arenaFrom next around base seen)) :
    arena.Accounts earlier (s.nestedOccurrences next around) := by
  match s with
  | .cond condition thenBlock none => exact Block.accounts thenBlock upto lists
  | .cond condition thenBlock (some elseBlock) =>
    rw [Stmt.arenaFrom_cond] at lists
    have whenTrue := Block.accounts thenBlock upto lists.left
    have passed := upto.behind (Nat.le_add_right next _) (thenBlock.block_of_occurrences next around)
    have behind := lists.right
    rw [Block.length_arenaFrom] at behind
    exact whenTrue.append (Block.accounts elseBlock passed behind)
  | .loop label body span => exact Block.accounts body upto lists
  | .leave label span => exact Arena.accounts_nil
  | .call result name args span => exact Arena.accounts_nil
  | .block inner => exact Block.accounts inner upto lists

end

theorem namesIn_append (first later : List Occurrence) (id : Nat) :
    namesIn (first ++ later) id = namesIn first id ++ namesIn later id := by
  simp [namesIn]

theorem namesIn_eq_nil {occurrences : List Occurrence} {id : Nat}
    (elsewhere : ∀ o ∈ occurrences, o.block ≠ id) : namesIn occurrences id = [] := by
  simpa [namesIn] using elsewhere

theorem namesIn_append_left {first later : List Occurrence} {id : Nat}
    (elsewhere : ∀ o ∈ later, o.block ≠ id) : namesIn (first ++ later) id = namesIn first id := by
  rw [namesIn_append, namesIn_eq_nil elsewhere, List.append_nil]

theorem namesIn_append_right {first later : List Occurrence} {id : Nat}
    (elsewhere : ∀ o ∈ first, o.block ≠ id) : namesIn (first ++ later) id = namesIn later id := by
  rw [namesIn_append, namesIn_eq_nil elsewhere, List.nil_append]

theorem namesIn_own (vars : List Variable) (id : Nat) (around : List Nat) :
    namesIn (vars.map (Occurrence.mk · id around)) id = vars.map Variable.name := by
  rw [namesIn, List.filter_eq_self.mpr (by simp), List.map_map]
  rfl

theorem Stmt.namesIn_occurrencesAll (stmts : List Stmt) {id next : Nat} (around : List Nat)
    (opened : id < next) :
    namesIn (Stmt.occurrencesAll id next around stmts) id = ownNames stmts := by
  induction stmts generalizing next with
  | nil => rfl
  | cons s rest ih =>
    have nested : ∀ o ∈ s.nestedOccurrences next (id :: around), o.block ≠ id := by
      intro o member
      have := (s.block_of_nested next (id :: around) o member).1
      omega
    rw [Stmt.occurrencesAll, namesIn_append, namesIn_append_left nested, namesIn_own,
      ih (Nat.lt_add_right _ opened), ownNames_cons]

mutual

theorem Block.names_sublist (block : Block) {arena : Arena} {next : Nat} {around : List Nat}
    {base : Nat} {seen : List String}
    (lists : arena.Lists next (block.arenaFrom next around base seen)) {id : Nat}
    (opened : next ≤ id) (last : id < next + block.blocks.length) :
    (arena.names id).Sublist (namesIn (block.occurrences next around) id).eraseDups := by
  cases block with
  | mk stmts slots =>
    rw [Block.arenaFrom_mk] at lists
    rw [Block.blocks, List.length_cons] at last
    rcases Nat.eq_or_lt_of_le opened with rfl | nested
    · rw [Arena.names_of_frame lists.head, Block.occurrences,
        Stmt.namesIn_occurrencesAll stmts around (Nat.lt_succ_self _)]
      exact List.filter_sublist
    · exact Stmt.names_sublistAll stmts lists.tail nested (by omega) (Nat.lt_succ_self next)

theorem Stmt.names_sublistAll (stmts : List Stmt) {arena : Arena} {own next : Nat}
    {around : List Nat} {base : Nat} {seen : List String}
    (lists : arena.Lists next (Stmt.arenaAllFrom next (own :: around) base seen stmts)) {id : Nat}
    (opened : next ≤ id) (last : id < next + (Stmt.blocksAll stmts).length) (inside : own < next) :
    (arena.names id).Sublist (namesIn (Stmt.occurrencesAll own next around stmts) id).eraseDups := by
  cases stmts with
  | nil => exact absurd last (Nat.not_lt.mpr opened)
  | cons s rest =>
    rw [Stmt.arenaAllFrom_cons] at lists
    rw [Stmt.blocksAll, List.length_append] at last
    have mine : ∀ o ∈ s.ownVariables.map (Occurrence.mk · own around),
        o.block ≠ id := by
      intro o member
      obtain ⟨v, _, rfl⟩ := List.mem_map.mp member
      exact Nat.ne_of_lt (Nat.lt_of_lt_of_le inside opened)
    rw [Stmt.occurrencesAll, List.append_assoc, namesIn_append_right mine]
    by_cases first : id < next + s.blocks.length
    · rw [namesIn_append_left]
      · exact Stmt.names_sublist s lists.left opened first
      · intro o member
        have := Stmt.block_of_occurrencesAll rest own _ around o member
        omega
    · have behind := lists.right
      rw [Stmt.length_arenaFrom] at behind
      rw [namesIn_append_right]
      · exact Stmt.names_sublistAll rest behind (by omega) (by omega) (Nat.lt_add_right _ inside)
      · intro o member
        have := (s.block_of_nested next (own :: around) o member).2
        omega

theorem Stmt.names_sublist (s : Stmt) {arena : Arena} {next : Nat} {around : List Nat}
    {base : Nat} {seen : List String}
    (lists : arena.Lists next (s.arenaFrom next around base seen)) {id : Nat} (opened : next ≤ id)
    (last : id < next + s.blocks.length) :
    (arena.names id).Sublist (namesIn (s.nestedOccurrences next around) id).eraseDups := by
  match s with
  | .cond condition thenBlock none => exact Block.names_sublist thenBlock lists opened last
  | .cond condition thenBlock (some elseBlock) =>
    rw [Stmt.arenaFrom_cond] at lists
    rw [Stmt.blocks, List.length_append] at last
    rw [Stmt.nestedOccurrences]
    by_cases first : id < next + thenBlock.blocks.length
    · rw [namesIn_append_left]
      · exact Block.names_sublist thenBlock lists.left opened first
      · intro o member
        have := (elseBlock.block_of_occurrences _ around o member).1
        omega
    · have behind := lists.right
      rw [Block.length_arenaFrom] at behind
      rw [namesIn_append_right]
      · exact Block.names_sublist elseBlock behind (by omega) (by omega)
      · intro o member
        have := (thenBlock.block_of_occurrences _ around o member).2
        omega
  | .loop label body span => exact Block.names_sublist body lists opened last
  | .leave label span => exact absurd last (Nat.not_lt.mpr opened)
  | .call result name args span => exact absurd last (Nat.not_lt.mpr opened)
  | .block inner => exact Block.names_sublist inner lists opened last

end

theorem Block.accounts_arena (root : Block) : root.arena.Accounts [] root.allOccurrences := by
  refine Block.accounts root ⟨?_, ?_, ?_⟩ (Arena.lists_self _)
  · exact fun _ member => nomatch member
  · exact fun _ member => nomatch member
  · intro name
    simp [Arena.Declared]

theorem Block.names_arena_sublist (root : Block) (id : Nat) :
    (root.arena.names id).Sublist (namesIn root.allOccurrences id).eraseDups := by
  by_cases inside : id < root.blocks.length
  · exact Block.names_sublist root (Arena.lists_self _) (Nat.zero_le id) (by omega)
  · rw [Arena.names, List.getElem?_eq_none (by rw [root.length_arena]; omega)]
    exact List.nil_sublist _

end LoopTape
