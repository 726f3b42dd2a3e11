import LoopTape.Proofs.Scope.Declaring

/-! Which block a variable belongs to.

Each variable belongs to the innermost block around it that declares its name at the end. What a block
declares later does not reach into a block that declared the name itself before, so a variable keeps
what it meant when it was first seen.
-/

set_option autoImplicit false

namespace LoopTape

namespace Arena

/-- The innermost block of a chain that declares the name. -/
def declarer? (arena : Arena) (name : String) (chain : List Nat) : Option Nat :=
  chain.find? fun id => (arena.names id).contains name

def slot? (arena : Arena) (name : String) (id : Nat) : Option Nat :=
  arena[id]?.bind (·.slot? name)

end Arena

/-- How a tree is bound by the frames of its blocks. -/
structure LexicallyBound (root : Block) (arena : Arena) : Prop where
  frames : arena.length = root.blocks.length
  nested : arena.map (·.parent) = root.allChains.map (·.tail.head?)
  counted : root.blocks.map Block.localSlots = arena.map (·.names.length)
  ordered : ∀ id, (arena.names id).Sublist (namesIn root.allOccurrences id).eraseDups
  distinct : ∀ id, (arena.names id).Nodup
  declares : arena.Accounts [] root.allOccurrences
  bound : ∀ o ∈ root.allOccurrences, ∃ id slot,
    arena.declarer? o.name o.chain = some id ∧ arena.slot? o.name id = some slot ∧ o.slot = some slot
  shared : ∀ o ∈ root.allOccurrences, ∀ other ∈ root.allOccurrences, o.name = other.name →
    arena.declarer? o.name o.chain = arena.declarer? other.name other.chain → o.slot = other.slot

theorem Stmt.ownVariables_bind (s : Stmt) (frames : Frames) (seen : List String) :
    (s.bind frames seen).ownVariables = s.ownVariables.map (·.bind frames) := by
  match s with
  | .cond condition thenBlock none => exact Expr.variables_bind frames condition
  | .cond condition thenBlock (some elseBlock) => exact Expr.variables_bind frames condition
  | .call result name args span =>
    simp only [Stmt.bind, Stmt.ownVariables, Expr.variablesAll_bindAll, List.map_append]
    cases result <;> rfl
  | .loop .. => rfl
  | .leave .. => rfl
  | .block _ => rfl

def Arena.Places (arena : Arena) (o : Occurrence) : Prop :=
  ∃ frames, arena.Chain o.chain frames ∧ o.slot = frames.slot? o.name

mutual

theorem Block.places_bind (block : Block) {whole : Arena} {next : Nat} {around : List Nat}
    {frames : Frames} {seen : List String} (outside : whole.Chain around frames)
    (before : ∀ other ∈ around, other < next)
    (lists : whole.Lists next (block.arenaFrom next around frames.top seen)) :
    ∀ o ∈ (block.bind frames seen).occurrences next around, whole.Places o := by
  cases block with
  | mk stmts slots =>
    rw [Block.arenaFrom_mk] at lists
    have own : whole.Chain (next :: around) (frames.enter seen stmts) :=
      .cons lists.head before outside
    exact Stmt.places_bindAll stmts own (Nat.lt_succ_self next)
      (fun other outer => Nat.lt_succ_of_lt (before other outer)) lists.tail

theorem Stmt.places_bindAll (stmts : List Stmt) {whole : Arena} {id next : Nat}
    {around : List Nat} {frames : Frames} {seen : List String}
    (inside : whole.Chain (id :: around) frames) (opened : id < next)
    (before : ∀ other ∈ around, other < next)
    (lists : whole.Lists next (Stmt.arenaAllFrom next (id :: around) frames.top seen stmts)) :
    ∀ o ∈ Stmt.occurrencesAll id next around (Stmt.bindAll frames seen stmts), whole.Places o := by
  cases stmts with
  | nil => exact fun _ member => nomatch member
  | cons s rest =>
    rw [Stmt.arenaAllFrom_cons] at lists
    rw [Stmt.bindAll, Stmt.occurrencesAll, Stmt.length_blocks_bind, Stmt.ownVariables_bind]
    intro o member
    rcases List.mem_append.mp member with first | later
    · rcases List.mem_append.mp first with own | nested
      · simp only [List.map_map, List.mem_map] at own
        obtain ⟨v, _, rfl⟩ := own
        exact ⟨frames, inside, rfl⟩
      · refine Stmt.places_bind s inside ?_ lists.left o nested
        intro other inChain
        rcases List.mem_cons.mp inChain with rfl | outer
        · exact opened
        · exact before other outer
    · have behind := lists.right
      rw [Stmt.length_arenaFrom] at behind
      exact Stmt.places_bindAll rest inside (Nat.lt_add_right _ opened)
        (fun other outer => Nat.lt_add_right _ (before other outer)) behind o later

theorem Stmt.places_bind (s : Stmt) {whole : Arena} {next : Nat} {around : List Nat}
    {frames : Frames} {seen : List String} (outside : whole.Chain around frames)
    (before : ∀ other ∈ around, other < next)
    (lists : whole.Lists next (s.arenaFrom next around frames.top seen)) :
    ∀ o ∈ (s.bind frames seen).nestedOccurrences next around, whole.Places o := by
  match s with
  | .cond condition thenBlock none => exact Block.places_bind thenBlock outside before lists
  | .cond condition thenBlock (some elseBlock) =>
    rw [Stmt.arenaFrom_cond] at lists
    rw [Stmt.bind, Stmt.nestedOccurrences, Block.length_blocks_bind]
    intro o member
    rcases List.mem_append.mp member with whenTrue | whenFalse
    · exact Block.places_bind thenBlock outside before lists.left o whenTrue
    · have behind := lists.right
      rw [Block.length_arenaFrom] at behind
      refine Block.places_bind elseBlock outside ?_ behind o whenFalse
      exact fun other inChain => Nat.lt_add_right _ (before other inChain)
  | .loop label body span => exact Block.places_bind body outside before lists
  | .leave label span => exact fun _ member => nomatch member
  | .call result name args span => exact fun _ member => nomatch member
  | .block inner => exact Block.places_bind inner outside before lists

end

/-- A name has the slot that it has in the innermost block that declares it. -/
theorem Arena.Chain.slot?_eq {arena : Arena} {chain : List Nat} {frames : Frames}
    (chained : arena.Chain chain frames) (name : String) :
    frames.slot? name = (arena.declarer? name chain).bind (arena.slot? name) := by
  induction chained with
  | nil => rfl
  | @cons id outer names frames listed before around ih =>
    have own : arena.names id = names := names_of_frame listed
    by_cases member : name ∈ names
    · obtain ⟨index, position⟩ := exists_idxOf? member
      simp [Frames.slot?, Frame.slot?, position, declarer?, own, member, slot?, listed]
    · have missing := List.idxOf?_eq_none_iff.mpr member
      rw [declarer?, List.find?_cons_of_neg (by simpa [own] using member)]
      rw [Frames.slot?, List.findSome?_cons]
      simp only [Frame.slot?, missing, Option.map_none]
      exact ih

theorem Arena.slot?_isSome {arena : Arena} {id : Nat} {name : String}
    (declares : name ∈ arena.names id) : ∃ slot, arena.slot? name id = some slot := by
  cases listed : arena[id]? with
  | none =>
    rw [names, listed] at declares
    exact absurd declares List.not_mem_nil
  | some frame =>
    rw [names_of_frame listed] at declares
    obtain ⟨index, position⟩ := exists_idxOf? declares
    exact ⟨frame.base + index + 1, by simp [slot?, listed, Frame.slot?, position]⟩

theorem Block.declarer?_isSome {root : Block} {o : Occurrence} (member : o ∈ root.allOccurrences) :
    ∃ id, root.arena.declarer? o.name o.chain = some id := by
  obtain ⟨before, after, split⟩ := List.append_of_mem member
  have accounted := root.accounts_arena before o after split
  have declared : ∃ id ∈ o.chain, (root.arena.names id).contains o.name := by
    by_cases own : o.name ∈ root.arena.names o.block
    · exact ⟨o.block, List.mem_cons_self, by simpa using own⟩
    · obtain ⟨other, -, -, outer, declares⟩ := Classical.not_not.mp (mt accounted.mpr own)
      exact ⟨other.block, List.mem_cons_of_mem _ outer, by simpa using declares⟩
  exact Option.isSome_iff_exists.mp (List.find?_isSome.mpr declared)

theorem Arena.mem_of_declarer? {arena : Arena} {name : String} {chain : List Nat} {id : Nat}
    (found : arena.declarer? name chain = some id) : name ∈ arena.names id := by
  simpa using List.find?_some found

theorem Block.lexicallyBound_resolve (root : Block) : LexicallyBound root.resolve root.arena := by
  have arena := root.arena_resolve
  have slot : ∀ o ∈ root.resolve.allOccurrences,
      o.slot = (root.arena.declarer? o.name o.chain).bind (root.arena.slot? o.name) := by
    intro o member
    obtain ⟨frames, chain, placed⟩ := Block.places_bind root .nil (fun _ outside => nomatch outside)
      (Arena.lists_self _) o member
    rw [placed, chain.slot?_eq]
    rfl
  constructor
  case frames => rw [← arena, Block.length_arena]
  case nested => rw [← arena, Block.parents_arena]
  case counted =>
    rw [Block.resolve, Block.localSlots_bind]
    rw [show root.frames (Frames.top []) [] = root.allFrames from rfl, ← Block.frames_arena,
      List.map_map]
    rfl
  case ordered =>
    rw [← arena]
    exact root.resolve.names_arena_sublist
  case distinct =>
    intro id
    rw [← arena]
    exact (nodup_eraseDups _).sublist (root.resolve.names_arena_sublist id)
  case declares =>
    rw [← arena]
    exact root.resolve.accounts_arena
  case bound =>
    intro o member
    obtain ⟨id, found⟩ := Block.declarer?_isSome member
    rw [arena] at found
    obtain ⟨own, declared⟩ := Arena.slot?_isSome (Arena.mem_of_declarer? found)
    exact ⟨id, own, found, declared, by rw [slot o member, found, Option.bind_some, declared]⟩
  case shared =>
    intro o member other otherMember named declarer
    rw [slot o member, slot other otherMember, declarer, named]

/-- Binding is lexical, and the two walks agree on it: they choose what the names around each variable
tell, whatever slots the tree carried before, and change nothing in a tree that they went over once. -/
theorem Block.resolve_lexical (root : Block) :
    ∃ arena, root.resolveInArena = (root.resolve, arena) ∧
      root.resolve.relabel (.forgetful id) = root.relabel (.forgetful id) ∧
      LexicallyBound root.resolve arena ∧
      root.resolve.resolveInArena = (root.resolve, arena) ∧
      ∀ other : Block, other.relabel (.forgetful id) = root.relabel (.forgetful id) →
        other.resolveInArena = (root.resolve, arena) := by
  have words := Block.forgetful_bind id root [] []
  have alike : ∀ other : Block, other.relabel (.forgetful id) = root.relabel (.forgetful id) →
      other.resolveInArena = (root.resolve, root.arena) := by
    intro other same
    rw [other.resolveInArena_eq, Block.resolve_eq same, Block.arena_eq same]
  exact ⟨root.arena, root.resolveInArena_eq, words, root.lexicallyBound_resolve,
    alike root.resolve words, alike⟩

end LoopTape
