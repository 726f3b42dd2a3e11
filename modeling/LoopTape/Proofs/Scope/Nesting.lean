import LoopTape.Proofs.Scope.Slots
import LoopTape.Proofs.Tree.Relabelling
import LoopTape.Scope.Arena

/-! How the blocks of a tree lie in each other.

Blocks are numbered in the order in which they open, the root block being number 0. A chain is the number
of a block with those of the blocks around it, from the inside outwards. It says where a block or an
occurrence of a variable stands, and depends on nothing but the words of the tree.
-/

set_option autoImplicit false

namespace LoopTape

mutual

/-- The chain of each block, in the order in which the blocks open; the first one gets the number
`next`, and `around` is the chain around it. -/
def Block.chains (next : Nat) (around : List Nat) : Block → List (List Nat)
  | .mk stmts _ => (next :: around) :: Stmt.chainsAll (next + 1) (next :: around) stmts

def Stmt.chainsAll (next : Nat) (around : List Nat) : List Stmt → List (List Nat)
  | [] => []
  | s :: rest => s.chains next around ++ Stmt.chainsAll (next + s.blocks.length) around rest

def Stmt.chains (next : Nat) (around : List Nat) : Stmt → List (List Nat)
  | .cond _ thenBlock none => thenBlock.chains next around
  | .cond _ thenBlock (some elseBlock) =>
    thenBlock.chains next around ++ elseBlock.chains (next + thenBlock.blocks.length) around
  | .loop _ body _ => body.chains next around
  | .leave .. | .call .. => []
  | .block inner => inner.chains next around

end

/-- A variable where it stands: the number of the block that it stands in directly, and the chain of the
blocks around that one. -/
structure Occurrence extends Variable where
  block : Nat
  around : List Nat
  deriving Repr, DecidableEq

def Occurrence.chain (o : Occurrence) : List Nat := o.block :: o.around

mutual

def Block.occurrences (next : Nat) (around : List Nat) : Block → List Occurrence
  | .mk stmts _ => Stmt.occurrencesAll next (next + 1) around stmts

def Stmt.occurrencesAll (id next : Nat) (around : List Nat) : List Stmt → List Occurrence
  | [] => []
  | s :: rest =>
    s.ownVariables.map (Occurrence.mk · id around) ++ s.nestedOccurrences next (id :: around) ++
      Stmt.occurrencesAll id (next + s.blocks.length) around rest

/-- The variables in the blocks of a statement. A statement's own ones come before them. -/
def Stmt.nestedOccurrences (next : Nat) (around : List Nat) : Stmt → List Occurrence
  | .cond _ thenBlock none => thenBlock.occurrences next around
  | .cond _ thenBlock (some elseBlock) =>
    thenBlock.occurrences next around ++
      elseBlock.occurrences (next + thenBlock.blocks.length) around
  | .loop _ body _ => body.occurrences next around
  | .leave .. | .call .. => []
  | .block inner => inner.occurrences next around

end

def Block.allChains (root : Block) : List (List Nat) := root.chains 0 []

def Block.allOccurrences (root : Block) : List Occurrence := root.occurrences 0 []

mutual

theorem Block.head?_chains (block : Block) (next : Nat) (around : List Nat) :
    (block.chains next around).map List.head? =
      (List.range' next block.blocks.length).map some := by
  cases block with
  | mk stmts slots =>
    rw [Block.chains, Block.blocks, List.map_cons, Stmt.head?_chainsAll stmts, List.length_cons,
      List.range'_succ]
    rfl

theorem Stmt.head?_chainsAll (stmts : List Stmt) (next : Nat) (around : List Nat) :
    (Stmt.chainsAll next around stmts).map List.head? =
      (List.range' next (Stmt.blocksAll stmts).length).map some := by
  cases stmts with
  | nil => rfl
  | cons s rest =>
    rw [Stmt.chainsAll, Stmt.blocksAll, List.map_append, Stmt.head?_chains s,
      Stmt.head?_chainsAll rest, List.length_append, ← List.range'_append, Nat.one_mul,
      List.map_append]

theorem Stmt.head?_chains (s : Stmt) (next : Nat) (around : List Nat) :
    (s.chains next around).map List.head? = (List.range' next s.blocks.length).map some := by
  match s with
  | .cond condition thenBlock none => exact Block.head?_chains thenBlock next around
  | .cond condition thenBlock (some elseBlock) =>
    rw [Stmt.chains, Stmt.blocks, List.map_append, Block.head?_chains thenBlock,
      Block.head?_chains elseBlock, List.length_append, ← List.range'_append, Nat.one_mul,
      List.map_append]
  | .loop label body span => exact Block.head?_chains body next around
  | .leave label span => rfl
  | .call result name args span => rfl
  | .block inner => exact Block.head?_chains inner next around

end

theorem Block.length_chains (block : Block) (next : Nat) (around : List Nat) :
    (block.chains next around).length = block.blocks.length := by
  simpa using congrArg List.length (block.head?_chains next around)

theorem Stmt.length_chains (s : Stmt) (next : Nat) (around : List Nat) :
    (s.chains next around).length = s.blocks.length := by
  simpa using congrArg List.length (s.head?_chains next around)

theorem Block.head?_of_allChains {root : Block} {id : Nat} {chain : List Nat}
    (listed : root.allChains[id]? = some chain) : chain.head? = some id := by
  have heads := congrArg (·[id]?) (root.head?_chains 0 [])
  have inside : id < root.blocks.length := by
    rw [← root.length_chains 0 []]
    exact (List.getElem?_eq_some_iff.mp listed).1
  simp only [List.getElem?_map, ← Block.allChains.eq_def, listed, Option.map_some,
    List.getElem?_range' inside, Nat.zero_add, Nat.one_mul] at heads
  exact Option.some.inj heads

mutual

theorem Block.block_of_occurrences (block : Block) (next : Nat) (around : List Nat) :
    ∀ o ∈ block.occurrences next around, next ≤ o.block ∧ o.block < next + block.blocks.length := by
  cases block with
  | mk stmts slots =>
    intro o member
    rw [Block.blocks, List.length_cons]
    have range := Stmt.block_of_occurrencesAll stmts next (next + 1) around o member
    omega

theorem Stmt.block_of_occurrencesAll (stmts : List Stmt) (id next : Nat) (around : List Nat) :
    ∀ o ∈ Stmt.occurrencesAll id next around stmts,
      o.block = id ∨ next ≤ o.block ∧ o.block < next + (Stmt.blocksAll stmts).length := by
  cases stmts with
  | nil => exact fun _ member => nomatch member
  | cons s rest =>
    intro o member
    rw [Stmt.blocksAll, List.length_append]
    rcases List.mem_append.mp member with first | later
    · rcases List.mem_append.mp first with own | nested
      · obtain ⟨v, _, rfl⟩ := List.mem_map.mp own
        exact .inl rfl
      · have range := Stmt.block_of_nested s next (id :: around) o nested
        omega
    · rcases Stmt.block_of_occurrencesAll rest id _ around o later with own | inner
      · exact .inl own
      · omega

theorem Stmt.block_of_nested (s : Stmt) (next : Nat) (around : List Nat) :
    ∀ o ∈ s.nestedOccurrences next around,
      next ≤ o.block ∧ o.block < next + s.blocks.length := by
  match s with
  | .cond condition thenBlock none => exact Block.block_of_occurrences thenBlock next around
  | .cond condition thenBlock (some elseBlock) =>
    intro o member
    rw [Stmt.blocks, List.length_append]
    rcases List.mem_append.mp member with whenTrue | whenFalse
    · have range := Block.block_of_occurrences thenBlock next around o whenTrue
      omega
    · have range := Block.block_of_occurrences elseBlock _ around o whenFalse
      omega
  | .loop label body span => exact Block.block_of_occurrences body next around
  | .leave label span => exact fun _ member => nomatch member
  | .call result name args span => exact fun _ member => nomatch member
  | .block inner => exact Block.block_of_occurrences inner next around

end

mutual

/-- The occurrences are the variables of the tree, in their order. -/
theorem Block.variables_occurrences (block : Block) (next : Nat) (around : List Nat) :
    (block.occurrences next around).map (·.toVariable) = block.variables := by
  cases block with
  | mk stmts slots => exact Stmt.variables_occurrencesAll stmts next (next + 1) around

theorem Stmt.variables_occurrencesAll (stmts : List Stmt) (id next : Nat) (around : List Nat) :
    (Stmt.occurrencesAll id next around stmts).map (·.toVariable) = Stmt.variablesAll stmts := by
  cases stmts with
  | nil => rfl
  | cons s rest =>
    rw [Stmt.occurrencesAll, List.map_append, Stmt.variables_occurrencesAll rest,
      Stmt.variables_own_nested s, Stmt.variablesAll]

theorem Stmt.variables_own_nested (s : Stmt) (id next : Nat) (around : List Nat) :
    (s.ownVariables.map (Occurrence.mk · id around) ++ s.nestedOccurrences next (id :: around)).map
      (·.toVariable) = s.variables := by
  have own : (s.ownVariables.map (Occurrence.mk · id around)).map (·.toVariable) =
      s.ownVariables := by
    rw [List.map_map]
    exact List.map_id _
  rw [List.map_append, own]
  match s with
  | .cond condition thenBlock none =>
    exact congrArg _ (Block.variables_occurrences thenBlock next (id :: around))
  | .cond condition thenBlock (some elseBlock) =>
    rw [Stmt.nestedOccurrences, List.map_append, Block.variables_occurrences thenBlock,
      Block.variables_occurrences elseBlock, Stmt.variables, List.append_assoc]
    rfl
  | .loop label body span => exact Block.variables_occurrences body next (id :: around)
  | .leave label span => rfl
  | .call result name args span => exact List.append_nil _
  | .block inner => exact Block.variables_occurrences inner next (id :: around)

end

mutual

theorem Block.localSlots_bind (block : Block) (frames : Frames) (seen : List String) :
    (block.bind frames seen).blocks.map Block.localSlots =
      (block.frames frames.top seen).map (·.names.length) := by
  cases block with
  | mk stmts slots =>
    rw [Block.bind_mk, Block.blocks, Block.frames, List.map_cons, List.map_cons,
      Stmt.localSlots_bindAll stmts]
    rfl

theorem Stmt.localSlots_bindAll (stmts : List Stmt) (frames : Frames) (seen : List String) :
    (Stmt.blocksAll (Stmt.bindAll frames seen stmts)).map Block.localSlots =
      (Stmt.framesAll frames.top seen stmts).map (·.names.length) := by
  cases stmts with
  | nil => rfl
  | cons s rest =>
    simp only [Stmt.bindAll, Stmt.blocksAll, Stmt.framesAll, List.map_append]
    rw [Stmt.localSlots_bind s, Stmt.localSlots_bindAll rest]

theorem Stmt.localSlots_bind (s : Stmt) (frames : Frames) (seen : List String) :
    (s.bind frames seen).blocks.map Block.localSlots =
      (s.frames frames.top seen).map (·.names.length) := by
  match s with
  | .cond condition thenBlock none => exact Block.localSlots_bind thenBlock frames seen
  | .cond condition thenBlock (some elseBlock) =>
    simp only [Stmt.bind, Stmt.blocks, Stmt.frames, List.map_append]
    rw [Block.localSlots_bind thenBlock, Block.localSlots_bind elseBlock]
  | .loop label body span => exact Block.localSlots_bind body frames seen
  | .leave label span => rfl
  | .call result name args span => rfl
  | .block inner => exact Block.localSlots_bind inner frames seen

end

theorem Block.length_blocks_bind (block : Block) (frames : Frames) (seen : List String) :
    (block.bind frames seen).blocks.length = block.blocks.length := by
  simpa [Block.blocks_relabel] using
    congrArg (fun tree => tree.blocks.length) (Block.forgetful_bind id block frames seen)

theorem Stmt.length_blocks_bind (s : Stmt) (frames : Frames) (seen : List String) :
    (s.bind frames seen).blocks.length = s.blocks.length := by
  simpa [Stmt.blocks_relabel] using
    congrArg (fun tree => tree.blocks.length) (Stmt.forgetful_bind id s frames seen)

theorem Block.length_frames (block : Block) (base : Nat) (seen : List String) :
    (block.frames base seen).length = block.blocks.length := by
  rw [← block.length_blocks_bind [⟨[], base⟩] seen]
  simpa [Frames.top, Frame.top] using
    congrArg List.length (block.localSlots_bind [⟨[], base⟩] seen).symm

theorem Stmt.length_frames (s : Stmt) (base : Nat) (seen : List String) :
    (s.frames base seen).length = s.blocks.length := by
  rw [← s.length_blocks_bind [⟨[], base⟩] seen]
  simpa [Frames.top, Frame.top] using
    congrArg List.length (s.localSlots_bind [⟨[], base⟩] seen).symm

def nestFrames (frames : List Frame) (chains : List (List Nat)) : Arena :=
  (frames.zip chains).map fun entry => ⟨entry.1, entry.2.tail.head?⟩

theorem nestFrames_append {frames more : List Frame} {chains others : List (List Nat)}
    (aligned : frames.length = chains.length) :
    nestFrames (frames ++ more) (chains ++ others) =
      nestFrames frames chains ++ nestFrames more others := by
  rw [nestFrames, List.zip_append aligned, List.map_append]
  rfl

theorem length_nestFrames {frames : List Frame} {chains : List (List Nat)}
    (aligned : frames.length = chains.length) :
    (nestFrames frames chains).length = chains.length := by
  rw [nestFrames, List.length_map, List.length_zip, aligned, Nat.min_self]

def Block.arenaFrom (next : Nat) (around : List Nat) (base : Nat) (seen : List String)
    (block : Block) : Arena :=
  nestFrames (block.frames base seen) (block.chains next around)

def Stmt.arenaAllFrom (next : Nat) (around : List Nat) (base : Nat) (seen : List String)
    (stmts : List Stmt) : Arena :=
  nestFrames (Stmt.framesAll base seen stmts) (Stmt.chainsAll next around stmts)

def Stmt.arenaFrom (next : Nat) (around : List Nat) (base : Nat) (seen : List String) (s : Stmt) :
    Arena :=
  nestFrames (s.frames base seen) (s.chains next around)

def Block.arena (root : Block) : Arena := root.arenaFrom 0 [] 0 []

theorem Block.arenaFrom_mk (next : Nat) (around : List Nat) (base : Nat) (seen : List String)
    (stmts : List Stmt) (slots : Nat) :
    (Block.mk stmts slots).arenaFrom next around base seen =
      ⟨⟨declaredNames seen stmts, base⟩, around.head?⟩ ::
        Stmt.arenaAllFrom (next + 1) (next :: around) (base + (declaredNames seen stmts).length) seen
          stmts :=
  rfl

theorem Stmt.arenaAllFrom_cons (next : Nat) (around : List Nat) (base : Nat) (seen : List String)
    (s : Stmt) (rest : List Stmt) :
    Stmt.arenaAllFrom next around base seen (s :: rest) =
      s.arenaFrom next around base (seen ++ ownNames [s]) ++
        Stmt.arenaAllFrom (next + s.blocks.length) around base (seen ++ ownNames [s]) rest := by
  apply nestFrames_append
  rw [Stmt.length_frames, Stmt.length_chains]

theorem Stmt.arenaFrom_cond (next : Nat) (around : List Nat) (base : Nat) (seen : List String)
    (condition : Expr) (thenBlock elseBlock : Block) :
    (Stmt.cond condition thenBlock (some elseBlock)).arenaFrom next around base seen =
      thenBlock.arenaFrom next around base seen ++
        elseBlock.arenaFrom (next + thenBlock.blocks.length) around base seen := by
  apply nestFrames_append
  rw [Block.length_frames, Block.length_chains]

theorem Block.length_arenaFrom (block : Block) (next : Nat) (around : List Nat) (base : Nat)
    (seen : List String) : (block.arenaFrom next around base seen).length = block.blocks.length := by
  rw [arenaFrom, length_nestFrames (by rw [length_frames, length_chains]), length_chains]

theorem Stmt.length_arenaFrom (s : Stmt) (next : Nat) (around : List Nat) (base : Nat)
    (seen : List String) : (s.arenaFrom next around base seen).length = s.blocks.length := by
  rw [arenaFrom, length_nestFrames (by rw [length_frames, length_chains]), length_chains]

theorem Block.length_allFrames (root : Block) : root.allFrames.length = root.allChains.length := by
  rw [allFrames, length_frames, allChains, length_chains]

theorem Block.frames_arena (root : Block) : root.arena.map (·.toFrame) = root.allFrames := by
  rw [arena, arenaFrom, nestFrames, List.map_map]
  exact List.map_fst_zip (Nat.le_of_eq root.length_allFrames)

theorem Block.parents_arena (root : Block) :
    root.arena.map (·.parent) = root.allChains.map (·.tail.head?) := by
  rw [arena, arenaFrom, nestFrames, List.map_map,
    ← List.map_snd_zip (Nat.le_of_eq root.length_allFrames.symm), List.map_map]
  rfl

mutual

theorem Block.arenaFrom_relabel (r : Relabelling) (block : Block) (next : Nat) (around : List Nat)
    (base : Nat) (seen : List String) :
    (block.relabel r).arenaFrom next around base seen = block.arenaFrom next around base seen := by
  cases block with
  | mk stmts slots =>
    rw [Block.relabel, Block.arenaFrom_mk, Block.arenaFrom_mk, declaredNames_relabelAll,
      Stmt.arenaAllFrom_relabelAll r stmts]

theorem Stmt.arenaAllFrom_relabelAll (r : Relabelling) (stmts : List Stmt) (next : Nat)
    (around : List Nat) (base : Nat) (seen : List String) :
    Stmt.arenaAllFrom next around base seen (Stmt.relabelAll r stmts) =
      Stmt.arenaAllFrom next around base seen stmts := by
  cases stmts with
  | nil => rfl
  | cons s rest =>
    rw [Stmt.relabelAll, Stmt.arenaAllFrom_cons, Stmt.arenaAllFrom_cons, ownNames_relabel,
      Stmt.blocks_relabel, List.length_map, Stmt.arenaFrom_relabel r s,
      Stmt.arenaAllFrom_relabelAll r rest]

theorem Stmt.arenaFrom_relabel (r : Relabelling) (s : Stmt) (next : Nat) (around : List Nat)
    (base : Nat) (seen : List String) :
    (s.relabel r).arenaFrom next around base seen = s.arenaFrom next around base seen := by
  match s with
  | .cond condition thenBlock none => exact Block.arenaFrom_relabel r thenBlock next around base seen
  | .cond condition thenBlock (some elseBlock) =>
    rw [Stmt.relabel, Stmt.arenaFrom_cond, Stmt.arenaFrom_cond, Block.blocks_relabel,
      List.length_map, Block.arenaFrom_relabel r thenBlock, Block.arenaFrom_relabel r elseBlock]
  | .loop label body span => exact Block.arenaFrom_relabel r body next around base seen
  | .leave label span => rfl
  | .call result name args span => rfl
  | .block inner => exact Block.arenaFrom_relabel r inner next around base seen

end

/-- Trees that differ only in what binding chooses have the same frames. -/
theorem Block.arena_eq {a b : Block} (alike : a.relabel (.forgetful id) = b.relabel (.forgetful id)) :
    a.arena = b.arena := by
  have kept (block : Block) : (block.relabel (.forgetful id)).arena = block.arena :=
    Block.arenaFrom_relabel _ block 0 [] 0 []
  rw [← kept a, ← kept b, alike]

theorem Block.arena_resolve (root : Block) : root.resolve.arena = root.arena :=
  Block.arena_eq (Block.forgetful_bind id root [] [])

namespace Arena

def Lists (arena : Arena) (start : Nat) (part : Arena) : Prop := part <+: arena.drop start

variable {arena first later : Arena} {start : Nat}

theorem Lists.head {frame : NestedFrame} (lists : arena.Lists start (frame :: later)) :
    arena[start]? = some frame := by
  obtain ⟨behind, whole⟩ := lists
  rw [← List.head?_drop, ← whole]
  rfl

theorem Lists.tail {frame : NestedFrame} (lists : arena.Lists start (frame :: later)) :
    arena.Lists (start + 1) later := by
  obtain ⟨behind, whole⟩ := lists
  refine ⟨behind, ?_⟩
  rw [← List.tail_drop, ← whole]
  rfl

theorem Lists.left (lists : arena.Lists start (first ++ later)) : arena.Lists start first :=
  (List.prefix_append first later).trans lists

theorem Lists.right (lists : arena.Lists start (first ++ later)) :
    arena.Lists (start + first.length) later := by
  obtain ⟨behind, whole⟩ := lists
  refine ⟨behind, ?_⟩
  rw [← List.drop_drop, ← whole, List.append_assoc, List.drop_left]

theorem lists_self (arena : Arena) : arena.Lists 0 arena := List.prefix_refl arena

/-- The frames of the blocks of a chain: each frame's parent is the next block of the chain, which opened
before it, and its slots lie right above those of the frames around it. -/
inductive Chain (arena : Arena) : List Nat → Frames → Prop where
  | nil : Chain arena [] []
  | cons {id : Nat} {outer : List Nat} {names : List String} {frames : Frames} :
    arena[id]? = some ⟨⟨names, frames.top⟩, outer.head?⟩ → (∀ other ∈ outer, other < id) →
      Chain arena outer frames → Chain arena (id :: outer) (⟨names, frames.top⟩ :: frames)

end Arena

mutual

/-- Every block has the frames of its chain in the arena. -/
theorem Block.frames_of_chain (block : Block) {whole : Arena} {next : Nat} {around : List Nat}
    {frames : Frames} {seen : List String} (outside : whole.Chain around frames)
    (before : ∀ other ∈ around, other < next)
    (lists : whole.Lists next (block.arenaFrom next around frames.top seen)) :
    ∀ chain ∈ block.chains next around, ∃ inside, whole.Chain chain inside := by
  cases block with
  | mk stmts slots =>
    rw [Block.arenaFrom_mk] at lists
    have own : whole.Chain (next :: around) (frames.enter seen stmts) :=
      .cons lists.head before outside
    intro chain member
    rcases List.mem_cons.mp member with rfl | nested
    · exact ⟨_, own⟩
    · refine Stmt.frames_of_chainsAll stmts own ?_ lists.tail chain nested
      intro other inChain
      rcases List.mem_cons.mp inChain with rfl | outer
      · exact Nat.lt_succ_self _
      · exact Nat.lt_succ_of_lt (before other outer)

theorem Stmt.frames_of_chainsAll (stmts : List Stmt) {whole : Arena} {next : Nat}
    {around : List Nat} {frames : Frames} {seen : List String} (outside : whole.Chain around frames)
    (before : ∀ other ∈ around, other < next)
    (lists : whole.Lists next (Stmt.arenaAllFrom next around frames.top seen stmts)) :
    ∀ chain ∈ Stmt.chainsAll next around stmts, ∃ inside, whole.Chain chain inside := by
  cases stmts with
  | nil => exact fun _ member => nomatch member
  | cons s rest =>
    rw [Stmt.arenaAllFrom_cons] at lists
    intro chain member
    rcases List.mem_append.mp member with first | later
    · exact Stmt.frames_of_chains s outside before lists.left chain first
    · have behind := lists.right
      rw [Stmt.length_arenaFrom] at behind
      refine Stmt.frames_of_chainsAll rest outside ?_ behind chain later
      exact fun other inChain => Nat.lt_add_right _ (before other inChain)

theorem Stmt.frames_of_chains (s : Stmt) {whole : Arena} {next : Nat} {around : List Nat}
    {frames : Frames} {seen : List String} (outside : whole.Chain around frames)
    (before : ∀ other ∈ around, other < next)
    (lists : whole.Lists next (s.arenaFrom next around frames.top seen)) :
    ∀ chain ∈ s.chains next around, ∃ inside, whole.Chain chain inside := by
  match s with
  | .cond condition thenBlock none => exact Block.frames_of_chain thenBlock outside before lists
  | .cond condition thenBlock (some elseBlock) =>
    rw [Stmt.arenaFrom_cond] at lists
    intro chain member
    rcases List.mem_append.mp member with whenTrue | whenFalse
    · exact Block.frames_of_chain thenBlock outside before lists.left chain whenTrue
    · have behind := lists.right
      rw [Block.length_arenaFrom] at behind
      refine Block.frames_of_chain elseBlock outside ?_ behind chain whenFalse
      exact fun other inChain => Nat.lt_add_right _ (before other inChain)
  | .loop label body span => exact Block.frames_of_chain body outside before lists
  | .leave label span => exact fun _ member => nomatch member
  | .call result name args span => exact fun _ member => nomatch member
  | .block inner => exact Block.frames_of_chain inner outside before lists

end

end LoopTape
