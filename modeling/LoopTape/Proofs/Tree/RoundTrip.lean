import LoopTape.Pipeline
import LoopTape.Proofs.Symbolic.Unplaced
import LoopTape.Proofs.Tree.ReadGrouped
import LoopTape.Proofs.Tree.Rereading

/-! Writing a tree and reading it back.

The written form is cut into the tokens of the tree, and these are read back as the grouped tree. A
tree and its grouped form, with other spans and annotations, have the same slots once they are bound,
so they are written alike and give the same code.
-/

set_option autoImplicit false

namespace LoopTape

theorem Block.spelled_resolve {root : Block} (spelled : Spelled root.variables root.words) :
    Spelled root.resolve.variables root.resolve.words := by
  have bare : root.resolve.relabel .bare = root.relabel .bare := Block.bare_bind root [] []
  rwa [← Block.spelled_relabel .bare, bare, Block.spelled_relabel]

/-- A written tree is read back, grouped and with other spans and annotations. -/
theorem parseSource_eq_reread (detail : Detail) {root : Block}
    (spelled : Spelled root.variables root.words) :
    ∃ read, parseSource (root.format detail) = .ok read ∧ read.relabel .bare = root.reread := by
  obtain ⟨placed, cut, tokens⟩ := Block.lexes_format detail root spelled 0
  have spells : Reading.initial.read (placed.map Placed.token) = .ok root.reread := by
    rw [tokens, Block.read_root]
  obtain ⟨read, parsed, same⟩ := parse_of_read spells
  refine ⟨read, ?_, same⟩
  rw [parseSource, lex, cut]
  exact congrArg (Except.mapError Failure.parse) parsed

theorem grouped_of_parseSource {source : String} {root : Block}
    (read : parseSource source = .ok root) : root.grouped = root := by
  rw [parseSource] at read
  cases cut : lex source with
  | error e => rw [cut] at read; cases read
  | ok placed =>
    rw [cut] at read
    cases parsed : parse placed with
    | error e =>
      have failed : Except.mapError Failure.parse (parse placed) = .ok root := read
      rw [parsed] at failed
      cases failed
    | ok block =>
      have given : Except.mapError Failure.parse (parse placed) = .ok root := read
      rw [parsed] at given
      cases given
      exact Block.grouped_of_parse parsed

section

variable {a b : Block}

theorem Block.resolve_congr (same : a.relabel .bare = b.relabel .bare) :
    a.resolve.relabel .unspanned = b.resolve.relabel .unspanned := by
  have bind (block : Block) :
      block.resolve.relabel .unspanned = (block.relabel .bare).resolve :=
    (Block.bind_relabel .bare block [] []).symm
  rw [bind a, bind b, same]

theorem Block.variables_congr (same : a.relabel .unspanned = b.relabel .unspanned) :
    a.variables = b.variables := by
  have kept (block : Block) : (block.relabel .unspanned).variables = block.variables := by
    rw [Block.variables_relabel]
    exact List.map_id _
  rw [← kept a, ← kept b, same]

theorem Block.localSlots_congr (same : a.relabel .unspanned = b.relabel .unspanned) :
    a.blocks.map Block.localSlots = b.blocks.map Block.localSlots := by
  have kept (block : Block) : (block.relabel .unspanned).blocks.map Block.localSlots =
      block.blocks.map Block.localSlots := by
    have each : Block.localSlots ∘ (·.relabel .unspanned) = Block.localSlots := by
      funext inner
      cases inner
      rfl
    rw [Block.blocks_relabel, List.map_map, each]
  rw [← kept a, ← kept b, same]

theorem Block.format_congr (detail : Detail)
    (same : a.relabel .unspanned = b.relabel .unspanned) : a.format detail = b.format detail := by
  have kept (block : Block) := Block.format_relabel (Variable.written_unspanned detail) block
  rw [← kept a, ← kept b, same]

theorem Block.generate_congr (same : a.relabel .unspanned = b.relabel .unspanned) :
    unplaced a.generate = unplaced b.generate := by
  rw [← Block.generate_unspanned a, ← Block.generate_unspanned b, same]

theorem Block.format_plain_congr (same : a.relabel .bare = b.relabel .bare) :
    a.format .plain = b.format .plain := by
  have kept (block : Block) := Block.format_relabel (Variable.written_plain .bare) block
  rw [← kept a, ← kept b, same]

end

/-- Binding the grouped tree groups the bound tree. -/
theorem Block.resolve_reread {root read : Block} (same : read.relabel .bare = root.reread) :
    read.resolve.relabel .unspanned = root.resolve.grouped.relabel .unspanned := by
  have bound : root.grouped.resolve = root.resolve.grouped := Block.bind_grouped root [] []
  rw [← bound]
  exact Block.resolve_congr same

theorem Block.resolve_resolve (root : Block) :
    root.resolve.resolve.relabel .unspanned = root.resolve.relabel .unspanned :=
  Block.resolve_congr (Block.bare_bind root [] [])

/-- How a tree that was read from the text of another one agrees with it: it has the same words, and
parentheses around all arguments that are calls but for the last one of each call. It is the same tree if
that one was read once. -/
structure ReadBack (root read : Block) : Prop where
  grouped : read.relabel .bare = root.grouped.relabel .bare
  same : ∀ source original, parseSource source = .ok original →
    original.relabel .bare = root.relabel .bare → read.relabel .bare = root.relabel .bare
  plain : read.format .plain = root.format .plain
  slots : read.resolve.variables = root.resolve.variables
  localSlots : read.resolve.blocks.map Block.localSlots = root.resolve.blocks.map Block.localSlots
  compile : unplaced read.compile = unplaced root.compile

theorem Block.readBack {root read : Block} (same : read.relabel .bare = root.reread) :
    ReadBack root read := by
  have bound := Block.resolve_reread same
  constructor
  case grouped => exact same
  case same =>
    -- What was read once has its parentheses already.
    intro source original readOnce alike
    have grouped : root.grouped.relabel .bare = root.relabel .bare := by
      rw [← Block.grouped_relabel, ← alike, Block.grouped_relabel, grouped_of_parseSource readOnce]
    exact same.trans grouped
  case plain =>
    calc read.format .plain
        = root.grouped.format .plain := Block.format_plain_congr same
      _ = root.format .plain := Block.format_grouped .plain root
  case slots =>
    calc read.resolve.variables
        = root.resolve.grouped.variables := Block.variables_congr bound
      _ = root.resolve.variables := Block.variables_grouped _
  case localSlots =>
    have each : Block.localSlots ∘ Block.grouped = Block.localSlots := by
      funext inner
      cases inner
      rfl
    calc read.resolve.blocks.map Block.localSlots
        = root.resolve.grouped.blocks.map Block.localSlots := Block.localSlots_congr bound
      _ = root.resolve.blocks.map Block.localSlots := by
          rw [Block.blocks_grouped, List.map_map, each]
  case compile =>
    calc unplaced read.compile
        = unplaced root.resolve.grouped.generate := Block.generate_congr bound
      _ = unplaced root.compile := congrArg unplaced (Block.generate_grouped root.resolve)

/-- A tree is read back from its text, with or without slots, and the text with slots of a bound
tree is written again after it was read and bound. -/
theorem Block.parseSource_format {root : Block} (spelled : Spelled root.variables root.words) :
    (∀ detail, ∃ read, parseSource (root.format detail) = .ok read ∧ ReadBack root read) ∧
      ∃ read, parseSource (root.resolve.format .slots) = .ok read ∧
        read.resolve.format .slots = root.resolve.format .slots := by
  constructor
  · intro detail
    obtain ⟨read, parsed, same⟩ := parseSource_eq_reread detail spelled
    exact ⟨read, parsed, Block.readBack same⟩
  · obtain ⟨read, parsed, same⟩ := parseSource_eq_reread .slots (Block.spelled_resolve spelled)
    refine ⟨read, parsed, ?_⟩
    calc read.resolve.format .slots
        = root.resolve.resolve.grouped.format .slots :=
          Block.format_congr .slots (Block.resolve_reread same)
      _ = root.resolve.resolve.format .slots := Block.format_grouped .slots _
      _ = root.resolve.format .slots := Block.format_congr .slots (Block.resolve_resolve root)

/-- A call in front of another argument, a variable named as a keyword, a slot that no block around
it has, a label, and an empty block. -/
def staleSlots : Block :=
  .mk [.loop (some "outer") (.unscoped [
    .cond (.call "both" [.call "ready" [.variable ⟨"loop", some 7⟩] .unknown,
        .variable (.unbound "x")] .unknown)
      (.unscoped [.leave (some "outer") .unknown]) (some (.unscoped []))]) .unknown] 5

theorem staleSlots_readBack :
    Spelled staleSlots.variables staleSlots.words ∧
      (∃ read, parseSource ("\x7b\n  loop outer \x7b\n    cond both (ready $loop:7) $x \x7b\n" ++
          "      break outer;\n    \x7d else \x7b\x7d\n  \x7d\n\x7d\n") = .ok read ∧
        ReadBack staleSlots read) ∧
      ∃ read, parseSource (staleSlots.resolve.format .slots) = .ok read ∧
        read.resolve.format .slots = staleSlots.resolve.format .slots := by
  have spelled : Spelled staleSlots.variables staleSlots.words := ⟨by decide, by decide⟩
  obtain ⟨written, bound⟩ := Block.parseSource_format spelled
  have text : staleSlots.format .slots =
      "\x7b\n  loop outer \x7b\n    cond both (ready $loop:7) $x \x7b\n" ++
        "      break outer;\n    \x7d else \x7b\x7d\n  \x7d\n\x7d\n" := by decide +kernel
  refine ⟨spelled, ?_, bound⟩
  rw [← text]
  exact written .slots

end LoopTape
