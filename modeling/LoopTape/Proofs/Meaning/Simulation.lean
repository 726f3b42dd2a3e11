import LoopTape.Proofs.Machine.Moves
import LoopTape.Proofs.Meaning.Interpreter

/-! A machine on the region of a tree does what the interpreter does on the tree.

The memory of the machine holds the scopes of the store between any two statements. A break reaches the
end of its loop with the cells of that loop's body only, which is what the interpreter is left with
after it has closed the blocks on the way. Every round of a loop takes a step at least, so a loop that
has used up its fuel has kept the machine busy for as many steps.
-/

set_option autoImplicit false

namespace LoopTape

open Config

variable {σ : Type} {host : HostTable σ} {tape : Tape}

/-- The configuration at an index whose memory holds the scopes of a store. -/
def Store.config (store : Store σ) (pc : Nat) : Config σ :=
  ⟨⟨pc, store.scopes.memory⟩, ⟨store.state, false⟩⟩

/-- The error that a machine reports for a fault, given the scopes that were open. -/
def Fault.error? (scopes : Scopes) : Fault → Option MachineError
  | .unknownFunction name => some (.unknownFunction name)
  | .host name message => some (.host name message)
  | .conditionNotBool subject found =>
    (scopes.address? subject).map (.conditionNotBool · found)

/-- What a machine does from `c` on when the interpreter completes like this on a region that ends
at `stop`. -/
def Completion.Simulated (host : HostTable σ) (tape : Tape) (fuel : Nat) (around : Surroundings)
    (frames : Frames) (c : Config σ) (stop : Nat) : Completion σ → Prop
  | .done after =>
    after.scopes.frames = frames ∧ ∃ n, Moves host tape n c (after.config stop)
  | .left label after =>
    after.scopes.frames = frames ∧ ∃ target n, around.target? label = some target ∧
      Moves host tape n c
        ⟨⟨target.exit, after.scopes.memory.take (1 + target.depth)⟩, ⟨after.state, false⟩⟩
  | .failed fault after =>
    ∃ n d pc error, Moves host tape n c d ∧ d.world.cancelled = false ∧
      d.step host tape = (.error error, after.config pc) ∧ fault.error? after.scopes = some error
  | .unfinished after =>
    ∃ n d, fuel ≤ n ∧ Moves host tape n c d ∧ d.world.state = after.state
  | .stuck => False

/-- No function of the host cancels the run that calls it. -/
def HostTable.NeverCancels (host : HostTable σ) : Prop :=
  ∀ name function, host.get? name = some function →
    ∀ args state, (function args false state).cancels = false

theorem Config.moves_jump {pc target : Nat} {memory : Memory} {state : σ}
    (fetched : tape[pc]? = some (.jump 0 target)) :
    Moves host tape 1 ⟨⟨pc, memory⟩, ⟨state, false⟩⟩ ⟨⟨target, memory⟩, ⟨state, false⟩⟩ :=
  .single rfl (by simp [step, fetched, goto])

theorem Store.step_choose {store : Store σ} {pc slot target : Nat} {value : Value}
    (fetched : tape[pc]? = some (.jump slot target)) (conditional : slot ≠ 0)
    (cell : store.scopes.memory[slot]? = some value) :
    (store.config pc).step host tape =
      match value with
      | .bool true => (.ok .moved, store.config target)
      | .bool false => (.ok .moved, store.config (pc + 1))
      | other => (.error (.conditionNotBool slot other.typeName), store.config pc) := by
  simp only [step, Store.config, fetched, conditional, if_false, Memory.read_eq_ok.mpr cell]
  cases value with
  | bool holds => cases holds <;> rfl
  | nil => rfl
  | number _ => rfl
  | text _ => rfl

theorem Store.grow {store : Store σ} {names : List String} {start first : Nat}
    (grows : tape.Grows names.length start first) :
    ∃ n, Moves host tape n (store.config start) ((store.enter names).config first) := by
  have larger := Scopes.memory_enter names store.scopes
  unfold Tape.Grows Tape.Resizes at grows
  split at grows
  · next none =>
    subst grows
    refine ⟨0, ?_⟩
    rw [none, List.replicate_zero, List.append_nil] at larger
    have same : (store.enter names).config first = store.config first := by
      rw [Store.config, Store.config, Store.enter, larger]
    rw [same]
    exact .refl _
  · obtain ⟨fetched, rfl⟩ := grows
    refine ⟨1, .single rfl ?_⟩
    simp [step, Store.config, fetched, next, Store.enter, larger]

/-- Frees cells until `kept` of them are left above the reserved one. -/
theorem Store.unwind {store : Store σ} {kept count last stop : Nat}
    (cells : store.scopes.memory.length = 1 + kept + count)
    (shrinks : tape.Shrinks count last stop) :
    ∃ n, Moves host tape n (store.config last)
      ⟨⟨stop, store.scopes.memory.take (1 + kept)⟩, ⟨store.state, false⟩⟩ := by
  unfold Tape.Shrinks Tape.Resizes at shrinks
  split at shrinks
  · next none =>
    subst shrinks
    -- To free none takes no step, and to keep all cells is to keep the memory.
    rw [List.take_of_length_le (by omega)]
    exact ⟨0, .refl _⟩
  · obtain ⟨fetched, rfl⟩ := shrinks
    refine ⟨1, .single rfl ?_⟩
    have left : store.scopes.memory.length - count = 1 + kept := by omega
    have enough : ¬ store.scopes.memory.length - 1 < count := by omega
    simp only [step, Store.config, fetched, enough, if_false, next, left]

theorem Store.shrink {store : Store σ} {frames : Frames} {names : List String} {last stop : Nat}
    (shaped : store.scopes.frames = ⟨names, frames.top⟩ :: frames)
    (shrinks : tape.Shrinks names.length last stop) :
    ∃ n, Moves host tape n (store.config last) (store.leave.config stop) := by
  have smaller := Scopes.memory_tail store.scopes
  have cells := Scopes.length_memory store.scopes
  rw [shaped, Frames.top_cons, ← Nat.add_assoc] at cells
  rw [shaped, List.tail_cons] at smaller
  have smallerConfig : store.leave.config stop =
      ⟨⟨stop, store.scopes.memory.take (1 + frames.top)⟩, ⟨store.state, false⟩⟩ := by
    rw [Store.config, Store.leave, smaller]
  rw [smallerConfig]
  exact Store.unwind cells shrinks

namespace Completion.Simulated

variable {fuel : Nat} {around : Surroundings} {frames : Frames} {c : Config σ}
  {middle stop : Nat} {completion : Completion σ}

theorem after {later n : Nat} {d : Config σ} (moves : Moves host tape n c d)
    (simulated : completion.Simulated host tape later around frames d stop)
    (busy : fuel ≤ n + later) :
    completion.Simulated host tape fuel around frames c stop := by
  match completion, simulated with
  | .done _, ⟨shaped, m, rest⟩ => exact ⟨shaped, n + m, moves.trans rest⟩
  | .left _ _, ⟨shaped, target, m, found, rest⟩ =>
    exact ⟨shaped, target, n + m, found, moves.trans rest⟩
  | .failed _ _, ⟨m, d, pc, error, rest, going, fails, same⟩ =>
    exact ⟨n + m, d, pc, error, moves.trans rest, going, fails, same⟩
  | .unfinished _, ⟨m, d, enough, rest, state⟩ =>
    exact ⟨n + m, d, by omega, moves.trans rest, state⟩

theorem andThen {next : Store σ → Completion σ}
    (first : completion.Simulated host tape fuel around frames c middle)
    (second : ∀ store : Store σ, store.scopes.frames = frames →
      (next store).Simulated host tape fuel around frames (store.config middle) stop) :
    (completion.andThen next).Simulated host tape fuel around frames c stop := by
  match completion, first with
  | .done store, ⟨shaped, _, moves⟩ => exact (second store shaped).after moves (by omega)
  | .left _ _, first => exact first
  | .failed _ _, first => exact first
  | .unfinished _, first => exact first

theorem jump (fetched : tape[middle]? = some (.jump 0 stop))
    (simulated : completion.Simulated host tape fuel around frames c middle) :
    completion.Simulated host tape fuel around frames c stop := by
  match completion, simulated with
  | .done store, ⟨shaped, n, moves⟩ =>
    exact ⟨shaped, n + 1, moves.trans (Config.moves_jump fetched)⟩
  | .left _ _, simulated => exact simulated
  | .failed _ _, simulated => exact simulated
  | .unfinished _, simulated => exact simulated

theorem leaveBlock {names : List String}
    (inner : completion.Simulated host tape fuel (around.grow names.length)
      (⟨names, frames.top⟩ :: frames) c middle)
    (depth : around.depth = frames.top) (ordered : around.Ordered)
    (shrinks : tape.Shrinks names.length middle stop) :
    completion.leaveBlock.Simulated host tape fuel around frames c stop := by
  match completion, inner with
  | .done store, ⟨shaped, n, moves⟩ =>
    obtain ⟨m, freeing⟩ : ∃ m, Moves host tape m (store.config middle) (store.leave.config stop) :=
      Store.shrink shaped shrinks
    refine ⟨?_, n + m, moves.trans freeing⟩
    rw [Store.leave, Scopes.frames_tail, shaped]
    rfl
  | .left label store, ⟨shaped, target, n, found, moves⟩ =>
    -- The break has freed the cells of this block already: what is left are those of its loop.
    have lower := ordered.target found
    refine ⟨?_, target, n, found, ?_⟩
    · rw [Store.leave, Scopes.frames_tail, shaped]
      rfl
    · rw [Store.leave, Scopes.memory_tail, shaped, List.tail_cons, List.take_take,
        Nat.min_eq_left (by omega)]
      exact moves
  | .failed _ _, inner => exact inner
  | .unfinished _, inner => exact inner

theorem endLoop {label : Option String} {span : Span} {count exit : Nat}
    (inner : completion.Simulated host tape fuel (around.enterLoop label span count exit) frames c
      exit)
    (depth : around.depth + count = frames.top) :
    (completion.endLoop label).Simulated host tape fuel (around.grow count) frames c exit := by
  match completion, inner with
  | .done _, inner => exact inner
  | .left wanted store, ⟨shaped, target, n, found, moves⟩ =>
    have cells : store.scopes.memory.length = 1 + (around.depth + count) := by
      rw [Scopes.length_memory, shaped, depth]
    -- A break that is not for this loop is for one around it, which does not see this one.
    by_cases own : wanted = none ∨ wanted = label
    · have target?_own : (around.enterLoop label span count exit).target? wanted =
          some ⟨label, span, around.depth + count, exit⟩ := by
        rcases own with rfl | rfl
        · rfl
        · cases wanted <;> simp [Surroundings.target?, Surroundings.enterLoop]
      obtain rfl := Option.some.inj (target?_own.symm.trans found)
      rw [List.take_of_length_le (Nat.le_of_eq cells)] at moves
      rw [Completion.endLoop, if_pos own]
      exact ⟨shaped, n, moves⟩
    · obtain ⟨unlabelled, other⟩ := not_or.mp own
      have target?_outer : (around.enterLoop label span count exit).target? wanted =
          (around.grow count).target? wanted := by
        cases wanted with
        | none => exact absurd rfl unlabelled
        | some name =>
          simp [Surroundings.target?, Surroundings.enterLoop, Surroundings.grow, Ne.symm other]
      rw [Completion.endLoop, if_neg own]
      exact ⟨shaped, target, n, target?_outer ▸ found, moves⟩
  | .failed _ _, inner => exact inner
  | .unfinished _, inner => exact inner

/-- Rounds of a loop whose body is simulated, with a jump back behind the body. -/
theorem repeatBody {body : Store σ → Completion σ} {first last : Nat}
    (round : ∀ store : Store σ, store.scopes.frames = frames →
      (body store).Simulated host tape fuel around frames (store.config first) last)
    (back : tape[last]? = some (.jump 0 first)) {rounds : Nat} (enough : rounds ≤ fuel)
    {store : Store σ} (shaped : store.scopes.frames = frames) :
    (LoopTape.repeatBody body rounds store).Simulated host tape rounds around frames
      (store.config first) stop := by
  induction rounds generalizing store with
  | zero => exact ⟨0, _, Nat.le_refl 0, .refl _, rfl⟩
  | succ rounds ih =>
    have here := round store shaped
    rw [LoopTape.repeatBody]
    match body store, here with
    | .done again, ⟨shapedAgain, n, moves⟩ =>
      -- the jump back makes the round take a step, also when the body takes none
      exact after (moves.trans (Config.moves_jump back)) (ih (by omega) shapedAgain) (by omega)
    | .left _ _, here => exact here
    | .failed _ _, here => exact here
    | .unfinished _, ⟨n, d, busy, moves, state⟩ => exact ⟨n, d, by omega, moves, state⟩

end Completion.Simulated

theorem Variable.slot?_of_boundSlot {frames : Frames} {v : Variable} {slot : Nat}
    (bound : (v.bind frames).boundSlot = .ok slot) : frames.slot? v.name = some slot := by
  unfold boundSlot at bound
  split at bound
  · next found => exact found.trans (congrArg some (Except.ok.inj bound))
  · simp at bound

theorem Expr.subject?_of_slot {frames : Frames} {context : Span} {e : Expr} {slot : Nat}
    (read : (e.bind frames).slot context = .ok slot) :
    ∃ name, e.subject? = some name ∧ frames.slot? name = some slot := by
  match e with
  | .variable v => exact ⟨v.name, rfl, Variable.slot?_of_boundSlot read⟩
  | .paren inner => exact Expr.subject?_of_slot (e := inner) read
  | .call .. => simp [Expr.bind, Expr.slot] at read

theorem Scopes.readAll?_of_slots {scopes : Scopes} {context : Span} {args : List Expr}
    {inputs : List Nat}
    (read : Expr.slots context (Expr.bindAll scopes.frames args) = .ok inputs) :
    ∃ values, scopes.readAll? args = some values ∧ scopes.memory.readAll inputs = .ok values := by
  induction args generalizing inputs with
  | nil =>
    cases read
    exact ⟨[], rfl, rfl⟩
  | cons e rest ih =>
    obtain ⟨first, head, read⟩ := Except.bind_eq_ok.mp read
    obtain ⟨others, tail, same⟩ := Except.bind_eq_ok.mp read
    cases same
    obtain ⟨name, subject, slot⟩ := Expr.subject?_of_slot head
    obtain ⟨value, looked, cell⟩ := Scopes.read?_of_slot? slot
    obtain ⟨values, later, cells⟩ := ih tail
    refine ⟨value :: values, ?_, ?_⟩
    · simp [readAll?, subject, looked, later]
    · rw [Memory.readAll, Memory.read_eq_ok.mpr cell, cells]
      rfl

theorem Scopes.writeResult?_of_slot {scopes : Scopes} {result : Option Variable}
    {output : Option Nat} (bound : resultSlot (result.map (·.bind scopes.frames)) = .ok output) :
    scopes.memory.checkOutput output = .ok () ∧
      ∀ value, ∃ written, scopes.writeResult? result value = some written ∧
        written.frames = scopes.frames ∧ written.memory = scopes.memory.store output value := by
  cases result with
  | none =>
    cases bound
    exact ⟨rfl, fun value => ⟨scopes, rfl, rfl, rfl⟩⟩
  | some v =>
    obtain ⟨slot, found, rfl⟩ := Except.map_eq_ok.mp bound
    have there := Variable.slot?_of_boundSlot found
    obtain ⟨old, -, cell⟩ := Scopes.read?_of_slot? there
    refine ⟨?_, fun value => Scopes.write?_of_slot? value there⟩
    rw [Memory.checkOutput, Memory.read_eq_ok.mpr cell]
    rfl

section

variable {fuel : Nat} {around : Surroundings} {frames : Frames} {store : Store σ}
  {start stop : Nat}

theorem Store.frames_enter (seen : List String) (stmts : List Stmt)
    (shaped : store.scopes.frames = frames) :
    (store.enter (declaredNames seen stmts)).scopes.frames = frames.enter seen stmts := by
  rw [Store.enter, Scopes.frames_enter, shaped]
  rfl

theorem Store.call_simulated (quiet : host.NeverCancels) {result : Option Variable} {name : String}
    {args : List Expr} {span : Span}
    (occupies : ((Stmt.call result name args span).bind frames []).Occupies tape around start stop)
    (shaped : store.scopes.frames = frames) :
    (store.call host result name args).Simulated host tape fuel around frames
      (store.config start) stop := by
  subst shaped
  obtain ⟨inputs, output, read, written, fetched, rfl⟩ := occupies
  obtain ⟨values, args, cells⟩ := Scopes.readAll?_of_slots read
  obtain ⟨checked, writes⟩ := Scopes.writeResult?_of_slot written
  have stepped : (store.config start).step host tape =
      (store.config start).call host name inputs output := by
    simp [step, Store.config, fetched]
  unfold Store.call
  cases known : host.get? name with
  | none => exact ⟨0, _, start, _, .refl _, rfl, by rw [stepped, Config.call, known], rfl⟩
  | some function =>
    have silent := quiet name function known values store.state
    simp only [args]
    cases answer : (function values false store.state).result with
    | error message =>
      refine ⟨0, _, start, .host name message, .refl _, rfl, ?_, rfl⟩
      rw [stepped, Config.call, known]
      simp [Store.config, cells, checked, answer, World.after, silent]
    | ok value =>
      obtain ⟨scopes, wrote, sameFrames, stored⟩ := writes value
      simp only [wrote]
      refine ⟨sameFrames, 1, .single rfl ?_⟩
      rw [stepped, Config.call, known]
      simp [Store.config, cells, checked, answer, World.after, silent, stored]

theorem Store.choose_simulated {condition : Expr} {whenTrue whenFalse : Store σ → Completion σ}
    {slot target : Nat} (read : (condition.bind frames).slot .unknown = .ok slot)
    (fetched : tape[start]? = some (.jump slot target)) (shaped : store.scopes.frames = frames)
    (first : (whenTrue store).Simulated host tape fuel around frames (store.config target) stop)
    (second : (whenFalse store).Simulated host tape fuel around frames (store.config (start + 1))
      stop) :
    (store.choose condition whenTrue whenFalse).Simulated host tape fuel around frames
      (store.config start) stop := by
  subst shaped
  obtain ⟨name, subject, found⟩ := Expr.subject?_of_slot read
  obtain ⟨value, looked, cell⟩ := Scopes.read?_of_slot? found
  -- Slot 0 would make the jump one that is always taken.
  have positive := (Frames.slot?_bounds (Scopes.stacked_frames _) found).1
  have conditional : slot ≠ 0 := by omega
  have stepped : (store.config start).step host tape = _ :=
    Store.step_choose fetched conditional cell
  unfold Store.choose
  simp only [subject, looked]
  have fails (other : Value)
      (step : (store.config start).step host tape =
        (.error (.conditionNotBool slot other.typeName), store.config start)) :
      (Completion.failed (.conditionNotBool name other.typeName) store).Simulated host tape fuel
        around store.scopes.frames (store.config start) stop :=
    ⟨0, _, start, _, .refl _, rfl, step, by simp [Fault.error?, Scopes.address?, found]⟩
  match value with
  | .bool true => exact first.after (.single rfl stepped) (by omega)
  | .bool false => exact second.after (.single rfl stepped) (by omega)
  | .nil => exact fails .nil stepped
  | .number n => exact fails (.number n) stepped
  | .text t => exact fails (.text t) stepped

end

section

variable {fuel : Nat}

mutual

/-- A machine on the region of a block does what the interpreter does on the block. -/
theorem Block.simulated (quiet : host.NeverCancels) (block : Block) {around : Surroundings}
    {frames : Frames} {seen : List String} {start stop : Nat}
    (occupies : (block.bind frames seen).Occupies tape around start stop)
    (depth : around.depth = frames.top) (ordered : around.Ordered) {store : Store σ}
    (shaped : store.scopes.frames = frames) :
    (block.execute host fuel seen store).Simulated host tape fuel around frames
      (store.config start) stop := by
  cases block with
  | mk stmts slots =>
    rw [Block.bind_mk] at occupies
    obtain ⟨first, last, grows, inner, shrinks⟩ := occupies
    obtain ⟨n, allocating⟩ : ∃ n, Moves host tape n (store.config start) _ := Store.grow grows
    have entered := Store.frames_enter seen stmts shaped
    have body := Stmt.simulatedAll quiet stmts inner (by rw [Frames.top_enter, ← depth]; rfl)
      (ordered.grow _) entered
    exact (body.leaveBlock depth ordered shrinks).after allocating (by omega)

theorem Stmt.simulatedAll (quiet : host.NeverCancels) (stmts : List Stmt)
    {around : Surroundings} {frames : Frames} {seen : List String} {start stop : Nat}
    (occupy : Stmt.OccupyAll tape around start stop (Stmt.bindAll frames seen stmts))
    (depth : around.depth = frames.top) (ordered : around.Ordered) {store : Store σ}
    (shaped : store.scopes.frames = frames) :
    (Stmt.executeAll host fuel seen stmts store).Simulated host tape fuel around frames
      (store.config start) stop := by
  cases stmts with
  | nil =>
    obtain rfl : stop = start := occupy
    exact ⟨shaped, 0, .refl _⟩
  | cons s rest =>
    obtain ⟨middle, head, tail⟩ := occupy
    have first := Stmt.simulated quiet s head depth ordered shaped
    exact first.andThen fun between same => Stmt.simulatedAll quiet rest tail depth ordered same

theorem Stmt.simulated (quiet : host.NeverCancels) (s : Stmt) {around : Surroundings}
    {frames : Frames} {seen : List String} {start stop : Nat}
    (occupies : (s.bind frames seen).Occupies tape around start stop)
    (depth : around.depth = frames.top) (ordered : around.Ordered) {store : Store σ}
    (shaped : store.scopes.frames = frames) :
    (s.execute host fuel seen store).Simulated host tape fuel around frames
      (store.config start) stop := by
  match s with
  | .call result name args span => exact Store.call_simulated quiet occupies shaped
  | .cond condition thenBlock none =>
    obtain ⟨slot, read, choice, skips, inner⟩ := occupies
    have whenTrue := Block.simulated quiet thenBlock inner depth ordered shaped
    exact Store.choose_simulated read choice shaped whenTrue
      ⟨shaped, 1, Config.moves_jump skips⟩
  | .cond condition thenBlock (some elseBlock) =>
    obtain ⟨slot, middle, read, choice, first, skips, second⟩ := occupies
    have whenTrue := Block.simulated quiet thenBlock second depth ordered shaped
    have whenFalse := Block.simulated quiet elseBlock first depth ordered shaped
    exact Store.choose_simulated read choice shaped whenTrue (whenFalse.jump skips)
  | .loop label (.mk stmts slots) span =>
    rw [Stmt.bind, Block.bind_mk] at occupies
    obtain ⟨first, last, grows, inner, back, shrinks⟩ := occupies
    obtain ⟨n, allocating⟩ : ∃ n, Moves host tape n (store.config start) _ := Store.grow grows
    have entered := Store.frames_enter seen stmts shaped
    have inside : around.depth + (declaredNames seen stmts).length =
        (frames.enter seen stmts).top := by
      rw [Frames.top_enter, depth]
    -- The invariant of the rounds: between two of them the loop's own scope is open.
    have round (between : Store σ) (same : between.scopes.frames = frames.enter seen stmts) :=
      Stmt.simulatedAll quiet stmts inner inside (ordered.enterLoop _ _ _ _) same
    have rounds : Completion.Simulated host tape fuel _ _ (Store.config _ first) (last + 1) _ :=
      .repeatBody round back (Nat.le_refl fuel) entered
    exact ((rounds.endLoop inside).leaveBlock depth ordered shrinks).after allocating (by omega)
  | .leave label span =>
    obtain ⟨target, jump, found, shrinks, leaving, rfl⟩ := occupies
    have lower := ordered.target found
    have cells : store.scopes.memory.length =
        1 + target.depth + (around.depth - target.depth) := by
      rw [Scopes.length_memory, shaped, ← depth]
      omega
    obtain ⟨n, freeing⟩ : ∃ n, Moves host tape n (store.config start) _ :=
      Store.unwind cells shrinks
    exact ⟨shaped, target, n + 1, found, freeing.trans (Config.moves_jump leaving)⟩
  | .block inner => exact Block.simulated quiet inner occupies depth ordered shaped

end

end

end LoopTape
