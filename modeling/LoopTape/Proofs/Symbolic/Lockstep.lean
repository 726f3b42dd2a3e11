import LoopTape.Machine.Basic
import LoopTape.Proofs.Symbolic.Linkable

/-! Symbolic code runs as its tape does.

A machine can run symbolic code as it is: its program counter is a place in the code, labels do nothing,
and a jump goes to the last place where its label is set. Step by step it does the same as the machine on
the tape, whose program counter is the number of instructions in front of that place.
-/

set_option autoImplicit false

namespace LoopTape

/-- The last place in the code where the label is set; the end of the code if there is none. -/
def lastPlace (id : Nat) : List Symbolic → Nat
  | [] => 0
  | entry :: rest => if entry = .label id ∧ .label id ∉ rest then 0 else lastPlace id rest + 1

theorem lastPlace_append {id : Nat} (before : List Symbolic) {behind : List Symbolic}
    (last : .label id ∉ behind) : lastPlace id (before ++ .label id :: behind) = before.length := by
  induction before with
  | nil => simp [lastPlace, last]
  | cons entry rest ih => simp [lastPlace, ih]

variable {σ : Type}

namespace Config

/-- What the machine for `code` does when this part of the code is left: it passes over the labels in
front and executes the first instruction. -/
def perform (host : HostTable σ) (code : List Symbolic) :
    List Symbolic → Config σ → Except MachineError Step × Config σ
  | [], c => (.ok .halted, c)
  | .label _ :: rest, c => perform host code rest (c.next c.machine.memory)
  | .call name inputs output :: _, c => c.call host name inputs output
  | .jump condition id :: _, c =>
    let goal := c.goto (lastPlace id code)
    if condition = 0 then (.ok .moved, goal)
    else
      match c.machine.memory.read condition with
      | .error e => (.error e, c)
      | .ok (.bool true) => (.ok .moved, goal)
      | .ok (.bool false) => (.ok .moved, c.next c.machine.memory)
      | .ok other => (.error (.conditionNotBool condition other.typeName), c)
  | .grow count :: _, c =>
    (.ok .moved, c.next (c.machine.memory ++ List.replicate count .nil))
  | .shrink count :: _, c =>
    let available := c.machine.memory.length - 1
    if available < count then (.error (.shrinkUnderflow count available), c)
    else (.ok .moved, c.next (c.machine.memory.take (c.machine.memory.length - count)))

def symbolicStep (host : HostTable σ) (code : List Symbolic) (c : Config σ) :
    Except MachineError Step × Config σ :=
  perform host code (code.drop c.machine.pc) c

/-- The same configuration on the tape, at the number of instructions passed. -/
def onTape (code : List Symbolic) (c : Config σ) : Config σ :=
  c.goto (instrCount (code.take c.machine.pc))

/-- The outcome of so many steps, or of those up to the first one that does not move the machine on. -/
def repeatStep (step : Config σ → Except MachineError Step × Config σ) :
    Nat → Config σ → Except MachineError Step × Config σ
  | 0, c => (.ok .moved, c)
  | n + 1, c =>
    match step c with
    | (.ok .moved, next) => repeatStep step n next
    | stopped => stopped

section

variable {code before rest : List Symbolic} {entry : Symbolic} {c : Config σ}

theorem instrCount_take (split : code = before ++ rest) (place : c.machine.pc = before.length) :
    instrCount (code.take c.machine.pc) = instrCount before := by
  rw [split, place, List.take_left]

/-- The place behind an entry has one instruction more in front of it, if the entry is one. -/
theorem instrCount_take_succ (split : code = before ++ entry :: rest)
    (place : c.machine.pc = before.length) :
    instrCount (code.take (c.machine.pc + 1)) = instrCount (before ++ [entry]) := by
  have longer : c.machine.pc + 1 = (before ++ [entry]).length := by simp [place]
  have split : code = (before ++ [entry]) ++ rest := by simp [split]
  rw [longer, split, List.take_left]

theorem onTape_next (split : code = before ++ entry :: rest) (place : c.machine.pc = before.length)
    (instruction : entry.isLabel = false) (memory : Memory) :
    (c.next memory).onTape code = (c.onTape code).next memory := by
  have here := instrCount_take split place
  have behind := instrCount_take_succ split place
  rw [instrCount_append, instrCount_cons instruction, instrCount_nil] at behind
  simp only [onTape, goto, next, here, behind, Nat.zero_add]

theorem onTape_label {id : Nat} (split : code = before ++ .label id :: rest)
    (place : c.machine.pc = before.length) :
    (c.next c.machine.memory).onTape code = c.onTape code := by
  have here := instrCount_take split place
  have behind := instrCount_take_succ split place
  rw [instrCount_append, instrCount_label, instrCount_nil] at behind
  simp only [onTape, goto, next, here, behind, Nat.add_zero]

theorem onTape_goto {id : Nat} {behind : List Symbolic} (split : code = before ++ .label id :: behind)
    (last : .label id ∉ behind) :
    (c.goto (lastPlace id code)).onTape code = (c.onTape code).goto (instrCount before) := by
  have place : lastPlace id code = before.length := by rw [split, lastPlace_append before last]
  have passed := instrCount_take (c := c.goto before.length) split rfl
  simp only [onTape, goto, place] at passed ⊢
  rw [passed]

theorem call_onTape (host : HostTable σ) {name : String} {inputs : List Nat} {output : Option Nat}
    (split : code = before ++ .call name inputs output :: rest)
    (place : c.machine.pc = before.length) :
    (c.onTape code).call host name inputs output =
      ((c.call host name inputs output).1, (c.call host name inputs output).2.onTape code) := by
  have here := instrCount_take split place
  have behind := instrCount_take_succ split place
  rw [instrCount_append, instrCount_call, instrCount_nil] at behind
  unfold call
  cases host.get? name with
  | none => rfl
  | some function =>
    simp only [onTape, goto]
    cases c.machine.memory.readAll inputs with
    | error e => rfl
    | ok args =>
      cases c.machine.memory.checkOutput output with
      | error e => rfl
      | ok _ =>
        dsimp only
        cases (function args c.world.cancelled c.world.state).result with
        | error message => rfl
        | ok value => simp only [here, behind, Nat.zero_add]

end

section

variable {host : HostTable σ} {code : List Symbolic} {tape : Tape} (linked : link code = .ok tape)

include linked

theorem step_perform {before rest : List Symbolic} (split : code = before ++ rest) {c : Config σ}
    (place : c.machine.pc = before.length) :
    (c.onTape code).step host tape =
      ((perform host code rest c).1, (perform host code rest c).2.onTape code) := by
  induction rest generalizing before c with
  | nil =>
    have atEnd : (c.onTape code).machine.pc = tape.length := by
      rw [length_linkPart linked]
      exact (instrCount_take split place).trans (by rw [split, List.append_nil])
    simp [step, atEnd, perform]
  | cons entry rest ih =>
    by_cases label : entry.isLabel = true
    · cases entry with
      | label id =>
        have longer : code = before ++ [.label id] ++ rest := by simp [split]
        have passed := ih longer (c := c.next c.machine.memory) (by simp [next, place])
        rw [onTape_label split place] at passed
        exact passed
      | _ => exact nomatch label
    · -- the tape has the instruction of the entry where the machine on it is
      have instruction : entry.isLabel = false := Bool.not_eq_true _ ▸ label
      obtain ⟨instr, becomes, fetched⟩ := linkPart_getElem? (split ▸ linked) instruction
      have fetched : tape[(c.onTape code).machine.pc]? = some instr :=
        (congrArg (tape[·]?) (instrCount_take split place)).trans fetched
      have moved (memory : Memory) := onTape_next split place instruction memory
      unfold step
      rw [fetched]
      rw [← split] at becomes
      cases Symbolic.instr?_eq_some_iff.mp becomes with
      | call name inputs output => exact call_onTape host split place
      | grow count => simp only [perform, moved]; rfl
      | shrink count =>
        have same : (c.onTape code).machine.memory = c.machine.memory := rfl
        simp only [perform, same]
        split
        · rfl
        · rw [moved]
      | jump condition id labelled last =>
        have same : (c.onTape code).machine.memory = c.machine.memory := rfl
        have jumped := onTape_goto (c := c) labelled last
        simp only [perform, same]
        by_cases always : condition = 0
        · simp only [always, if_true, jumped]
        · simp only [always, if_false]
          cases c.machine.memory.read condition with
          | error e => rfl
          | ok value =>
            cases value with
            | bool holds =>
              cases holds with
              | true => simp only [jumped]
              | false => simp only [moved]
            | _ => rfl

theorem step_onTape (c : Config σ) :
    (c.onTape code).step host tape =
      ((c.symbolicStep host code).1, (c.symbolicStep host code).2.onTape code) := by
  by_cases inside : c.machine.pc ≤ code.length
  · exact step_perform linked (List.take_append_drop c.machine.pc code).symm
      (List.length_take_of_le inside).symm
  · have behind : code.length ≤ c.machine.pc := by omega
    have atEnd : (c.onTape code).machine.pc = tape.length := by
      rw [length_linkPart linked]
      exact congrArg instrCount (List.take_of_length_le behind)
    simp [step, atEnd, symbolicStep, List.drop_of_length_le behind, perform]

/-- What one step keeps in lockstep, any number of steps does. -/
theorem repeatStep_onTape (n : Nat) (c : Config σ) :
    repeatStep (·.step host tape) n (c.onTape code) =
      ((repeatStep (·.symbolicStep host code) n c).1,
        (repeatStep (·.symbolicStep host code) n c).2.onTape code) := by
  induction n generalizing c with
  | zero => rfl
  | succ n ih =>
    simp only [repeatStep, step_onTape linked]
    match c.symbolicStep host code with
    | (.ok .moved, next) => exact ih next
    | (.ok .halted, next) => rfl
    | (.error e, next) => rfl

end

end Config

/-- Code has no tape exactly if one of its jumps names a label that is set nowhere, and the first such
jump is reported. Otherwise the tape is that of its instructions in their order, where each jump goes to
the last place of its label; and it runs in lockstep with the code, for any host and from any place. -/
theorem link_lockstep (code : List Symbolic) :
    ((∃ e, link code = .error e) ↔ ∃ condition id, .jump condition id ∈ code ∧ .label id ∉ code) ∧
      (∀ e, link code = .error e ↔ ∃ id, FirstDangling code code id ∧ e = .undefinedLabel id) ∧
      ∀ tape, link code = .ok tape →
        List.Forall₂ (Symbolic.LinksTo code) (code.filter (!·.isLabel)) tape ∧
          tape.length = instrCount code ∧ tape.targetsValid = true ∧
          ∀ {σ : Type} (host : HostTable σ) (n : Nat) (c : Config σ),
            Config.repeatStep (·.step host tape) n (c.onTape code) =
              ((Config.repeatStep (·.symbolicStep host code) n c).1,
                (Config.repeatStep (·.symbolicStep host code) n c).2.onTape code) := by
  refine ⟨?_, fun e => link_eq_error_iff, ?_⟩
  · constructor
    · rintro ⟨e, failed⟩
      obtain ⟨id, ⟨before, condition, behind, split, missing, -⟩, -⟩ := link_eq_error_iff.mp failed
      refine ⟨condition, id, ?_, missing⟩
      rw [split]
      simp
    · rintro ⟨condition, id, member, missing⟩
      cases linked : link code with
      | error e => exact ⟨e, rfl⟩
      | ok tape => exact absurd (exists_link_eq_ok_iff.mp ⟨tape, linked⟩ condition id member) missing
  · intro tape linked
    exact ⟨linkPart_eq_ok_iff.mp linked, length_linkPart linked, targetsValid_of_link linked,
      fun host n c => Config.repeatStep_onTape linked n c⟩

end LoopTape
