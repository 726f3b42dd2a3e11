import LoopTape.Command.Directory
import LoopTape.Proofs.Symbolic.Faults
import LoopTape.Proofs.Tape.InRange

/-! The commands show one program: what they leave of a file is what the stages make of its text.

Each command goes through the stages on its own. A dump with labels stops before the labels are looked
up, and so would leave something of a program that has no tape, but there is none: the labels of lowered
code are all set. All else fails at the same stage with the same failure.
-/

set_option autoImplicit false

namespace LoopTape

def Report.outcome (shown : Diagnostic → String) (report : Report) : Outcome :=
  match report.failure with
  | none => ⟨0, report.printed, ""⟩
  | some d => ⟨1, report.printed, shown d⟩

theorem Invocation.outcome?_eq_map (i : Invocation) (files : Files) (terminal : Bool)
    (patience : Nat) :
    i.outcome? files terminal patience =
      (i.command.report? files patience).map (Report.outcome (i.show terminal)) := by
  unfold outcome?
  cases i.command.report? files patience with
  | none => rfl
  | some report =>
    obtain ⟨printed, failure⟩ := report
    cases failure <;> rfl

@[simp] theorem Report.stdout_outcome (shown : Diagnostic → String) (report : Report) :
    (report.outcome shown).stdout = report.printed := by
  unfold outcome
  cases report.failure <;> rfl

@[simp] theorem Report.exit_outcome {shown : Diagnostic → String} {report : Report} :
    (report.outcome shown).exit = 0 ↔ report.failure = none := by
  unfold outcome
  cases report.failure <;> simp

theorem Report.failure_of {α : Type} {print : α → String} {result : Except Diagnostic α} :
    (Report.of print result).failure = none ↔ ∃ value, result = .ok value := by
  cases result <;> simp [Report.of, Report.ok, Report.failed]

variable {files : Files} {file source : String}

theorem explain_eq_ok {α : Type} {result : Except Failure α} {value : α} :
    explain source result = .ok value ↔ result = .ok value :=
  Except.mapError_eq_ok

theorem readFile_of_held (held : files file = .ok source) : readFile files file = .ok source := by
  rw [readFile, held]
  rfl

theorem parseFile_of_held (held : files file = .ok source) :
    parseFile files file =
      explain source (parseSource source) >>= fun root => .ok (source, root) := by
  rw [parseFile, readFile_of_held held]
  rfl

/-- What is made of the tree in a file is made of the tree in its text, and a failure of either stage
is shown with the text. -/
theorem parseFile_bind {α : Type} (held : files file = .ok source)
    (make : Block → Except CompileError α) :
    (parseFile files file >>= fun (source, root) => explain source ((make root).mapError .compile)) =
      explain source (parseSource source >>= fun root => (make root).mapError .compile) := by
  rw [parseFile_of_held held, bind_assoc, explain, explain, Except.mapError_bind]
  rfl

theorem compileFile_of_held (held : files file = .ok source) :
    compileFile files file = explain source (compileSource source) :=
  parseFile_bind held Block.compile

def symbolicSource (source : String) : Except Failure (List Symbolic) := do
  let root ← parseSource source
  root.resolve.symbolic.mapError .compile

theorem symbolicFile_of_held (held : files file = .ok source) :
    symbolicFile files file = explain source (symbolicSource source) :=
  parseFile_bind held fun root => root.resolve.symbolic

/-- A tape is what the labels stand for in the code of a source that got so far. -/
theorem compileSource_eq_bind :
    compileSource source = symbolicSource source >>= fun code => (link code).mapError .compile := by
  simp only [compileSource, symbolicSource, Block.compile, Block.generate, Except.mapError_bind,
    bind_assoc]

theorem exists_link_of_symbolicSource {code : List Symbolic}
    (lowered : symbolicSource source = .ok code) : ∃ tape, link code = .ok tape := by
  obtain ⟨root, -, lowered⟩ := Except.bind_eq_ok.mp lowered
  exact Block.exists_link_of_symbolic (Except.mapError_eq_ok.mp lowered)

theorem symbolicSource_of_ok {tape : Tape} (compiled : compileSource source = .ok tape) :
    ∃ code, symbolicSource source = .ok code ∧ link code = .ok tape := by
  obtain ⟨code, lowered, linked⟩ := Except.bind_eq_ok.mp (compileSource_eq_bind.symm.trans compiled)
  exact ⟨code, lowered, Except.mapError_eq_ok.mp linked⟩

theorem symbolicSource_of_error {e : Failure} (failed : compileSource source = .error e) :
    symbolicSource source = .error e := by
  rcases Except.bind_eq_error.mp (compileSource_eq_bind.symm.trans failed) with
    same | ⟨code, lowered, unlinked⟩
  · exact same
  · obtain ⟨tape, linked⟩ := exists_link_of_symbolicSource lowered
    rw [linked] at unlinked
    exact nomatch unlinked

/-- The run of a source as a command makes it: nothing was printed before, and nothing cancels it. -/
def commandRun (source : String) (patience : Nat) (limit : Option Nat) :
    Except Failure (Option (Run String)) :=
  runSource source commandHost ⟨"", false⟩ patience limit

theorem runFailure_eq_none {σ : Type} {tape : Tape} {run : Run σ} :
    runFailure tape run = none ↔ run.ending = .ok .finished := by
  unfold runFailure
  split <;> simp_all

/-- What running leaves agrees with the run: there is something as soon as the run has stopped, with the
text that was printed on the way, and it is a success if the machine got to the end. -/
structure RunAgrees (ran : Except Failure (Option (Run String))) (left : Option Outcome) : Prop where
  unanswered : left = none ↔ ran = .ok none
  printed : ∀ run, ran = .ok (some run) →
    ∃ outcome, left = some outcome ∧ outcome.stdout = run.config.world.state
  finished : (∃ outcome, left = some outcome ∧ outcome.exit = 0) ↔
    ∃ run, ran = .ok (some run) ∧ run.ending = .ok .finished

theorem runReport?_of_error (held : files file = .ok source) {e : Failure}
    (failed : compileSource source = .error e) (patience : Nat) (limit : Option Nat) :
    runReport? files file patience limit = some (.failed (e.diagnostic.withSource source)) := by
  rw [runReport?, compileFile_of_held held, failed]
  rfl

theorem runReport?_of_ok (held : files file = .ok source) {tape : Tape}
    (compiled : compileSource source = .ok tape) (patience : Nat) (limit : Option Nat) :
    runReport? files file patience limit =
      (Config.run? commandHost tape patience limit ⟨.fresh, ⟨"", false⟩⟩).map fun run =>
        ⟨run.config.world.state, runFailure tape run⟩ := by
  rw [runReport?, compileFile_of_held held, compiled]
  show (do let run ← Config.run? commandHost tape patience limit _; return _) = _
  cases Config.run? commandHost tape patience limit ⟨.fresh, ⟨"", false⟩⟩ <;> rfl

theorem commandRun_of_error {e : Failure} (failed : compileSource source = .error e)
    (patience : Nat) (limit : Option Nat) : commandRun source patience limit = .error e := by
  rw [commandRun, runSource, failed]
  rfl

theorem commandRun_of_ok {tape : Tape} (compiled : compileSource source = .ok tape)
    (patience : Nat) (limit : Option Nat) :
    commandRun source patience limit =
      .ok (Config.run? commandHost tape patience limit ⟨.fresh, ⟨"", false⟩⟩) := by
  rw [commandRun, runSource, compiled]
  rfl

theorem commandRun_limited_ne (source : String) (patience limit : Nat) :
    commandRun source patience (some limit) ≠ .ok none := by
  cases made : compileSource source with
  | error e => simp [commandRun_of_error made]
  | ok tape => simp [commandRun_of_ok made, Config.run?]

theorem runReport?_agrees (held : files file = .ok source) (shown : Diagnostic → String)
    (patience : Nat) (limit : Option Nat) :
    RunAgrees (commandRun source patience limit)
      ((runReport? files file patience limit).map (Report.outcome shown)) := by
  cases made : compileSource source with
  | error e =>
    rw [commandRun_of_error made, runReport?_of_error held made]
    exact ⟨by simp, by simp, by simp [Report.outcome, Report.failed]⟩
  | ok tape =>
    rw [commandRun_of_ok made, runReport?_of_ok held made]
    cases Config.run? commandHost tape patience limit ⟨.fresh, ⟨"", false⟩⟩ with
    | none => exact ⟨by simp, by simp, by simp⟩
    | some run =>
      refine ⟨by simp, ?_, ?_⟩
      · rintro _ ⟨⟩
        exact ⟨_, rfl, Report.stdout_outcome shown _⟩
      · simp [runFailure_eq_none]

theorem dumpReport_of_error (held : files file = .ok source) {e : Failure}
    (failed : compileSource source = .error e) (form : DumpForm) :
    dumpReport files file form = .failed (e.diagnostic.withSource source) := by
  cases form with
  | listing | json =>
    rw [dumpReport, compileFile_of_held held, failed]
    rfl
  | symbolic =>
    rw [dumpReport, symbolicFile_of_held held, symbolicSource_of_error failed]
    rfl

theorem dumpReport_symbolic_of_ok (held : files file = .ok source) {tape : Tape}
    (compiled : compileSource source = .ok tape) :
    ∃ code, link code = .ok tape ∧ dumpReport files file .symbolic =
      .ok (String.join (code.map fun entry => entry.text ++ "\n")) := by
  obtain ⟨code, lowered, linked⟩ := symbolicSource_of_ok compiled
  refine ⟨code, linked, ?_⟩
  rw [dumpReport, symbolicFile_of_held held, lowered]
  rfl

theorem failure_dumpReport (held : files file = .ok source) (form : DumpForm) :
    (dumpReport files file form).failure = none ↔ ∃ tape, compileSource source = .ok tape := by
  cases made : compileSource source with
  | error e => simp [dumpReport_of_error held made, Report.failed]
  | ok tape =>
    cases form with
    | listing | json =>
      simp [dumpReport, compileFile_of_held held, made, Report.failure_of, explain_eq_ok]
    | symbolic =>
      obtain ⟨code, -, printed⟩ := dumpReport_symbolic_of_ok held made
      simp [printed, Report.ok]

theorem exists_parseFile (held : files file = .ok source) :
    (∃ result, parseFile files file = .ok result) ↔ ∃ root, parseSource source = .ok root := by
  simp [parseFile_of_held held, Except.bind_eq_ok, explain_eq_ok]

/-- The text is the record of the tape of a source, and of no other tape. It is read back as that tape
if fewer than 2^32 slots are allocated at once and the source has fewer than 2^64 bytes, so that all
numbers are in the range of records. -/
structure Records (source : String) (tape : Tape) (text : String) : Prop where
  only : ∀ other : Tape, Json.parse text = some other.toJson ↔ other = tape
  decoded : ∀ root, parseSource source = .ok root → root.peakSlot < Nat.pow 2 32 →
    source.utf8ByteSize < Nat.pow 2 64 → (Json.parse text).bind Tape.ofJson? = some tape

theorem records_pretty {tape : Tape} (compiled : compileSource source = .ok tape) :
    Records source tape (tape.toJson.pretty ++ "\n") := by
  have read := Json.parse_pretty_line (Tape.whole_toJson tape)
  rw [if_pos tape.nesting_toJson_le_depthLimit] at read
  constructor
  · intro other
    rw [read, Option.some.injEq, Tape.toJson_injective.eq_iff]
    exact eq_comm
  · intro root parsed few bytes
    obtain ⟨_, parsedToo, compiled⟩ := compileSource_eq_ok_iff.mp compiled
    cases parsed.symm.trans parsedToo
    have short : tape.length < Nat.pow 2 64 :=
      calc tape.length
        _ ≤ root.yield.length := Block.length_compile_le compiled
        _ ≤ source.utf8ByteSize := length_yield_of_parseSource parsed
        _ < Nat.pow 2 64 := bytes
    rw [read, Option.bind_some, Tape.ofJson?_toJson]
    exact ⟨Block.inRange_of_compile compiled few short, rfl⟩

/-- What commands leave of a file, `left`, agrees with what the stages make of its text. -/
structure ViewsAgree (file source : String) (patience : Nat) (shown : Diagnostic → String)
    (left : Command → Option Outcome) : Prop where
  accepted : ∀ form, (∃ outcome, left (.dump file form) = some outcome ∧ outcome.exit = 0) ↔
    ∃ tape, compileSource source = .ok tape
  refused : ∀ e, compileSource source = .error e →
    (∀ form, left (.dump file form) = some ⟨1, "", shown (e.diagnostic.withSource source)⟩) ∧
    ∀ limit, left (.run file limit) = some ⟨1, "", shown (e.diagnostic.withSource source)⟩
  listing : ∀ tape, compileSource source = .ok tape →
    left (.dump file .listing) = some ⟨0, tape.listing, ""⟩
  json : ∀ tape, compileSource source = .ok tape →
    ∃ text, left (.dump file .json) = some ⟨0, text, ""⟩ ∧ Records source tape text
  symbolic : ∀ tape, compileSource source = .ok tape →
    ∃ code, link code = .ok tape ∧ left (.dump file .symbolic) =
      some ⟨0, String.join (code.map fun entry => entry.text ++ "\n"), ""⟩
  run : ∀ limit, RunAgrees (commandRun source patience limit) (left (.run file limit))
  answered : ∀ limit, left (.run file (some limit)) ≠ none
  fmt : ∀ annotate, (∃ outcome, left (.fmt file annotate) = some outcome ∧ outcome.exit = 0) ↔
    ∃ root, parseSource source = .ok root
  ast : (∃ outcome, left (.ast file) = some outcome ∧ outcome.exit = 0) ↔
    ∃ root, parseSource source = .ok root

def Invocation.asking (i : Invocation) (command : Command) : Invocation := { i with command }

theorem Invocation.views_agree {files : Files} {file source : String}
    (held : files file = .ok source) (i : Invocation) (terminal : Bool) (patience : Nat) :
    ViewsAgree file source patience (i.show terminal) fun command =>
      (i.asking command).outcome? files terminal patience := by
  have left (command : Command) : (i.asking command).outcome? files terminal patience =
      (command.report? files patience).map (Report.outcome (i.show terminal)) :=
    (i.asking command).outcome?_eq_map files terminal patience
  simp only [left]
  constructor
  case accepted =>
    intro form
    simp [Command.report?, failure_dumpReport held]
  case refused =>
    intro e failed
    constructor
    · intro form
      rw [Command.report?, dumpReport_of_error held failed]
      rfl
    · intro limit
      rw [Command.report?, runReport?_of_error held failed]
      rfl
  case listing =>
    intro tape compiled
    rw [Command.report?, dumpReport, compileFile_of_held held, compiled]
    rfl
  case json =>
    intro tape compiled
    refine ⟨_, ?_, records_pretty compiled⟩
    rw [Command.report?, dumpReport, compileFile_of_held held, compiled]
    rfl
  case symbolic =>
    intro tape compiled
    obtain ⟨code, linked, printed⟩ := dumpReport_symbolic_of_ok held compiled
    refine ⟨code, linked, ?_⟩
    rw [Command.report?, printed]
    rfl
  case run =>
    exact runReport?_agrees held (i.show terminal) patience
  case answered =>
    intro limit unanswered
    have agrees := runReport?_agrees held (i.show terminal) patience (some limit)
    exact commandRun_limited_ne source patience limit (agrees.unanswered.mp unanswered)
  case fmt =>
    intro annotate
    simp [Command.report?, fmtReport, Report.failure_of, exists_parseFile held]
  case ast =>
    simp [Command.report?, astReport, Report.failure_of, exists_parseFile held]

def truth : String := "\x7b $t = true; cond $t \x7b print $t; \x7d \x7d"

def truthTape : Tape :=
  [.grow 1, .call "true" [] (some 1), .jump 1 4, .jump 0 5, .call "print" [1] none, .shrink 1]

theorem truth_viewed :
    let files := directoryOf "truth.ll" truth.toUTF8
    let left (command : Command) := (Invocation.mk false true command).outcome? files false 0
    files "./truth.ll" = .ok truth ∧
      left (.dump "./truth.ll" .listing) = some ⟨0, truthTape.listing, ""⟩ ∧
      (∃ text, left (.dump "./truth.ll" .json) = some ⟨0, text, ""⟩ ∧
        (Json.parse text).bind Tape.ofJson? = some truthTape) ∧
      (∃ code, link code = .ok truthTape ∧ left (.dump "./truth.ll" .symbolic) =
        some ⟨0, String.join (code.map fun entry => entry.text ++ "\n"), ""⟩) ∧
      (∃ outcome, left (.run "./truth.ll" (some 5)) = some outcome ∧ outcome.exit = 0) ∧
      ∃ outcome, left (.run "./truth.ll" (some 5)) = some outcome ∧ outcome.stdout = "true\n" := by
  have held : directoryOf "truth.ll" truth.toUTF8 "./truth.ll" = .ok truth := by decide +kernel
  have compiled : compileSource truth = .ok truthTape := by decide +kernel
  have views := Invocation.views_agree held ⟨false, true, .ast "./truth.ll"⟩ false 0
  obtain ⟨root, parsed, -⟩ := compileSource_eq_ok_iff.mp compiled
  have few : root.peakSlot < Nat.pow 2 32 := by
    have peak : (parseSource truth).map Block.peakSlot = .ok 1 := by decide +kernel
    rw [parsed] at peak
    rw [show root.peakSlot = 1 from Except.ok.inj peak]
    decide
  obtain ⟨text, left, records⟩ := views.json _ compiled
  have decoded := records.decoded root parsed few (by decide)
  have ran := commandRun_of_ok compiled 0 (some 5)
  refine ⟨held, views.listing _ compiled, ⟨text, left, decoded⟩, views.symbolic _ compiled, ?_, ?_⟩
  · exact (views.run (some 5)).finished.mpr ⟨_, ran, rfl⟩
  · exact (views.run (some 5)).printed _ ran

end LoopTape
