import Mathlib.Data.List.Forall2
import RegAsm.Proofs.Degradations
import RegAsm.Proofs.Excerpt
import RegAsm.Proofs.Printing
import RegAsm.Proofs.ProgramCounter

/-! What the command logs. There is one log for each course that a program can take, whatever the level that is
asked for: the level only decides how much of it is shown. In this log a failure is reported once, where it arose
or, for a fault, with the place of the instruction in front of its cause; each instruction that is fetched leaves
one message; and the warning that closes the translation counts the degradations of a file, which are as many as its
degraded lines only if no line has two of them. -/

namespace RegAsm

open Log (Level Message Terminal)
open RegAsm.Configuration (Step Steps Fault)

namespace Log

/-- The messages of one level. -/
def ofLevel (level : Level) (messages : List Message) : List Message := messages.filter (·.level = level)

variable {level own : Level} {messages : List Message}

theorem mem_ofLevel {message : Message} :
    message ∈ ofLevel level messages ↔ message ∈ messages ∧ message.level = level := by
  rw [ofLevel, List.mem_filter, decide_eq_true_iff]

theorem ofLevel_append (level : Level) (messages more : List Message) :
    ofLevel level (messages ++ more) = ofLevel level messages ++ ofLevel level more := List.filter_append ..

theorem ofLevel_eq_self (h : ∀ message ∈ messages, message.level = level) : ofLevel level messages = messages := by
  rw [ofLevel, List.filter_eq_self]
  intro message hmessage
  simpa using h message hmessage

theorem ofLevel_eq_nil (h : ∀ message ∈ messages, message.level = own) (hother : own ≠ level) :
    ofLevel level messages = [] := by
  rw [ofLevel, List.filter_eq_nil_iff]
  intro message hmessage
  rw [h message hmessage]
  simpa using hother

end Log

open Log (ofLevel)

theorem Source.Degradation.head?_message (degradation : Source.Degradation) :
    degradation.message.toList.head? = some 'l' := by
  -- The pieces of the text are left as they are: only the first one is looked into.
  cases degradation with
  | malformedOperand line opcode field =>
      change ("line " ++ _ ++ _ ++ _ ++ _ ++ _ ++ _ ++ _).toList.head? = some 'l'
      simp only [String.toList_append]
      rfl
  | unknownOpcode line token =>
      change ("line " ++ _ ++ _ ++ _ ++ _).toList.head? = some 'l'
      simp only [String.toList_append]
      rfl

namespace Command

/-! ### The levels of messages -/

theorem level_of_mem_degradationMessages {degradations : List Source.Degradation} :
    ∀ message ∈ degradationMessages degradations, message.level = .warn := by
  intro message hmessage
  obtain ⟨degradation, -, rfl⟩ := List.mem_map.mp hmessage
  rfl

theorem level_of_mem_summaryMessages {path : String} {degradations : List Source.Degradation} :
    ∀ message ∈ summaryMessages path degradations, message.level = .warn := by
  intro message hmessage
  unfold summaryMessages at hmessage
  split at hmessage
  · exact absurd hmessage List.not_mem_nil
  · rw [List.mem_singleton.mp hmessage]

theorem level_of_mem_fetchMessages {program : Program} {fetched : List Nat} :
    ∀ message ∈ fetchMessages program fetched, message.level = .debug := by
  intro message hmessage
  obtain ⟨pc, -, hpc⟩ := List.mem_filterMap.mp hmessage
  obtain ⟨i, -, rfl⟩ := Option.map_eq_some_iff.mp hpc
  rfl

theorem level_of_mem_errorMessages {error : Error} : ∀ message ∈ errorMessages error, message.level = .error := by
  intro message hmessage
  unfold errorMessages at hmessage
  split at hmessage
  · exact absurd hmessage List.not_mem_nil
  · rw [List.mem_singleton.mp hmessage]

variable {settings : Settings} {read : FileReader} {assembly : Assembly} {run : Run}

theorem ofLevel_runOutcome (level : Level) (settings : Settings) (assembly : Assembly) (run : Run) :
    ofLevel level (runOutcome settings assembly run).messages =
      ofLevel level (degradationMessages assembly.degradations) ++
        ofLevel level (summaryMessages settings.programPath assembly.degradations) ++
        ofLevel level (fetchMessages run.machine.program run.fetched.toList) ++
        ofLevel level (endMessages run.machine run.result) := by
  rw [runOutcome, Log.ofLevel_append, Log.ofLevel_append, Log.ofLevel_append]

theorem ofLevel_error_runOutcome (settings : Settings) (assembly : Assembly) (run : Run) :
    ofLevel .error (runOutcome settings assembly run).messages =
      ofLevel .error (endMessages run.machine run.result) := by
  rw [ofLevel_runOutcome, Log.ofLevel_eq_nil level_of_mem_degradationMessages (by decide),
    Log.ofLevel_eq_nil level_of_mem_summaryMessages (by decide),
    Log.ofLevel_eq_nil level_of_mem_fetchMessages (by decide)]
  rfl

theorem ofLevel_debug_runOutcome (settings : Settings) (assembly : Assembly) (run : Run) :
    ofLevel .debug (runOutcome settings assembly run).messages =
      fetchMessages run.machine.program run.fetched.toList ++
        ofLevel .debug (endMessages run.machine run.result) := by
  rw [ofLevel_runOutcome, Log.ofLevel_eq_nil level_of_mem_degradationMessages (by decide),
    Log.ofLevel_eq_nil level_of_mem_summaryMessages (by decide), Log.ofLevel_eq_self level_of_mem_fetchMessages]
  rfl

theorem ofLevel_failure (degradations : List Source.Degradation) (text : String) :
    ofLevel .error (degradationMessages degradations ++ [⟨.error, text⟩]) = [⟨.error, text⟩] ∧
    ofLevel .debug (degradationMessages degradations ++ [⟨.error, text⟩]) = [] := by
  rw [Log.ofLevel_append, Log.ofLevel_append, Log.ofLevel_eq_nil level_of_mem_degradationMessages (by decide),
    Log.ofLevel_eq_nil level_of_mem_degradationMessages (by decide)]
  exact ⟨rfl, rfl⟩

/-! ### The course of a program -/

/-- One message for each of the instructions, in the same order. It shows the place of the instruction, filled up to
four characters. -/
def Traces (program : Program) (fetched : List Nat) (messages : List Message) : Prop :=
  List.Forall₂ (fun pc message => ∃ i, program[pc]? = some i ∧
    message = ⟨.debug, "[" ++ (String.ofList (List.replicate (4 - (Nat.repr pc).length) ' ') ++ Nat.repr pc) ++ "] " ++
      i.describe⟩) fetched messages

theorem traces_fetchMessages {program : Program} {fetched : List Nat} (h : ∀ pc ∈ fetched, pc < program.size) :
    Traces program fetched (fetchMessages program fetched) := by
  induction fetched with
  | nil => exact .nil
  | cons pc rest ih =>
      obtain ⟨i, hfetch⟩ : ∃ i, program[pc]? = some i := ⟨_, Array.getElem?_eq_getElem (h pc List.mem_cons_self)⟩
      rw [fetchMessages, List.filterMap_cons, hfetch]
      refine .cons ⟨i, hfetch, ?_⟩ (ih fun pc hpc => h pc (List.mem_cons_of_mem _ hpc))
      rw [fetchMessage, Diagnostic.padLeft_eq]

/-- The wording of an error that ends a run. -/
inductive Worded : Error → String → Prop where
  | division (instruction : String) :
      Worded (.divisionByZero instruction) ("arithmetic fault: division by zero in `" ++ instruction ++ "`")
  | target (label : String) : Worded (.unresolvedTarget label) ("unresolved branch target: " ++ label)

theorem worded_of_fault {labels : LabelTable} {program : Program} {c : Configuration} {error : Error}
    (h : Fault labels program c error) : Worded error error.message := by
  obtain ⟨instruction, rfl⟩ | ⟨label, rfl⟩ := h.error_cases
  · exact .division instruction
  · exact .target label

/-- What becomes of a program file whose program ends: the exit code, the error messages, and the messages of the
instructions that were fetched. -/
inductive Course (path : String) (read : FileReader) :
    (exitCode : Nat) → (errors traces : List Message) → Prop where
  | unreadable {cause : ReadError} (content : read path = .error cause) :
      Course path read 1 [⟨.error, "io error on " ++ path ++ ": " ++ cause.message⟩] []
  | clash {source label text shown : String} {line : Nat} (content : read path = .ok source)
      (result : Assembly.ofSource source = .error (.duplicateLabel label line))
      (place : (Text.lines source)[line - 1]? = some text) (excerpt : Diagnostic.ShownAs text shown) :
      Course path read 1 [⟨.error, String.join ([
        "error: line " ++ Nat.repr line ++ ": duplicate label: " ++ label,
        " --> " ++ path ++ ":" ++ Nat.repr line,
        "  |",
        String.ofList (List.replicate (4 - (Nat.repr line).length) ' ') ++ Nat.repr line ++ " | " ++ shown,
        "  |"].map (· ++ "\n"))⟩] []
  | halt {source : String} {assembly : Assembly} {fetched : Array Nat} {c : Configuration} {traces : List Message}
      (content : read path = .ok source) (result : Assembly.ofSource source = .ok assembly)
      (steps : Steps assembly.labels assembly.program { registers := ∅ } fetched c)
      (outside : assembly.program.size ≤ c.pc) (traced : Traces assembly.program fetched.toList traces) :
      Course path read 0 [] traces
  | fault {source text : String} {assembly : Assembly} {fetched : Array Nat} {c : Configuration} {error : Error}
      {i : Instruction} {traces : List Message}
      (content : read path = .ok source) (result : Assembly.ofSource source = .ok assembly)
      (steps : Steps assembly.labels assembly.program { registers := ∅ } fetched c)
      (fault : Fault assembly.labels assembly.program c error) (fetch : assembly.program[c.pc]? = some i)
      (worded : Worded error text) (traced : Traces assembly.program (fetched.toList ++ [c.pc]) traces) :
      Course path read 1
        [⟨.error, "fault at instruction " ++ Nat.repr c.pc ++ ": " ++ i.describe⟩, ⟨.error, text⟩] traces

/-- A run that has ended, as the log tells it. -/
theorem course_of_endsIn {path source : String} (content : read path = .ok source)
    (result : Assembly.ofSource source = .ok assembly) (hends : (Machine.ofAssembly assembly).EndsIn run)
    (settings : Settings) :
    Course path read (runOutcome settings assembly run).exitCode
      (ofLevel .error (runOutcome settings assembly run).messages)
      (ofLevel .debug (runOutcome settings assembly run).messages) := by
  rw [ofLevel_error_runOutcome, ofLevel_debug_runOutcome]
  obtain ⟨fetched, c, hsteps, hstops⟩ := Machine.endsIn_iff.mp hends
  have hlt := hsteps.fetched_lt
  cases hstops with
  | halt outside =>
      refine .halt content result hsteps outside ?_
      exact (List.append_nil _).symm ▸ traces_fetchMessages fun pc hpc => hlt pc (Array.mem_toList_iff.mp hpc)
  | @fault error fault =>
      obtain ⟨i, hfetch⟩ : ∃ i, assembly.program[c.pc]? = some i := ⟨_, Array.getElem?_eq_getElem fault.pc_lt⟩
      have hmessages : endMessages ((Machine.ofAssembly assembly).during c) (.error error) =
          [⟨.error, "fault at instruction " ++ Nat.repr c.pc ++ ": " ++ i.describe⟩, ⟨.error, error.message⟩] :=
        endMessages_of_fault hfetch fault.endsAssembly_eq_false
      have htraces : Traces assembly.program (fetched.toList ++ [c.pc])
          (fetchMessages assembly.program (fetched.push c.pc).toList) := by
        rw [Array.toList_push]
        refine traces_fetchMessages fun pc hpc => ?_
        rcases List.mem_append.mp hpc with hpc | hpc
        · exact hlt pc (Array.mem_toList_iff.mp hpc)
        · rw [List.mem_singleton.mp hpc]
          exact fault.pc_lt
      show Course path read 1 (ofLevel .error (endMessages ((Machine.ofAssembly assembly).during c) (.error error)))
        (fetchMessages assembly.program (fetched.push c.pc).toList ++
          ofLevel .debug (endMessages ((Machine.ofAssembly assembly).during c) (.error error)))
      rw [hmessages]
      exact .fault content result hsteps fault hfetch (worded_of_fault fault) ((List.append_nil _).symm ▸ htraces)

theorem runProgram?_of_unreadable {cause : ReadError} (h : read settings.programPath = .error cause) :
    ∃ report, (∀ limit, runProgram? settings read limit = some report) ∧
      Course settings.programPath read report.exitCode (ofLevel .error report.messages)
        (ofLevel .debug report.messages) := by
  have hload := Origin.load_file_of_error h
  have hresult : ((Origin.file settings.programPath).pass read).result =
      .error (.unreadable settings.programPath cause) := by
    rw [Origin.pass_of_load_error hload]
    rfl
  refine ⟨_, runProgram?_of_error hresult, ?_⟩
  have hmessages : assemblyMessages read (.file settings.programPath) ++
      errorMessages (.unreadable settings.programPath cause) =
        [⟨.error, "io error on " ++ settings.programPath ++ ": " ++ cause.message⟩] := by
    simp only [assemblyMessages, hload]
    rfl
  rw [Report.messages, Piece.messages_map_log, hmessages]
  exact .unreadable h

theorem runProgram?_of_clash {source : String} {error : Error} (h : read settings.programPath = .ok source)
    (hfails : Assembly.ofSource source = .error error) :
    ∃ report, (∀ limit, runProgram? settings read limit = some report) ∧
      Course settings.programPath read report.exitCode (ofLevel .error report.messages)
        (ofLevel .debug report.messages) := by
  have hload := Origin.load_file_of_ok h
  have hresult := (Origin.result_pass_file h).trans hfails
  obtain ⟨i, label, before, hfirst, -, rfl, hpass⟩ := Assembly.first_clash_of_ofSource_eq_error hfails
  obtain ⟨text, htext, -⟩ := Option.bind_eq_some_iff.mp hfirst.head?_words
  refine ⟨_, runProgram?_of_error hresult, ?_⟩
  have hmessages : assemblyMessages read (.file settings.programPath) ++
      errorMessages (.duplicateLabel label (i + 1)) = degradationMessages before.degradations ++
        [⟨.error, Diagnostic.render settings.programPath source (.duplicateLabel label (i + 1))⟩] := by
    simp only [assemblyMessages, hload, Origin.pass_of_load hload, hpass]
    exact List.append_nil _
  obtain ⟨herrors, htraces⟩ := ofLevel_failure before.degradations
    (Diagnostic.render settings.programPath source (.duplicateLabel label (i + 1)))
  rw [Report.messages, Piece.messages_map_log, hmessages, herrors, htraces,
    Diagnostic.render_of_line rfl htext, Error.error_message_duplicateLabel]
  exact .clash h hfails htext (Diagnostic.shownAs_dropReturns text)

/-- The command ends with a report when the program does, and its log tells the course of the program. -/
theorem exists_report (settings : Settings) (read : FileReader)
    (hends : ∀ source assembly, read settings.programPath = .ok source → Assembly.ofSource source = .ok assembly →
      ∃ run, (Machine.ofAssembly assembly).EndsIn run) :
    ∃ report, (∃ least, ∀ limit ≥ least, runProgram? settings read limit = some report) ∧
      Course settings.programPath read report.exitCode (ofLevel .error report.messages)
        (ofLevel .debug report.messages) := by
  cases hread : read settings.programPath with
  | error cause =>
      obtain ⟨report, hreport, hcourse⟩ := runProgram?_of_unreadable hread
      exact ⟨report, ⟨0, fun limit _ => hreport limit⟩, hcourse⟩
  | ok source =>
      cases hresult : Assembly.ofSource source with
      | error error =>
          obtain ⟨report, hreport, hcourse⟩ := runProgram?_of_clash hread hresult
          exact ⟨report, ⟨0, fun limit _ => hreport limit⟩, hcourse⟩
      | ok assembly =>
          obtain ⟨run, hrun⟩ := hends source assembly hread hresult
          obtain ⟨report, hreport, hseen⟩ :=
            runProgram?_of_endsIn ((Origin.result_pass_file hread).trans hresult) hrun
          have hexit : report.exitCode = (runOutcome settings assembly run).exitCode := congrArg Outcome.exitCode hseen
          have hmessages : report.messages = (runOutcome settings assembly run).messages :=
            congrArg Outcome.messages hseen
          refine ⟨report, hreport, ?_⟩
          rw [hexit, hmessages]
          exact course_of_endsIn hread hresult hrun settings

/-! ### What is shown of the log -/

/-- The line of a message: the name of its level in brackets, in the look of the level, and the text. -/
def shownLine (terminal : Terminal) : Message → String
  | ⟨.debug, text⟩ => terminal.put { colour := .cyan } ++ "[DEBUG]" ++ terminal.reset ++ " " ++ text ++ "\n"
  | ⟨.info, text⟩ => terminal.put { colour := .green } ++ "[INFO]" ++ terminal.reset ++ " " ++ text ++ "\n"
  | ⟨.warn, text⟩ =>
      terminal.put { colour := .yellow, bold := true } ++ "[WARN]" ++ terminal.reset ++ " " ++ text ++ "\n"
  | ⟨.error, text⟩ =>
      terminal.put { colour := .red, bold := true } ++ "[ERROR]" ++ terminal.reset ++ " " ++ text ++ "\n"

/-- The levels of the messages that are shown when this level is asked for. -/
def shownLevels : Level → List Level
  | .debug => [.debug, .info, .warn, .error]
  | .info => [.info, .warn, .error]
  | .warn => [.warn, .error]
  | .error => [.error]

theorem render_eq_shownLine (terminal : Terminal) (message : Message) :
    message.render terminal = shownLine terminal message := by
  obtain ⟨level, text⟩ := message
  cases level <;> rfl

theorem shows_eq_mem_shownLevels (level own : Level) :
    (Log.Filter.mk level).shows own = decide (own ∈ shownLevels level) := by
  cases level <;> cases own <;> rfl

theorem render_eq_join (terminal : Terminal) (level : Level) (log : List Message) :
    Log.render terminal ⟨level⟩ log =
      String.join ((log.filter (·.level ∈ shownLevels level)).map (shownLine terminal)) := by
  unfold Log.render
  simp only [shows_eq_mem_shownLevels, render_eq_shownLine]

/-- The invocation ends with this exit code and this output, given turns enough, and what it shows of this log on its
terminal are the lines of the messages whose level is to be shown. -/
def Ends (name : String) (env : String → Option String) (args : List String) (read : FileReader) (level : Level)
    (exitCode : Nat) (stdout : String) (log : List Message) : Prop :=
  ∃ report, (∃ least, ∀ limit ≥ least, report? name env args read limit = some report) ∧
    report.exitCode = exitCode ∧ report.stdout = stdout ∧
    ∀ terminal, report.stderr terminal =
      String.join ((log.filter (·.level ∈ shownLevels level)).map (shownLine terminal))

/-- Any report of such an invocation is the one with which it ends. -/
theorem Ends.of_report? {name : String} {env : String → Option String} {args : List String} {level : Level}
    {exitCode limit : Nat} {stdout : String} {log : List Message} {report : Report}
    (h : Ends name env args read level exitCode stdout log)
    (hreport : report? name env args read limit = some report) :
    report.exitCode = exitCode ∧ report.stdout = stdout ∧ ∀ terminal, report.stderr terminal =
      String.join ((log.filter (·.level ∈ shownLevels level)).map (shownLine terminal)) := by
  obtain ⟨last, ⟨least, hlast⟩, hseen⟩ := h
  have hlarger := report?_mono hreport (Nat.le_max_left limit least)
  rw [hlast _ (Nat.le_max_right limit least)] at hlarger
  obtain rfl := Option.some.inj hlarger
  exact hseen

/-- The level that is asked for is seen in the choice of messages alone. -/
theorem runProgram?_level (settings : Settings) (read : FileReader) (level : Level) (limit : Nat) :
    runProgram? { settings with level } read limit =
      (runProgram? settings read limit).map fun report => { report with filter := ⟨level⟩ } := by
  have hfirst : Stage.first { settings with level } read = Stage.first settings read := rfl
  rw [runProgram?, runProgram?, hfirst]
  dsimp only
  rw [Option.map_map]
  rfl

theorem ends_of_runProgram? {env : String → Option String} {args : List String} {level : Level} {report : Report}
    (h : Request.read env args = .ok (.run { settings with level })) (name : String)
    (hrun : ∃ least, ∀ limit ≥ least, runProgram? settings read limit = some report) :
    Ends name env args read level report.exitCode report.stdout report.messages := by
  obtain ⟨least, hrun⟩ := hrun
  refine ⟨{ report with filter := ⟨level⟩ }, ⟨least, fun limit hlimit => ?_⟩, rfl, rfl,
    fun terminal => render_eq_join terminal level report.messages⟩
  rw [report?, h]
  dsimp only
  rw [runProgram?_level, hrun limit hlimit]
  rfl

/-- Two invocations whose settings differ in the level alone, on a file whose program ends: they have one exit code, one
output and one log, of which each shows the messages of its own level and above. The log has no error message when
the program halts, one when it is not assembled, and two when it faults; it has one debug message for each instruction
that was fetched, also for the one that failed, in the order of their execution. -/
theorem level_only_filters_log {env env' : String → Option String} {args args' : List String}
    {settings settings' : Settings} (h : Request.read env args = .ok (.run settings))
    (h' : Request.read env' args' = .ok (.run settings'))
    (hsame : settings' = { settings with level := settings'.level }) (name name' : String) (read : FileReader)
    (hends : ∀ source assembly, read settings.programPath = .ok source → Assembly.ofSource source = .ok assembly →
      ∃ run, (Machine.ofAssembly assembly).EndsIn run) :
    ∃ exitCode stdout log,
      Ends name env args read settings.level exitCode stdout log ∧
      Ends name' env' args' read settings'.level exitCode stdout log ∧
      Course settings.programPath read exitCode (ofLevel .error log) (ofLevel .debug log) := by
  obtain ⟨report, hreport, hcourse⟩ := exists_report settings read hends
  rw [hsame] at h'
  exact ⟨report.exitCode, report.stdout, report.messages, ends_of_runProgram? h name hreport,
    ends_of_runProgram? h' name' hreport, hcourse⟩

/-- A program that divides by zero, traced and then with errors shown alone, on a terminal without looks: both
invocations fail with the same output, and the second one shows the two messages of the fault, which are the last two
of the first. -/
theorem level_only_filters_log_at_fault : ∃ traced sparse log,
    report? "sml" (fun _ => none) ["p", "-t"] (fun _ => .ok "lin 1 1\nf div 1 1 2") 2 = some traced ∧
    report? "sml" (fun name => if name = "SML_LOG" then some "error" else none) ["p"]
      (fun _ => .ok "lin 1 1\nf div 1 1 2") 2 = some sparse ∧
    traced.exitCode = 1 ∧ sparse.exitCode = 1 ∧ traced.stdout = sparse.stdout ∧
    traced.stderr ⟨fun _ => "", ""⟩ = "[DEBUG] [   0] lin register 1 value is 1\n" ++
      "[DEBUG] [   1] f: div 1 / 2 output to register 1\n" ++
      "[ERROR] fault at instruction 1: f: div 1 / 2 output to register 1\n" ++
      "[ERROR] arithmetic fault: division by zero in `f: div 1 / 2 output to register 1`\n" ∧
    sparse.stderr ⟨fun _ => "", ""⟩ =
      "[ERROR] fault at instruction 1: f: div 1 / 2 output to register 1\n" ++
      "[ERROR] arithmetic fault: division by zero in `f: div 1 / 2 output to register 1`\n" ∧
    (∀ terminal, sparse.stderr terminal = String.join ((ofLevel .error log).map (shownLine terminal))) ∧
    (ofLevel .error log).length = 2 := by
  have hpass : (Assembly.pass "lin 1 1\nf div 1 1 2").error? = none ∧
      ((Machine.ofAssembly (Assembly.pass "lin 1 1\nf div 1 1 2").assembly).run? 2).map Run.error? =
        some (some (.divisionByZero "f: div 1 / 2 output to register 1")) := by decide +kernel
  obtain ⟨herror, hended⟩ := hpass
  have hassembly := Assembly.ofSource_of_pass _ herror
  obtain ⟨run, hrun, hfault⟩ := Option.map_eq_some_iff.mp hended
  have htraced : Request.read (fun _ => none) ["p", "-t"] =
      .ok (.run { source := "p", directory? := none, quiet := false, level := .debug }) := by decide +kernel
  have hsparse : Request.read (fun name => if name = "SML_LOG" then some "error" else none) ["p"] =
      .ok (.run { source := "p", directory? := none, quiet := false, level := .error }) := by decide +kernel
  obtain ⟨exitCode, stdout, log, hfirst, hsecond, hcourse⟩ :=
    level_only_filters_log htraced hsparse rfl "sml" "sml" (fun _ => .ok "lin 1 1\nf div 1 1 2") (by
      rintro source assembly ⟨⟩ hresult
      rw [hassembly] at hresult
      cases hresult
      exact ⟨run, 2, hrun⟩)
  have htexts : (report? "sml" (fun _ => none) ["p", "-t"] (fun _ => .ok "lin 1 1\nf div 1 1 2") 2).map
        (·.stderr ⟨fun _ => "", ""⟩) = some ("[DEBUG] [   0] lin register 1 value is 1\n" ++
          "[DEBUG] [   1] f: div 1 / 2 output to register 1\n" ++
          "[ERROR] fault at instruction 1: f: div 1 / 2 output to register 1\n" ++
          "[ERROR] arithmetic fault: division by zero in `f: div 1 / 2 output to register 1`\n") ∧
      (report? "sml" (fun name => if name = "SML_LOG" then some "error" else none) ["p"]
        (fun _ => .ok "lin 1 1\nf div 1 1 2") 2).map (·.stderr ⟨fun _ => "", ""⟩) =
          some ("[ERROR] fault at instruction 1: f: div 1 / 2 output to register 1\n" ++
            "[ERROR] arithmetic fault: division by zero in `f: div 1 / 2 output to register 1`\n") := by
    decide +kernel
  obtain ⟨traced, hreport, htext⟩ := Option.map_eq_some_iff.mp htexts.1
  obtain ⟨sparse, hreport', htext'⟩ := Option.map_eq_some_iff.mp htexts.2
  obtain ⟨hexit, hstdout, -⟩ := hfirst.of_report? hreport
  obtain ⟨hexit', hstdout', hshown⟩ := hsecond.of_report? hreport'
  have herrors : log.filter (·.level ∈ shownLevels .error) = ofLevel .error log := by
    simp only [shownLevels, List.mem_singleton, ofLevel]
  rw [herrors] at hshown
  have hboth : exitCode = 1 ∧ (ofLevel .error log).length = 2 := by
    generalize ofLevel .error log = errors, ofLevel .debug log = traces at hcourse
    cases hcourse with
    | unreadable content => cases content
    | clash content result =>
        cases content
        rw [hassembly] at result
        cases result
    | halt content result steps outside =>
        cases content
        rw [hassembly] at result
        cases result
        have hhalts := Machine.EndsIn.unique ⟨2, hrun⟩ (Machine.endsIn_iff.mpr ⟨_, _, steps, .halt outside⟩)
        rw [hhalts] at hfault
        cases hfault
    | fault => exact ⟨rfl, rfl⟩
  exact ⟨traced, sparse, log, hreport, hreport', hexit.trans hboth.1, hexit'.trans hboth.1,
    hstdout.trans hstdout'.symm, htext, htext', hshown, hboth.2⟩

/-! ### The count of degradations -/

/-- The warning that closes the translation of a file, with this number in it. -/
def summaryMessage (path : String) (count : Nat) : Message :=
  ⟨.warn, Nat.repr count ++ " line(s) of " ++ path ++ " were degraded during translation"⟩

theorem summaryMessage_inj {path : String} {count other : Nat}
    (h : summaryMessage path count = summaryMessage path other) : count = other := by
  have hrepr : Nat.repr count = Nat.repr other := by
    simpa only [summaryMessage, Message.mk.injEq, true_and, String.append_left_inj] using h
  have hdigits : Nat.toDigits 10 count = Nat.toDigits 10 other := by
    rw [← Nat.toList_repr, ← Nat.toList_repr, hrepr]
  calc count
    _ = Nat.ofDigitChars 10 (Nat.toDigits 10 count) 0 := Nat.ofDigitChars_ten_toDigits.symm
    _ = Nat.ofDigitChars 10 (Nat.toDigits 10 other) 0 := by rw [hdigits]
    _ = other := Nat.ofDigitChars_ten_toDigits

/-- The warning opens with a digit, and the message of a degradation with a letter. -/
theorem summaryMessage_not_mem_degradationMessages (path : String) (count : Nat)
    (degradations : List Source.Degradation) : summaryMessage path count ∉ degradationMessages degradations := by
  intro hmem
  obtain ⟨degradation, -, hmessage⟩ := List.mem_map.mp hmem
  have hheads := congrArg (fun message => message.text.toList.head?) hmessage
  simp only [summaryMessage, degradation.head?_message, String.toList_append, Nat.toList_repr] at hheads
  cases hdigits : Nat.toDigits 10 count with
  | nil => exact Nat.toDigits_ne_nil hdigits
  | cons digit digits =>
      have hdigit : digit.isDigit = true :=
        Nat.isDigit_of_mem_toDigits (by decide) (by decide) (hdigits ▸ List.mem_cons_self)
      rw [hdigits] at hheads
      rw [← Option.some.inj hheads] at hdigit
      exact absurd hdigit (by decide)

theorem summaryMessages_eq (path : String) (degradations : List Source.Degradation) :
    summaryMessages path degradations =
      if degradations = [] then [] else [summaryMessage path degradations.length] := rfl

theorem ofLevel_warn_endMessages (m : Machine) (result : Except Error Nat) :
    ofLevel .warn (endMessages m result) = [] := by
  cases result with
  | ok steps => rfl
  | error error =>
      rw [endMessages, Log.ofLevel_append, Log.ofLevel_eq_nil level_of_mem_errorMessages (by decide)]
      cases m.program[m.pc]? <;> rfl

theorem ofLevel_warn_runOutcome (settings : Settings) (assembly : Assembly) (run : Run) :
    ofLevel .warn (runOutcome settings assembly run).messages =
      degradationMessages assembly.degradations ++ summaryMessages settings.programPath assembly.degradations := by
  rw [ofLevel_runOutcome, ofLevel_warn_endMessages, Log.ofLevel_eq_self level_of_mem_degradationMessages,
    Log.ofLevel_eq_self level_of_mem_summaryMessages,
    Log.ofLevel_eq_nil level_of_mem_fetchMessages (by decide), List.append_nil, List.append_nil]

theorem summaryMessage_mem_runOutcome {count : Nat} :
    summaryMessage settings.programPath count ∈ (runOutcome settings assembly run).messages ↔
      assembly.degradations ≠ [] ∧ count = assembly.degradations.length := by
  have hwarn : summaryMessage settings.programPath count ∈ (runOutcome settings assembly run).messages ↔
      summaryMessage settings.programPath count ∈ ofLevel .warn (runOutcome settings assembly run).messages :=
    ⟨fun hmem => Log.mem_ofLevel.mpr ⟨hmem, rfl⟩, fun hmem => (Log.mem_ofLevel.mp hmem).1⟩
  rw [hwarn, ofLevel_warn_runOutcome, List.mem_append, summaryMessages_eq,
    or_iff_right (summaryMessage_not_mem_degradationMessages _ _ _)]
  by_cases hnone : assembly.degradations = []
  · rw [if_pos hnone]
    exact ⟨fun hmem => absurd hmem List.not_mem_nil, fun hcount => absurd hnone hcount.1⟩
  · rw [if_neg hnone, List.mem_singleton]
    exact ⟨fun hsame => ⟨hnone, summaryMessage_inj hsame⟩, fun ⟨_, hcount⟩ => hcount ▸ rfl⟩

/-- The command is asked to run a file that is assembled. Its report warns of degraded lines exactly when there are some;
the number in the warning is that of the degradations. This is the number of degraded lines exactly when none of them
has two degradations, and more than that otherwise. -/
theorem summary_counts_degradations {env : String → Option String} {args : List String} {source : String}
    {limit : Nat} {report : Report} (h : Request.read env args = .ok (.run settings)) (name : String)
    (read : FileReader) (hread : read settings.programPath = .ok source)
    (hresult : Assembly.ofSource source = .ok assembly)
    (hreport : report? name env args read limit = some report) :
    (∀ count, summaryMessage settings.programPath count ∈ report.messages ↔
      assembly.degradedLines ≠ [] ∧ count = assembly.degradations.length) ∧
    assembly.degradedLines.length ≤ assembly.degradations.length ∧
    (assembly.degradedLines.length = assembly.degradations.length ↔
      ∀ line, (assembly.degradationsOf line).length ≤ 1) := by
  refine ⟨fun count => ?_, assembly.length_degradedLines_le, assembly.length_degradedLines_eq_iff⟩
  have hpass := (Origin.result_pass_file hread).trans hresult
  rw [report?, h] at hreport
  dsimp only at hreport
  have houtcome := outcome_runProgram?_of_ok hpass limit
  rw [hreport] at houtcome
  obtain ⟨run, -, hseen⟩ := Option.map_eq_some_iff.mp houtcome.symm
  have hmessages : report.messages = (runOutcome settings assembly run).messages :=
    (congrArg Outcome.messages hseen).symm
  rw [hmessages, summaryMessage_mem_runOutcome, ne_eq, ne_eq, assembly.degradedLines_eq_nil_iff]

/-- Three lines, of which the first lacks all its numbers, the second has a word in the place of one, and the third is
dropped: five degradations are counted. -/
theorem summary_counts_degradations_of_three_lines : ∃ assembly report,
    Assembly.ofSource "f0 add\nf1 out x\nf2 mov 1 2" = .ok assembly ∧ assembly.degradedLines = [1, 2, 3] ∧
    report? "sml" (fun _ => none) ["p.sml"] (fun _ => .ok "f0 add\nf1 out x\nf2 mov 1 2") 3 = some report ∧
    ∀ count, summaryMessage "p.sml" count ∈ report.messages ↔ count = 5 := by
  have hpass : (Assembly.pass "f0 add\nf1 out x\nf2 mov 1 2").error? = none ∧
      (Assembly.pass "f0 add\nf1 out x\nf2 mov 1 2").assembly.degradedLines = [1, 2, 3] ∧
      (Assembly.pass "f0 add\nf1 out x\nf2 mov 1 2").assembly.degradations.length = 5 ∧
      (report? "sml" (fun _ => none) ["p.sml"] (fun _ => .ok "f0 add\nf1 out x\nf2 mov 1 2") 3).isSome := by
    decide +kernel
  obtain ⟨herror, hlines, hlength, hended⟩ := hpass
  obtain ⟨report, hreport⟩ := Option.isSome_iff_exists.mp hended
  have hassembly := Assembly.ofSource_of_pass _ herror
  have hrequest : Request.read (fun _ => none) ["p.sml"] =
      .ok (.run { source := "p.sml", directory? := none, quiet := false, level := .info }) := by decide +kernel
  obtain ⟨hsummary, -, -⟩ := summary_counts_degradations hrequest "sml"
    (fun _ => .ok "f0 add\nf1 out x\nf2 mov 1 2") rfl hassembly hreport
  refine ⟨_, report, hassembly, hlines, hreport, fun count => (hsummary count).trans ?_⟩
  rw [hlines, hlength]
  exact and_iff_right (List.cons_ne_nil _ _)

/-- One line that lacks all its numbers is counted as three. -/
theorem summary_overcounts_line : ∃ assembly report,
    Assembly.ofSource "f0 add\n" = .ok assembly ∧ assembly.degradedLines = [1] ∧
    report? "sml" (fun _ => none) ["-q", "p.sml"] (fun _ => .ok "f0 add\n") 2 = some report ∧
    summaryMessage "p.sml" 3 ∈ report.messages ∧ summaryMessage "p.sml" 1 ∉ report.messages := by
  have hpass : (Assembly.pass "f0 add\n").error? = none ∧ (Assembly.pass "f0 add\n").assembly.degradedLines = [1] ∧
      ∃ report ∈ report? "sml" (fun _ => none) ["-q", "p.sml"] (fun _ => .ok "f0 add\n") 2,
        summaryMessage "p.sml" 3 ∈ report.messages ∧ summaryMessage "p.sml" 1 ∉ report.messages := by decide +kernel
  obtain ⟨herror, hlines, report, hreport, hthree, hone⟩ := hpass
  exact ⟨_, report, Assembly.ofSource_of_pass _ herror, hlines, hreport, hthree, hone⟩

end Command

end RegAsm
