import RegAsm.Proofs.Pass
import RegAsm.Proofs.Stages
import RegAsm.Proofs.StepRelation

/-! What the command prints and returns when it is asked to run a program. A program that is not assembled prints
nothing and fails. Otherwise the emitted values are printed, one to a line, also those in front of a fault; unless
the command is to be quiet, the program stands above them and the registers below. A quiet flag changes nothing
else, wherever it stands on the command line. -/

namespace RegAsm.Command

open Log (Terminal)

/-! ### The quiet flag -/

/-- The same request, to be carried out quietly. -/
def Request.quieted : Request → Request
  | .run settings => .run { settings with quiet := true }
  | .help => .help

/-- A unit settles the request, in a way that has nothing to do with quiet runs, or goes into the draft. -/
theorem Draft.read_cons_cases (draft : Draft) (unit : Argument) :
    (∃ answer : Except Rejection Request, answer.map Request.quieted = answer ∧ ∀ rest,
      Draft.read draft (unit :: rest) = answer ∧
      Draft.read { draft with quiet := true } (unit :: rest) = answer) ∨
    ∃ draft', ∀ rest, Draft.read draft (unit :: rest) = Draft.read draft' rest ∧
      Draft.read { draft with quiet := true } (unit :: rest) =
        Draft.read { draft' with quiet := true } rest := by
  cases unit with
  | help => exact Or.inl ⟨.ok .help, rfl, fun rest => ⟨rfl, rfl⟩⟩
  | lackingDirectory flag => exact Or.inl ⟨.error (.lackingArgument flag), rfl, fun rest => ⟨rfl, rfl⟩⟩
  | unknown flag => exact Or.inl ⟨.error (.unexpectedArgument flag), rfl, fun rest => ⟨rfl, rfl⟩⟩
  | directory path => exact Or.inr ⟨{ draft with directory? := some path }, fun rest => ⟨rfl, rfl⟩⟩
  | trace => exact Or.inr ⟨{ draft with level := .debug }, fun rest => ⟨rfl, rfl⟩⟩
  | quiet => exact Or.inr ⟨{ draft with quiet := true }, fun rest => ⟨rfl, rfl⟩⟩
  | path path =>
      obtain ⟨source?, directory?, quiet, level⟩ := draft
      cases source? with
      | some source => exact Or.inl ⟨.error (.unexpectedArgument path), rfl, fun rest => ⟨rfl, rfl⟩⟩
      | none => exact Or.inr ⟨{ source? := some path, directory?, quiet, level }, fun rest => ⟨rfl, rfl⟩⟩

theorem Draft.read_quiet (draft : Draft) (units : List Argument) :
    Draft.read { draft with quiet := true } units = (Draft.read draft units).map Request.quieted := by
  induction units generalizing draft with
  | nil =>
      obtain ⟨source?, directory?, quiet, level⟩ := draft
      cases source? <;> rfl
  | cons unit rest ih =>
      rcases draft.read_cons_cases unit with ⟨answer, hsame, hanswer⟩ | ⟨draft', hnext⟩
      · rw [(hanswer rest).1, (hanswer rest).2, hsame]
      · rw [(hnext rest).1, (hnext rest).2]
        exact ih draft'

theorem Draft.read_append_quiet (draft : Draft) (units rest : List Argument) :
    Draft.read draft (units ++ .quiet :: rest) =
      (Draft.read draft (units ++ rest)).map Request.quieted := by
  induction units generalizing draft with
  | nil => exact draft.read_quiet rest
  | cons unit units ih =>
      rw [List.cons_append, List.cons_append]
      rcases draft.read_cons_cases unit with ⟨answer, hsame, hanswer⟩ | ⟨draft', hnext⟩
      · rw [(hanswer _).1, (hanswer _).1, hsame]
      · rw [(hnext _).1, (hnext _).1]
        exact ih draft'

/-- Arguments are split apart from those in front of them, unless these end in a directory flag. -/
theorem Argument.split_append {before : List String}
    (h : ∀ flag, .lackingDirectory flag ∉ Argument.split before) (after : List String) :
    Argument.split (before ++ after) = Argument.split before ++ Argument.split after := by
  fun_induction Argument.split before with
  | case1 => rfl
  | case3 arg _ hdirectory => exact absurd List.mem_cons_self (h arg)
  | case4 arg hhelp hdirectory next rest ih =>
      rw [List.cons_append, List.cons_append, Argument.split, if_neg hhelp, if_pos hdirectory]
      simp_all
  | _ =>
      -- A single argument makes one unit, whatever stands behind it.
      rw [List.cons_append, Argument.split.eq_def]
      simp_all

theorem Argument.split_quiet {flag : String} (h : flag = "-q" ∨ flag = "--quiet") (after : List String) :
    Argument.split (flag :: after) = .quiet :: Argument.split after := by
  rw [Argument.split.eq_def]
  rcases h with rfl | rfl <;> rfl

theorem Request.read_insert_quiet (env : String → Option String) {before : List String}
    (h : ∀ flag, .lackingDirectory flag ∉ Argument.split before) {flag : String}
    (hflag : flag = "-q" ∨ flag = "--quiet") (after : List String) :
    Request.read env (before ++ flag :: after) =
      (Request.read env (before ++ after)).map Request.quieted := by
  unfold Request.read
  cases defaultLevel env with
  | error cause => rfl
  | ok level =>
      dsimp only
      rw [Argument.split_append h, Argument.split_append h, Argument.split_quiet hflag]
      exact Draft.read_append_quiet _ _ _

/-! ### Reports -/

variable {settings : Settings} {read : FileReader} {assembly : Assembly} {run : Run}

/-- The command ends with the report on the run, given turns enough. -/
theorem runProgram?_of_endsIn (h : ((Origin.file settings.programPath).pass read).result = .ok assembly)
    (hends : (Machine.ofAssembly assembly).EndsIn run) :
    ∃ report, (∃ least, ∀ limit ≥ least, runProgram? settings read limit = some report) ∧
      report.outcome = runOutcome settings assembly run := by
  obtain ⟨least, hrun⟩ := hends
  have houtcome := outcome_runProgram?_of_ok h least
  rw [hrun] at houtcome
  obtain ⟨report, hreport, hseen⟩ := Option.map_eq_some_iff.mp houtcome
  exact ⟨report, ⟨least, fun limit hlimit => runProgram?_mono hreport hlimit⟩, hseen⟩

/-- All that is seen of a quiet run apart from what it prints. -/
theorem runProgram?_quieted (settings : Settings) (read : FileReader) (limit : Nat) (terminal : Terminal) :
    (runProgram? { settings with quiet := true } read limit).map
        (fun report => (report.exitCode, report.stderr terminal)) =
      (runProgram? settings read limit).map fun report => (report.exitCode, report.stderr terminal) := by
  have hpath : Settings.programPath { settings with quiet := true } = settings.programPath := rfl
  cases hresult : ((Origin.file settings.programPath).pass read).result with
  | error error => rw [runProgram?_of_error hresult, runProgram?_of_error (hpath ▸ hresult), hpath]
  | ok assembly =>
      have hseen : ∀ settings : Settings, ((Origin.file settings.programPath).pass read).result = .ok assembly →
          (runProgram? settings read limit).map (fun report => (report.exitCode, report.stderr terminal)) =
            (((Machine.ofAssembly assembly).run? limit).map (runOutcome settings assembly)).map fun outcome =>
              (outcome.exitCode, Log.render terminal outcome.filter outcome.messages) := by
        intro settings hresult
        rw [← outcome_runProgram?_of_ok hresult, Option.map_map]
        rfl
      rw [hseen _ hresult, hseen _ (hpath ▸ hresult), Option.map_map, Option.map_map]
      rfl

theorem opening_eq (assembly : Assembly) : opening assembly =
    "Here is the program; it has " ++ Nat.repr assembly.program.size ++ " instructions.\n" ++
      String.join (assembly.program.toList.map fun i => i.describe ++ "\n") ++
      "Labels: " ++ ("(" ++ ", ".intercalate assembly.labels.names ++ ")") ++ "\n\n" ++
      "Beginning program execution.\n" := by
  have hlisting : String.join (assembly.program.toList.map fun i => i.describe ++ "\n") = assembly.program.listing := by
    rw [Program.listing, Program.describe, List.map_map]
    rfl
  rw [hlisting]
  rfl

theorem closing_eq (registers : Registers) : closing registers =
    "Ending program execution.\n" ++ "Values of registers at program termination:\n" ++
      ("Registers:" ++ String.join (registers.entries.map fun e =>
        " r" ++ Text.Decimal.writeUInt32 e.1 ++ "=" ++ Text.Decimal.writeInt32 e.2)) ++ "\n" :=
  rfl

/-- A command line that asks for a run. If the program file is not assembled, the command fails and prints nothing.
If the program ends, the command succeeds or fails as the run does, and prints the emitted values, between the
program with its labels and the final registers unless it is quiet. A quiet flag anywhere but right behind a
directory flag makes the command quiet and changes neither the exit code nor the log. -/
theorem report_of_run_request {env : String → Option String} {args : List String} {settings : Settings}
    (h : Request.read env args = .ok (.run settings)) (name : String) (read : FileReader) :
    (∀ error, ((Origin.file settings.programPath).pass read).result = .error error →
      ∃ report, (∀ limit, report? name env args read limit = some report) ∧
        report.exitCode = 1 ∧ report.stdout = "") ∧
    (∀ assembly run, ((Origin.file settings.programPath).pass read).result = .ok assembly →
      (Machine.ofAssembly assembly).EndsIn run →
      ∃ report, (∃ least, ∀ limit ≥ least, report? name env args read limit = some report) ∧
        (∀ steps, run.result = .ok steps → report.exitCode = 0) ∧
        (∀ error, run.result = .error error → report.exitCode = 1) ∧
        report.stdout =
          if settings.quiet then printed run.machine.output
          else
            "Here is the program; it has " ++ Nat.repr assembly.program.size ++ " instructions.\n" ++
              String.join (assembly.program.toList.map fun i => i.describe ++ "\n") ++
              "Labels: " ++ ("(" ++ ", ".intercalate assembly.labels.names ++ ")") ++ "\n\n" ++
              "Beginning program execution.\n" ++
            printed run.machine.output ++
            ("Ending program execution.\n" ++ "Values of registers at program termination:\n" ++
              ("Registers:" ++ String.join (run.machine.registers.entries.map fun e =>
                " r" ++ Text.Decimal.writeUInt32 e.1 ++ "=" ++ Text.Decimal.writeInt32 e.2)) ++ "\n")) ∧
    ∀ before after flag, args = before ++ after →
      (∀ lacking, .lackingDirectory lacking ∉ Argument.split before) → flag = "-q" ∨ flag = "--quiet" →
      Request.read env (before ++ flag :: after) = .ok (.run { settings with quiet := true }) ∧
      ∀ limit terminal,
        (report? name env (before ++ flag :: after) read limit).map
            (fun report => (report.exitCode, report.stderr terminal)) =
          (report? name env args read limit).map fun report => (report.exitCode, report.stderr terminal) := by
  have hrequest : ∀ limit, report? name env args read limit = runProgram? settings read limit := by
    intro limit
    rw [report?, h]
  refine ⟨?_, ?_, ?_⟩
  · intro error herror
    exact ⟨_, fun limit => (hrequest limit).trans (runProgram?_of_error herror limit), rfl, Piece.stdout_map_log _⟩
  · intro assembly run hassembly hends
    obtain ⟨report, ⟨least, hreport⟩, hseen⟩ := runProgram?_of_endsIn hassembly hends
    have hexit : report.exitCode = exitCode run.result := congrArg Outcome.exitCode hseen
    have hstdout : report.stdout = (runOutcome settings assembly run).stdout := congrArg Outcome.stdout hseen
    refine ⟨report, ⟨least, fun limit hlimit => ?_⟩, ?_, ?_, ?_⟩
    · rw [hrequest, hreport limit hlimit]
    · intro steps hresult
      rw [hexit, hresult, exitCode]
    · intro error hresult
      rw [hexit, hresult, exitCode]
    · rw [hstdout, runOutcome, printedEnd]
      by_cases hquiet : settings.quiet = true
      · rw [if_pos hquiet, if_pos hquiet, if_pos hquiet, String.empty_append, String.append_empty]
      · rw [if_neg hquiet, if_neg hquiet, if_neg hquiet, opening_eq, closing_eq]
  · rintro before after flag rfl hbefore hflag
    have hquieted : Request.read env (before ++ flag :: after) =
        .ok (.run { settings with quiet := true }) := by
      rw [Request.read_insert_quiet env hbefore hflag, h]
      rfl
    refine ⟨hquieted, fun limit terminal => ?_⟩
    rw [hrequest, report?, hquieted]
    exact runProgram?_quieted settings read limit terminal

/-- A program with two labels that emits a value and then divides by zero: the value and the registers are printed all
the same. With a quiet flag behind the directory only the value is left. -/
theorem report_of_run_request_at_fault : ∃ report quiet limit,
    report? "sml" (fun _ => none) ["-d", "lib", "p"] (fun _ => .ok "a lin 1 5\nb\nout 1\ndiv 2 1 3") limit =
      some report ∧
    report? "sml" (fun _ => none) ["-d", "lib", "-q", "p"] (fun _ => .ok "a lin 1 5\nb\nout 1\ndiv 2 1 3") limit =
      some quiet ∧
    report.exitCode = 1 ∧ quiet.exitCode = 1 ∧ quiet.stdout = "5\n" ∧
    report.stdout = "Here is the program; it has 3 instructions.\na: lin register 1 value is 5\nout register 1\n" ++
      "div 1 / 3 output to register 2\nLabels: (a, b)\n\nBeginning program execution.\n5\n" ++
      "Ending program execution.\nValues of registers at program termination:\nRegisters: r1=5\n" := by
  have hpass : (Assembly.pass "a lin 1 5\nb\nout 1\ndiv 2 1 3").error? = none ∧
      ((Machine.ofAssembly (Assembly.pass "a lin 1 5\nb\nout 1\ndiv 2 1 3").assembly).run? 3).map
        (fun run => (run.error?, run.machine.output, run.machine.registers.entries)) =
      some (some (.divisionByZero "div 1 / 3 output to register 2"), #[5], [(1, 5)]) := by decide +kernel
  obtain ⟨herror, hended⟩ := hpass
  have hread : (fun _ => .ok "a lin 1 5\nb\nout 1\ndiv 2 1 3" : FileReader) "lib/p" =
      .ok "a lin 1 5\nb\nout 1\ndiv 2 1 3" := rfl
  have hassembly := (Origin.result_pass_file hread).trans (Assembly.ofSource_of_pass _ herror)
  obtain ⟨run, hrun, hparts⟩ := Option.map_eq_some_iff.mp hended
  simp only [Prod.mk.injEq] at hparts
  obtain ⟨hfault, houtput, hentries⟩ := hparts
  have hresult := Run.result_eq_error_iff.mpr hfault
  have hrequest : Request.read (fun _ => none) ["-d", "lib", "p"] =
      .ok (.run { source := "p", directory? := some "lib", quiet := false, level := .info }) := rfl
  obtain ⟨-, hreport, hquiet⟩ :=
    report_of_run_request hrequest "sml" fun _ => .ok "a lin 1 5\nb\nout 1\ndiv 2 1 3"
  have hsplit : Argument.split ["-d", "lib"] = [.directory "lib"] := rfl
  obtain ⟨hquieted, -⟩ := hquiet ["-d", "lib"] ["p"] "-q" rfl (by simp [hsplit]) (Or.inl rfl)
  obtain ⟨report, ⟨least, hloud⟩, -, hexit, hstdout⟩ := hreport _ run hassembly ⟨3, hrun⟩
  obtain ⟨quiet, ⟨least', hsilent⟩, -, hexit', hstdout'⟩ :=
    (report_of_run_request hquieted "sml" fun _ => .ok "a lin 1 5\nb\nout 1\ndiv 2 1 3").2.1 _ run hassembly
      ⟨3, hrun⟩
  refine ⟨report, quiet, max least least', hloud _ (Nat.le_max_left _ _), hsilent _ (Nat.le_max_right _ _),
    hexit _ hresult, hexit' _ hresult, ?_, ?_⟩
  · rw [hstdout', if_pos rfl, houtput]
    decide +kernel
  · rw [hstdout, houtput, hentries]
    decide +kernel

end RegAsm.Command
