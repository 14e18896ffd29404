import RegAsm.Command.Stage

/-! The stages of an invocation against the run of a machine. The command prints each value when it is emitted and
keeps none, while the machine of a run keeps them all; as nothing reads the values, both take the same turns. So the
report of the command can be read off the run of the assembled program. -/

namespace RegAsm

namespace Machine

/-- The machine with these values emitted before its own. -/
def behind (m : Machine) (before : Array Int32) : Machine := { m with output := before ++ m.output }

def Turn.behind (before : Array Int32) : Turn → Turn
  | .halt => .halt
  | .fault error => .fault error
  | .next m => .next (m.behind before)

variable (m : Machine) (before : Array Int32)

theorem emit_behind (value : Int32) : (m.behind before).emit value = (m.emit value).behind before := by
  unfold behind emit
  rw [Array.append_push]

theorem execute_behind (i : Instruction) :
    (m.behind before).execute i = (m.execute i).map fun m' => m'.behind before := by
  obtain ⟨label?, operation⟩ := i
  cases operation with
  | add | sub | mul | lin => rfl
  | div result op1 op2 =>
      have hread : (m.behind before).read op2 = m.read op2 := rfl
      simp only [execute, hread]
      split <;> rfl
  | out register => exact congrArg Except.ok (m.emit_behind before _)
  | bnz register target =>
      have hread : (m.behind before).read register = m.read register := rfl
      have hlabels : (m.behind before).labels = m.labels := rfl
      simp only [execute, branch, hread, hlabels]
      split
      · rfl
      · cases m.labels.indexOf? target <;> rfl

/-- A turn does not depend on what was emitted before it. -/
theorem turn_behind : (m.behind before).turn = m.turn.behind before := by
  have hfetch : (m.behind before).program[(m.behind before).pc]? = m.program[m.pc]? := rfl
  rw [turn, turn, hfetch]
  cases m.program[m.pc]? with
  | none => rfl
  | some i =>
      dsimp only
      rw [execute_behind]
      cases m.execute i <;> rfl

variable {m}

theorem turn_eq_halt_iff : m.turn = .halt ↔ m.program[m.pc]? = none := by
  rw [turn]
  cases m.program[m.pc]? with
  | none => simp
  | some i => cases hexecute : m.execute i <;> simp [hexecute]

theorem program_of_turn {m' : Machine} (h : m.turn = .next m') : m'.program = m.program := by
  rw [turn] at h
  split at h
  · cases h
  · next i hfetch =>
      cases hexecute : m.execute i with
      | error error =>
          rw [hexecute] at h
          cases h
      | ok after =>
          rw [hexecute] at h
          cases h
          obtain ⟨_, _, rfl⟩ | ⟨_, rfl⟩ | rfl | ⟨_, rfl⟩ := execute_cases hexecute <;> rfl

end Machine

namespace Command

open Log (Message Filter)

/-! ### What the pieces of a stage come to -/

/-- The lines of values, one for each. -/
def printed (values : Array Int32) : String :=
  String.join (values.toList.map fun value => Text.Decimal.writeInt32 value ++ "\n")

theorem printed_append (values more : Array Int32) : printed (values ++ more) = printed values ++ printed more := by
  rw [printed, Array.toList_append, List.map_append, String.join_append, printed, printed]

theorem Piece.stdout_values (values : Array Int32) :
    stdout (values.toList.map fun value => .print (valueLine value)) = printed values := by
  have htext : text? ∘ (fun value => .print (valueLine value)) = fun value => some (valueLine value) := rfl
  rw [stdout, List.filterMap_map, htext, List.filterMap_eq_map']
  rfl

theorem Piece.messages_values (values : Array Int32) :
    messages (values.toList.map fun value => .print (valueLine value)) = [] := by
  rw [messages, List.filterMap_map]
  exact List.filterMap_eq_nil_iff.mpr fun value _ => rfl

theorem Piece.stdout_unlessQuiet (quiet : Bool) (text : String) :
    stdout (unlessQuiet quiet text) = if quiet then "" else text := by
  cases quiet with
  | true => rfl
  | false => exact (String.join_cons ..).trans (String.append_empty)

theorem Piece.messages_unlessQuiet (quiet : Bool) (text : String) : messages (unlessQuiet quiet text) = [] := by
  cases quiet <;> rfl

/-! ### Turns -/

/-- What is printed behind the emitted values. -/
def printedEnd (quiet : Bool) (registers : Registers) : String :=
  if quiet then "" else closing registers

variable {m m' : Machine}

theorem fetchMessages_append (program : Program) (fetched more : List Nat) :
    fetchMessages program (fetched ++ more) = fetchMessages program fetched ++ fetchMessages program more :=
  List.filterMap_append

namespace Stage

theorem turn_halt (h : m.turn = .halt) (quiet : Bool) (steps : Nat) : ∃ pieces,
    turn quiet m steps = (pieces, .ended (.ok steps)) ∧ Piece.stdout pieces = printedEnd quiet m.registers ∧
    Piece.messages pieces = endMessages m (.ok steps) := by
  have hfetch : m.program[m.pc]? = none := Machine.turn_eq_halt_iff.mp h
  refine ⟨_, by rw [turn, h], ?_, ?_⟩
  · simp [Piece.stdout_unlessQuiet, printedEnd]
  · simp [Piece.messages_unlessQuiet, fetchMessages, hfetch]

theorem turn_fault {error : Error} (h : m.turn = .fault error) (quiet : Bool) (steps : Nat) : ∃ pieces,
    turn quiet m steps = (pieces, .ended (.error error)) ∧ Piece.stdout pieces = printedEnd quiet m.registers ∧
    Piece.messages pieces = fetchMessages m.program [m.pc] ++ endMessages m (.error error) := by
  refine ⟨_, by rw [turn, h], ?_, ?_⟩
  · simp [Piece.stdout_unlessQuiet, printedEnd]
  · simp [Piece.messages_unlessQuiet]

theorem turn_next (h : m.turn = .next m') (quiet : Bool) (steps : Nat) : ∃ pieces,
    turn quiet m steps = (pieces, .running { m' with output := #[] } (steps + 1)) ∧
    Piece.stdout pieces = printed m'.output ∧ Piece.messages pieces = fetchMessages m.program [m.pc] := by
  refine ⟨_, by rw [turn, h], ?_, ?_⟩
  · simp [Piece.stdout_values]
  · simp [Piece.messages_values]

/-! ### All stages -/

/-- What is seen of the stages up to the end of a run, when this was printed and logged before the run. -/
def seen (quiet : Bool) (head : String) (logged : List Message) (run : Run) :
    String × List Message × Except Error Nat :=
  (head ++ printed run.machine.output ++ printedEnd quiet run.machine.registers,
    logged ++ fetchMessages run.machine.program run.fetched.toList ++ endMessages run.machine run.result,
    run.result)

/-- The stages go through the turns of the run. The induction is on the number of turns that are left: the values that
were printed are those that the machine of the run has emitted before, and the log tells what it has fetched. -/
theorem through?_running (hnone : m.output = #[]) {before : Array Int32} {fetched : Array Nat} {pieces : Array Piece}
    {head : String} {logged : List Message} (hstdout : Piece.stdout pieces.toList = head ++ printed before)
    (hmessages : Piece.messages pieces.toList = logged ++ fetchMessages m.program fetched.toList) (quiet : Bool)
    (limit : Nat) : ((running m fetched.size).through? quiet pieces limit).map
        (fun answer => (Piece.stdout answer.1.toList, Piece.messages answer.1.toList, answer.2)) =
      ((m.behind before).turns fetched limit).map (seen quiet head logged) := by
  induction limit generalizing m before fetched pieces with
  | zero => rfl
  | succ limit ih =>
      have houtput : (m.behind before).output = before := by
        rw [Machine.behind, hnone, Array.append_empty]
      rw [through?, Machine.turns, m.turn_behind before]
      cases h : m.turn with
      | halt =>
          obtain ⟨more, hstage, hprinted, hlogged⟩ := turn_halt h quiet fetched.size
          rw [hstage, Machine.Turn.behind]
          simp only [through?, Option.map_some, Array.toList_appendList, Piece.stdout_append,
            Piece.messages_append, hstdout, hmessages, hprinted, hlogged, seen, houtput]
          rfl
      | fault error =>
          obtain ⟨more, hstage, hprinted, hlogged⟩ := turn_fault h quiet fetched.size
          rw [hstage, Machine.Turn.behind]
          simp only [through?, Option.map_some, Array.toList_appendList, Piece.stdout_append,
            Piece.messages_append, hstdout, hmessages, hprinted, hlogged, seen, houtput, Array.toList_push]
          rw [fetchMessages_append, ← List.append_assoc, ← List.append_assoc]
          rfl
      | next m' =>
          obtain ⟨more, hstage, hprinted, hlogged⟩ := turn_next h quiet fetched.size
          have hbehind : m'.behind before = ({ m' with output := #[] } : Machine).behind (before ++ m'.output) := by
            unfold Machine.behind
            rw [Array.append_empty]
          rw [hstage, Machine.Turn.behind]
          dsimp only
          rw [hbehind, ← Array.size_push]
          refine ih rfl ?_ ?_
          · rw [Array.toList_appendList, Piece.stdout_append, hstdout, hprinted, printed_append, String.append_assoc]
          · have hprogram : m'.program = m.program := Machine.program_of_turn h
            rw [Array.toList_appendList, Piece.messages_append, hmessages, hlogged, Array.toList_push,
              fetchMessages_append, hprogram, List.append_assoc]
            rfl

end Stage

/-! ### Reports -/

/-- What is seen of a report, with the messages that are not shown. -/
structure Outcome where
  exitCode : Nat
  stdout : String
  messages : List Message
  filter : Filter

def Report.outcome (report : Report) : Outcome where
  exitCode := report.exitCode
  stdout := report.stdout
  messages := report.messages
  filter := report.filter

/-- What is seen of the report on the run of an assembly. -/
def runOutcome (settings : Settings) (assembly : Assembly) (run : Run) : Outcome where
  exitCode := exitCode run.result
  stdout :=
    (if settings.quiet then "" else opening assembly) ++ printed run.machine.output ++
      printedEnd settings.quiet run.machine.registers
  messages :=
    degradationMessages assembly.degradations ++ summaryMessages settings.programPath assembly.degradations ++
      fetchMessages run.machine.program run.fetched.toList ++ endMessages run.machine run.result
  filter := ⟨settings.level⟩

variable {settings : Settings} {read : FileReader}

theorem assemblyMessages_of_ok {origin : Origin} {assembly : Assembly} (h : (origin.pass read).result = .ok assembly) :
    assemblyMessages read origin = degradationMessages assembly.degradations := by
  cases hload : origin.load read with
  | error error =>
      rw [Origin.pass_of_load_error hload] at h
      cases h
  | ok source =>
      cases herror : (origin.pass read).error? with
      | some error =>
          rw [Pass.result, herror] at h
          cases h
      | none =>
          rw [Pass.result, herror] at h
          cases h
          simp only [assemblyMessages, hload, herror, List.append_nil]

theorem runProgram?_of_error {error : Error} (h : ((Origin.file settings.programPath).pass read).result = .error error)
    (limit : Nat) : runProgram? settings read limit = some
      { exitCode := 1,
        pieces := (assemblyMessages read (.file settings.programPath) ++ errorMessages error).map .log,
        filter := ⟨settings.level⟩ } := by
  simp only [runProgram?, Stage.first, h, Stage.through?, Option.map_some]
  rfl

theorem Stage.first_of_ok {assembly : Assembly}
    (h : ((Origin.file settings.programPath).pass read).result = .ok assembly) : ∃ pieces,
    first settings read = (pieces, .running (Machine.ofAssembly assembly).start 0) ∧
    Piece.stdout pieces = (if settings.quiet then "" else opening assembly) ∧
    Piece.messages pieces = degradationMessages assembly.degradations ++
      summaryMessages settings.programPath assembly.degradations := by
  refine ⟨_, by simp only [first, h]; rfl, ?_, ?_⟩
  · rw [Piece.stdout_append, Piece.stdout_map_log, Piece.stdout_unlessQuiet, String.empty_append]
  · rw [Piece.messages_append, Piece.messages_map_log, Piece.messages_unlessQuiet, List.append_nil,
      assemblyMessages_of_ok h]

/-- The report on a program that is assembled is that on its run. -/
theorem outcome_runProgram?_of_ok {assembly : Assembly}
    (h : ((Origin.file settings.programPath).pass read).result = .ok assembly) (limit : Nat) :
    (runProgram? settings read limit).map Report.outcome =
      ((Machine.ofAssembly assembly).run? limit).map (runOutcome settings assembly) := by
  obtain ⟨pieces, hfirst, hprinted, hlogged⟩ := Stage.first_of_ok h
  have hnone : (Machine.ofAssembly assembly).start.output = #[] := rfl
  have hstdout : Piece.stdout pieces.toArray.toList =
      (if settings.quiet then "" else opening assembly) ++ printed #[] := by
    rw [hprinted]
    exact String.append_empty.symm
  have hmessages : Piece.messages pieces.toArray.toList =
      degradationMessages assembly.degradations ++ summaryMessages settings.programPath assembly.degradations ++
        fetchMessages (Machine.ofAssembly assembly).start.program (#[] : Array Nat).toList := by
    rw [hlogged]
    exact (List.append_nil _).symm
  have hstages := Stage.through?_running hnone hstdout hmessages settings.quiet limit
  have hseen := congrArg (Option.map fun seen : String × List Message × Except Error Nat =>
    Outcome.mk (exitCode seen.2.2) seen.1 seen.2.1 ⟨settings.level⟩) hstages
  rw [Option.map_map, Option.map_map] at hseen
  rw [runProgram?, hfirst]
  dsimp only
  rw [Option.map_map]
  exact hseen

end Command

end RegAsm
