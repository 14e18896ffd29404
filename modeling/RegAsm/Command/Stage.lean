import RegAsm.Command.Report
import RegAsm.Machine.Load
import RegAsm.Machine.Run

/-! An invocation goes through stages, each of which writes its pieces: first the program file is assembled, then
the machine takes turns until it halts or fails. -/

namespace RegAsm.Command

/-- Where an invocation stands: its machine is to take a turn, behind so many others, or its outcome is known. -/
inductive Stage where
  | running (m : Machine) (steps : Nat)
  | ended (result : Except Error Nat)

/-- A text is not printed when the command is to be quiet. -/
def unlessQuiet (quiet : Bool) (text : String) : List Piece :=
  if quiet then [] else [.print text]

namespace Stage

/-- The first stage: assembles the program file and starts a machine. -/
def first (settings : Settings) (read : FileReader) : List Piece × Stage :=
  let origin := Origin.file settings.programPath
  let assembling := assemblyMessages read origin
  match (origin.pass read).result with
  | .error error => ((assembling ++ errorMessages error).map .log, .ended (.error error))
  | .ok assembly =>
    ((assembling ++ summaryMessages settings.programPath assembly.degradations).map .log ++
        unlessQuiet settings.quiet (opening assembly),
      .running (Machine.ofAssembly assembly).start 0)

/-- The stage behind one turn of the machine. A value is printed as soon as it is emitted, and not kept. -/
def turn (quiet : Bool) (m : Machine) (steps : Nat) : List Piece × Stage :=
  let fetching : List Piece := (fetchMessages m.program [m.pc]).map .log
  let ending result : List Piece := unlessQuiet quiet (closing m.registers) ++ (endMessages m result).map .log
  match m.turn with
  | .halt => (fetching ++ ending (.ok steps), .ended (.ok steps))
  | .fault error => (fetching ++ ending (.error error), .ended (.error error))
  | .next m =>
    (fetching ++ m.output.toList.map fun value => .print (valueLine value),
      .running { m with output := #[] } (steps + 1))

/-- All stages from the given one, with the pieces of those before it. There is no outcome when the machine needs more
turns than it may take. -/
def through? (quiet : Bool) (pieces : Array Piece) :
    Stage → (limit : Nat) → Option (Array Piece × Except Error Nat)
  | .ended result, _ => some (pieces, result)
  | .running _ _, 0 => none
  | .running m steps, limit + 1 =>
    let (more, stage) := turn quiet m steps
    through? quiet (pieces ++ more) stage limit

/-- An outcome stays with more turns. -/
theorem through?_mono {quiet : Bool} {pieces : Array Piece} {stage : Stage} {limit larger : Nat}
    {answer : Array Piece × Except Error Nat} (h : stage.through? quiet pieces limit = some answer)
    (hle : limit ≤ larger) : stage.through? quiet pieces larger = some answer := by
  induction limit generalizing stage pieces larger with
  | zero =>
    cases stage with
    | running m steps => simp [through?] at h
    | ended result => simpa only [through?] using h
  | succ limit ih =>
    obtain ⟨larger, rfl⟩ : ∃ n, larger = n + 1 := ⟨larger - 1, by omega⟩
    cases stage with
    | running m steps =>
      rw [through?] at h ⊢
      exact ih h (by omega)
    | ended result => simpa only [through?] using h

end Stage

/-- A run that ended by itself counts as success. -/
def exitCode : Except Error Nat → Nat
  | .ok _ => 0
  | .error _ => 1

/-- Assembles and runs a program. There is no report when the given number of turns does not suffice. -/
def runProgram? (settings : Settings) (read : FileReader) (limit : Nat) : Option Report :=
  let (pieces, stage) := Stage.first settings read
  (stage.through? settings.quiet pieces.toArray limit).map fun (pieces, result) =>
    { exitCode := exitCode result, pieces := pieces.toList, filter := ⟨settings.level⟩ }

/-- The report of an invocation under the given name. -/
def report? (name : String) (env : String → Option String) (args : List String) (read : FileReader)
    (limit : Nat) : Option Report :=
  match Request.read env args with
  | .ok (.run settings) => runProgram? settings read limit
  | .ok .help => some (helpReport name)
  | .error rejection => some (rejectionReport name rejection)

theorem runProgram?_mono {settings : Settings} {read : FileReader} {limit larger : Nat} {report : Report}
    (h : runProgram? settings read limit = some report) (hle : limit ≤ larger) :
    runProgram? settings read larger = some report := by
  obtain ⟨answer, hanswer, hreport⟩ := Option.map_eq_some_iff.mp h
  exact Option.map_eq_some_iff.mpr ⟨answer, Stage.through?_mono hanswer hle, hreport⟩

/-- A report stays with more turns. -/
theorem report?_mono {name : String} {env : String → Option String} {args : List String} {read : FileReader}
    {limit larger : Nat} {report : Report} (h : report? name env args read limit = some report)
    (hle : limit ≤ larger) : report? name env args read larger = some report := by
  rw [report?] at h ⊢
  split at h
  · exact runProgram?_mono h hle
  · exact h
  · exact h

end RegAsm.Command
