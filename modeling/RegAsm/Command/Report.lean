import RegAsm.Command.Piece
import RegAsm.Command.Request
import RegAsm.Diagnostic
import RegAsm.Machine.Basic
import RegAsm.Workbench

/-! What the command prints, logs and returns. The log is one sequence of messages, of which the level in
force shows a part. -/

namespace RegAsm.Command

open Log (Message Filter Terminal)
open Source (Degradation)

/-- What an invocation of the command comes to. -/
structure Report where
  exitCode : Nat
  /-- What is written, with the messages that are not shown. -/
  pieces : List Piece
  /-- The choice of messages that are shown. -/
  filter : Filter := {}
deriving DecidableEq, Repr

namespace Report

def stdout (report : Report) : String := Piece.stdout report.pieces

/-- The log in full. -/
def messages (report : Report) : List Message := Piece.messages report.pieces

/-- What a report shows of its log. -/
def stderr (terminal : Terminal) (report : Report) : String :=
  Log.render terminal report.filter report.messages

end Report

/-- The usage of the command of the given name. -/
def usage (name : String) : String :=
  "SML Interpreter\n\n" ++
  "USAGE:\n" ++
  "    " ++ name ++ " <program.sml> [OPTIONS]\n\n" ++
  "ARGS:\n" ++
  "    <program.sml>    SML source file to run\n\n" ++
  "OPTIONS:\n" ++
  "    -d, --dir <dir>    Directory the program path is resolved against\n" ++
  "    -t, --trace        Log every executed instruction\n" ++
  "    -q, --quiet        Only print values emitted by `out`\n" ++
  "    -h, --help         Print this help message\n\n" ++
  "ENVIRONMENT:\n" ++
  "    SML_LOG            Default log level (debug, info, warn, error)\n" ++
  "    SML_DIR            Default program directory\n"

/-! ### What is printed -/

/-- What stands above the emitted values: the program and its labels. -/
def opening (assembly : Assembly) : String :=
  "Here is the program; it has " ++ Nat.repr assembly.program.size ++ " instructions.\n" ++
  assembly.program.listing ++
  "Labels: " ++ assembly.labels.render ++ "\n\n" ++
  "Beginning program execution.\n"

/-- The line of an emitted value. -/
def valueLine (value : Int32) : String := Text.Decimal.writeInt32 value ++ "\n"

/-- What stands below the emitted values: the registers. -/
def closing (registers : Registers) : String :=
  "Ending program execution.\n" ++
  "Values of registers at program termination:\n" ++
  registers.render ++ "\n"

/-! ### What is logged -/

/-- The messages of the degraded lines, one for each degradation. -/
def degradationMessages (degradations : List Degradation) : List Message :=
  degradations.map fun degradation => ⟨.warn, degradation.message⟩

/-- The messages of an assembly: its degradations, and the error that stopped it. A source that cannot be loaded has
no line to be shown. -/
def assemblyMessages (read : FileReader) (origin : Origin) : List Message :=
  let pass := origin.pass read
  match origin.load read with
  | .error error => [⟨.error, error.message⟩]
  | .ok source =>
    degradationMessages pass.assembly.degradations ++
      match pass.error? with
      | some error => [⟨.error, Diagnostic.render origin.name source error⟩]
      | none => []

/-- The message that counts the degradations of a file, if there are any. -/
def summaryMessages (path : String) (degradations : List Degradation) : List Message :=
  if degradations = [] then []
  else [⟨.warn, Nat.repr degradations.length ++ " line(s) of " ++ path ++
    " were degraded during translation"⟩]

/-- The message of an instruction that is about to be executed. -/
def fetchMessage (pc : Nat) (i : Instruction) : Message :=
  ⟨.debug, "[" ++ Diagnostic.padLeft 4 (Nat.repr pc) ++ "] " ++ i.describe⟩

/-- The messages of the instructions at these places. -/
def fetchMessages (program : Program) (fetched : List Nat) : List Message :=
  fetched.filterMap fun pc => program[pc]?.map (fetchMessage pc)

/-- The message of an error that ends the command. One that ended the assembly is in the log already. -/
def errorMessages (error : Error) : List Message :=
  if error.endsAssembly then [] else [⟨.error, error.message⟩]

/-- The messages at the end of a run. A fault is located before it is explained. -/
def endMessages (m : Machine) : Except Error Nat → List Message
  | .ok steps => [⟨.info, "executed " ++ Nat.repr steps ++ " instructions"⟩]
  | .error error =>
    (match m.program[m.pc]? with
      | some i => [⟨.error, "fault at instruction " ++ Nat.repr m.pc ++ ": " ++ i.describe⟩]
      | none => []) ++ errorMessages error

/-! ### Reports without a run -/

/-- The report of a command line that asks for help. -/
def helpReport (name : String) : Report where
  exitCode := 0
  pieces := [.log ⟨.info, usage name⟩]

/-- The report of a command line that is not understood. -/
def rejectionReport (name : String) (rejection : Rejection) : Report where
  exitCode := 1
  pieces := [.log ⟨.error, (Error.configuration rejection.message).message⟩, .log ⟨.info, usage name⟩]

end RegAsm.Command
