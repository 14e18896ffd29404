import RegAsm.Command.Stage

/-! The command itself: it reads the arguments, the environment and the program file, and writes each piece as soon
as it is there. -/

namespace RegAsm.Command

open Log (Filter Terminal)

/-- A terminal that shows no looks. -/
def plainTerminal : Terminal where
  put _ := ""
  reset := ""

/-- A terminal with the usual control sequences. A look is put on in place of the one before it. -/
def colourTerminal : Terminal where
  put look :=
    let colour :=
      match look.colour with
      | .cyan => "\x1b[36m"
      | .green => "\x1b[32m"
      | .yellow => "\x1b[33m"
      | .red => "\x1b[31m"
    "\x1b[0m" ++ (if look.bold then "\x1b[1m" else "") ++ colour
  reset := "\x1b[0m"

/-- The terminal that the environment tells of. It may ask for no colour. -/
def terminalOf (env : String → Option String) : Terminal :=
  match env "TERM", env "NO_COLOR" with
  | some kind, none => if kind = "dumb" then plainTerminal else colourTerminal
  | _, _ => plainTerminal

/-- The number of a system error, which some calls report with its sign turned. -/
def errorNumber (code : UInt32) : Nat :=
  if code.toNat < 2147483648 then code.toNat else (0 - code).toNat

/-- The cause of an error of the given number. -/
def causeOf (number : Nat) (details : String) : ReadError :=
  match number with
  | 2 => .notFound
  | 13 => .other "Permission denied (os error 13)"
  | 20 => .notDirectory
  | 21 => .isDirectory
  | 36 => .nameTooLong
  | _ => .other (details ++ " (os error " ++ Nat.repr number ++ ")")

/-- The cause of an error of the file system. -/
def systemError : IO.Error → ReadError
  | .noFileOrDirectory _ code details | .inappropriateType _ code details
  | .invalidArgument _ code details | .permissionDenied _ code details | .otherError code details =>
    causeOf (errorNumber code) details
  | error => .other (toString error)

def readFile (path : String) : IO (Except ReadError String) := do
  if path.contains (Char.ofNat 0) then return .error .nulInName
  try
    match String.fromUTF8? (← IO.FS.readBinFile path) with
    | some text => return .ok text
    | none => return .error .notUtf8
  catch error => return .error (systemError error)

/-- Writes pieces in order, but for the messages that are not shown. -/
def writePieces (terminal : Terminal) (filter : Filter) (pieces : List Piece) : IO Unit := do
  for piece in pieces do
    match piece with
    | .print text => IO.print text
    | .log message => IO.eprint (Log.render terminal filter [message])

/-- Goes through all stages. -/
partial def carryOut (terminal : Terminal) (settings : Settings) : List Piece × Stage → IO UInt32
  | (pieces, stage) => do
    writePieces terminal ⟨settings.level⟩ pieces
    match stage with
    | .ended result => return UInt32.ofNat (exitCode result)
    | .running m steps => carryOut terminal settings (Stage.turn settings.quiet m steps)

/-- Writes a report that is complete. -/
def writeReport (terminal : Terminal) (report : Report) : IO UInt32 := do
  writePieces terminal report.filter report.pieces
  return UInt32.ofNat report.exitCode

end RegAsm.Command

open RegAsm RegAsm.Command in
def main (args : List String) : IO UInt32 := do
  let name := toString (← IO.appPath)
  let mut bindings := []
  for key in ["SML_LOG", "SML_DIR", "TERM", "NO_COLOR"] do
    if let some value ← IO.getEnv key then
      bindings := (key, value) :: bindings
  let env := fun key => bindings.lookup key
  let terminal := terminalOf env
  match Request.read env args with
  | .ok (.run settings) =>
    let content ← readFile settings.programPath
    carryOut terminal settings (Stage.first settings fun _ => content)
  | .ok .help => writeReport terminal (helpReport name)
  | .error rejection => writeReport terminal (rejectionReport name rejection)
