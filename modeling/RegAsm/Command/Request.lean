import RegAsm.Command.Argument
import RegAsm.Log.Level

/-! What the command line asks for. The units are read in order, on top of the defaults that the environment
provides, and the first one that settles the matter ends the reading. -/

namespace RegAsm.Command

open Log (Level UnknownLevel)

/-- Why a command line is not understood. -/
inductive Rejection where
  | unknownLevel (cause : UnknownLevel)
  | lackingArgument (flag : String)
  | unexpectedArgument (arg : String)
  | lackingProgram
deriving DecidableEq, Repr

/-- The wording of a rejection. -/
def Rejection.message : Rejection → String
  | .unknownLevel cause => cause.message
  | .lackingArgument flag => flag ++ " requires an argument"
  | .unexpectedArgument arg => "unexpected argument: " ++ arg
  | .lackingProgram => "missing program file"

/-- Joins a path onto a directory. An absolute path stands on its own. -/
def joinPath (directory path : String) : String :=
  if path.toList.head? = some '/' then path
  else if directory = "" ∨ directory.toList.getLast? = some '/' then directory ++ path
  else directory ++ "/" ++ path

/-- How to run a program. -/
structure Settings where
  /-- The path of the program as it was given. -/
  source : String
  /-- The directory that the path is relative to. -/
  directory? : Option String
  /-- Whether only the emitted values are printed. -/
  quiet : Bool
  /-- The least level of messages that are shown. -/
  level : Level
deriving DecidableEq, Repr

/-- The path of the program file. -/
def Settings.programPath (settings : Settings) : String :=
  match settings.directory? with
  | some directory => joinPath directory settings.source
  | none => settings.source

/-- What the command line asks for. -/
inductive Request where
  | run (settings : Settings)
  | help
deriving DecidableEq, Repr

/-- Settings in the making, of which the program may still be missing. -/
structure Draft where
  source? : Option String := none
  directory? : Option String
  quiet : Bool := false
  level : Level
deriving DecidableEq, Repr

/-- Reads units into a draft. -/
def Draft.read (draft : Draft) : List Argument → Except Rejection Request
  | [] =>
    match draft.source? with
    | some source =>
      .ok (.run { source, directory? := draft.directory?, quiet := draft.quiet, level := draft.level })
    | none => .error .lackingProgram
  | .help :: _ => .ok .help
  | .directory path :: rest => Draft.read { draft with directory? := some path } rest
  | .lackingDirectory flag :: _ => .error (.lackingArgument flag)
  | .trace :: rest => Draft.read { draft with level := .debug } rest
  | .quiet :: rest => Draft.read { draft with quiet := true } rest
  | .unknown flag :: _ => .error (.unexpectedArgument flag)
  | .path path :: rest =>
    match draft.source? with
    | some _ => .error (.unexpectedArgument path)
    | none => Draft.read { draft with source? := some path } rest

/-- The level that the environment asks for. -/
def defaultLevel (env : String → Option String) : Except UnknownLevel Level :=
  match env "SML_LOG" with
  | some text => Level.parse text
  | none => .ok .info

/-- Reads the arguments of the command, without its own name. A bad level in the environment goes before
everything else. -/
def Request.read (env : String → Option String) (args : List String) : Except Rejection Request :=
  match defaultLevel env with
  | .ok level => Draft.read { directory? := env "SML_DIR", level } (Argument.split args)
  | .error cause => .error (.unknownLevel cause)

end RegAsm.Command
