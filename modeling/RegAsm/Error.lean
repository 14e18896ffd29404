/-! What can go wrong, as causes, and the one place that puts each cause into words. Operands that cannot be
read and unknown opcodes are not here: a source line is degraded on those, and reading goes on. -/

namespace RegAsm

/-- Why a file could not be read. -/
inductive ReadError where
  | notFound
  /-- A file stands where the path needs a directory. -/
  | notDirectory
  | isDirectory
  /-- The path, or a name in it, exceeds what the file system allows. -/
  | nameTooLong
  /-- The path holds a NUL, which no file system takes. -/
  | nulInName
  | notUtf8
  /-- Any other cause, in the words of the system. -/
  | other (text : String)
deriving DecidableEq, Repr

def ReadError.message : ReadError → String
  | .notFound => "No such file or directory (os error 2)"
  | .notDirectory => "Not a directory (os error 20)"
  | .isDirectory => "Is a directory (os error 21)"
  | .nameTooLong => "File name too long (os error 36)"
  | .nulInName => "file name contained an unexpected NUL byte"
  | .notUtf8 => "stream did not contain valid UTF-8"
  | .other text => text

/-- Errors that end an assembly, a run or the command itself. -/
inductive Error where
  /-- A line carries a label that an earlier line has defined. -/
  | duplicateLabel (label : String) (line : Nat)
  /-- A branch was taken to a label that is not defined. -/
  | unresolvedTarget (label : String)
  /-- A division by zero; the instruction is given by its description. -/
  | divisionByZero (instruction : String)
  | unreadable (path : String) (cause : ReadError)
  /-- The command line or the environment makes no sense. -/
  | configuration (reason : String)
deriving DecidableEq, Repr

namespace Error

def message : Error → String
  | .duplicateLabel label line => "line " ++ Nat.repr line ++ ": duplicate label: " ++ label
  | .unresolvedTarget label => "unresolved branch target: " ++ label
  | .divisionByZero instruction => "arithmetic fault: division by zero in `" ++ instruction ++ "`"
  | .unreadable path cause => "io error on " ++ path ++ ": " ++ cause.message
  | .configuration reason => "configuration error: " ++ reason

/-- The source line that an error points to, counted from one. -/
def line? : Error → Option Nat
  | .duplicateLabel _ line => some line
  | _ => none

/-- Whether the error ended an assembly. Such errors are reported by the assembly itself. -/
def endsAssembly : Error → Bool
  | .duplicateLabel .. | .unreadable .. => true
  | _ => false

end Error

end RegAsm
