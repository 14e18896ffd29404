/-! The units of a command line. Arguments are split from the left, and a directory flag makes one unit with
the argument behind it. -/

namespace RegAsm.Command

/-- A unit of the command line. -/
inductive Argument where
  | help
  /-- A directory flag and the directory behind it. -/
  | directory (path : String)
  /-- A directory flag at the very end. -/
  | lackingDirectory (flag : String)
  | trace
  | quiet
  /-- Any other flag. -/
  | unknown (flag : String)
  | path (path : String)
deriving DecidableEq, Repr

/-- Whether an argument has the form of a flag. A single hyphen is a path. -/
def isFlag (arg : String) : Bool :=
  match arg.toList with
  | '-' :: _ :: _ => true
  | _ => false

/-- Splits arguments into units. A directory flag takes the next argument, whatever that is. -/
def Argument.split : List String → List Argument
  | [] => []
  | arg :: rest =>
    if arg = "-h" ∨ arg = "--help" then .help :: split rest
    else if arg = "-d" ∨ arg = "--dir" then
      match rest with
      | [] => [.lackingDirectory arg]
      | next :: rest => .directory next :: split rest
    else if arg = "-t" ∨ arg = "--trace" then .trace :: split rest
    else if arg = "-q" ∨ arg = "--quiet" then .quiet :: split rest
    else if isFlag arg then .unknown arg :: split rest
    else .path arg :: split rest

end RegAsm.Command
