import RegAsm.Error
import RegAsm.Text.Lines

/-! Diagnostics: an error together with the source line it points to. -/

namespace RegAsm.Diagnostic

/-- A text filled up with blanks on the left to the given width. -/
def padLeft (width : Nat) (text : String) : String :=
  String.ofList (text.toList.leftpad width ' ')

/-- A line without the carriage returns at its end. -/
def dropReturns (line : String) : String :=
  String.ofList (line.toList.reverse.dropWhile (· == '\r')).reverse

/-- The numbered line of a source, set off from the text around it. It is empty if the source has no such
line. -/
def excerpt (source : String) (number : Nat) : String :=
  match (Text.lines source)[number - 1]? with
  | some line => "  |\n" ++ padLeft 4 (Nat.repr number) ++ " | " ++ dropReturns line ++ "\n  |\n"
  | none => ""

/-- The report of an error in the source of the given name. -/
def render (name source : String) (error : Error) : String :=
  "error: " ++ error.message ++ "\n" ++
    match error.line? with
    | some number => " --> " ++ name ++ ":" ++ Nat.repr number ++ "\n" ++ excerpt source number
    | none => ""

end RegAsm.Diagnostic
