import RegAsm.Source.Cursor
import RegAsm.Text.Words

/-! The reading of one source line, which depends on nothing but its words. The first of several words is a
label, unless it is an opcode and all the numbers that this opcode takes follow it. -/

namespace RegAsm.Source

/-- What a source line says. -/
inductive Line where
  | blank
  /-- A label for the next instruction. -/
  | label (name : String)
  /-- An instruction, and those of its fields that got the placeholder. -/
  | instruction (instruction : Instruction) (malformed : List Field)
  /-- A label with a token behind it that is no opcode. -/
  | unknown (label token : String)
deriving DecidableEq, Repr

namespace Line

/-- The instruction of an opcode and the words behind it. -/
def ofOperands (label? : Option String) (op : Opcode) (operands : List String) : Line :=
  let (operation, malformed) := readOperation op operands
  .instruction { label?, operation } malformed

/-- A line whose first word is a label. -/
def ofLabelled (label token : String) (operands : List String) : Line :=
  match Opcode.ofToken? token with
  | some op => ofOperands (some label) op operands
  | none => .unknown label token

def ofWords : List String → Line
  | [] => .blank
  | [word] =>
    match Opcode.ofToken? word with
    | some op => ofOperands none op []
    | none => .label word
  | first :: second :: rest =>
    match Opcode.ofToken? first with
    | some op =>
      if (readOperation op (second :: rest)).2 = [] then ofOperands none op (second :: rest)
      else ofLabelled first second rest
    | none => ofLabelled first second rest

def read (line : String) : Line := ofWords (Text.words line)

/-- The label that stands on a line, whether or not the line defines it. -/
def label? : Line → Option String
  | .blank => none
  | .label name => some name
  | .instruction i _ => i.label?
  | .unknown name _ => some name

/-- The label that a line defines. A line with an unknown opcode is dropped with its label. -/
def defined? : Line → Option String
  | .label name => some name
  | .instruction i _ => i.label?
  | .blank | .unknown .. => none

/-- The instruction that a line adds to the program. -/
def instruction? : Line → Option Instruction
  | .instruction i _ => some i
  | _ => none

end Line

end RegAsm.Source
