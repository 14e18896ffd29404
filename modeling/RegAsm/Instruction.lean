import RegAsm.Opcode
import RegAsm.Text.Decimal

/-! Instructions: an operation with its operands, and the label that its line carried. -/

namespace RegAsm

/-- An opcode together with its operands. Registers are addressed by unsigned words, values are signed
words, and a branch names its target by label. -/
inductive Operation where
  | add (result op1 op2 : UInt32)
  | sub (result op1 op2 : UInt32)
  | mul (result op1 op2 : UInt32)
  | div (result op1 op2 : UInt32)
  | lin (register : UInt32) (value : Int32)
  | out (register : UInt32)
  | bnz (register : UInt32) (target : String)
deriving DecidableEq, Repr

namespace Operation

def opcode : Operation → Opcode
  | .add .. => .add
  | .sub .. => .sub
  | .mul .. => .mul
  | .div .. => .div
  | .lin .. => .lin
  | .out .. => .out
  | .bnz .. => .bnz

open Text.Decimal (writeUInt32 writeInt32)

/-- The text of an operation in listings and messages. -/
def describe : Operation → String
  | .add result op1 op2 =>
    "add " ++ writeUInt32 op1 ++ " + " ++ writeUInt32 op2 ++ " output to " ++ writeUInt32 result
  | .sub result op1 op2 =>
    "sub " ++ writeUInt32 op1 ++ " - " ++ writeUInt32 op2 ++ " output to " ++ writeUInt32 result
  | .mul result op1 op2 =>
    "mul " ++ writeUInt32 op1 ++ " * " ++ writeUInt32 op2 ++ " output to " ++ writeUInt32 result
  | .div result op1 op2 =>
    "div " ++ writeUInt32 op1 ++ " / " ++ writeUInt32 op2 ++ " output to register " ++ writeUInt32 result
  | .lin register value => "lin register " ++ writeUInt32 register ++ " value is " ++ writeInt32 value
  | .out register => "out register " ++ writeUInt32 register
  | .bnz register target => "bnz register " ++ writeUInt32 register ++ " jump to " ++ target

end Operation

/-- An operation and the label of its line, if the line had one. -/
structure Instruction where
  label? : Option String
  operation : Operation
deriving DecidableEq, Repr

namespace Instruction

def opcode (i : Instruction) : Opcode := i.operation.opcode

/-- The text of an instruction: its label and a colon, if it has a label, and its operation. -/
def describe (i : Instruction) : String :=
  match i.label? with
  | some label => label ++ ": " ++ i.operation.describe
  | none => i.operation.describe

end Instruction

end RegAsm
