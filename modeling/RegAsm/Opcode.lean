import RegAsm.Text.CaseMap

/-! The instruction set: seven opcodes, the operand fields of each in source order, and the look-up of an
opcode by the token that names it. -/

namespace RegAsm

/-- The operand fields that instructions have. -/
inductive Field where
  | result
  | op1
  | op2
  | register
  | value
  | target
deriving DecidableEq, Repr

def Field.name : Field → String
  | .result => "result"
  | .op1 => "op1"
  | .op2 => "op2"
  | .register => "register"
  | .value => "value"
  | .target => "target"

inductive Opcode where
  | add
  | sub
  | mul
  | div
  | lin
  | out
  | bnz
deriving DecidableEq, Repr

namespace Opcode

def all : List Opcode := [.add, .sub, .mul, .div, .lin, .out, .bnz]

/-- The capitalized name of an opcode. -/
def name : Opcode → String
  | .add => "Add"
  | .sub => "Sub"
  | .mul => "Mul"
  | .div => "Div"
  | .lin => "Lin"
  | .out => "Out"
  | .bnz => "Bnz"

/-- The name of an opcode in listings and messages. -/
def mnemonic : Opcode → String
  | .add => "add"
  | .sub => "sub"
  | .mul => "mul"
  | .div => "div"
  | .lin => "lin"
  | .out => "out"
  | .bnz => "bnz"

/-- The operands of an opcode, in the order in which a source line gives them. -/
def fields : Opcode → List Field
  | .add | .sub | .mul | .div => [.result, .op1, .op2]
  | .lin => [.register, .value]
  | .out => [.register]
  | .bnz => [.register, .target]

/-- How many operand words an opcode takes. -/
def operandCount (op : Opcode) : Nat := op.fields.length

/-- The opcode that a token names. The case of its letters does not matter: the token names an opcode if
capitalizing it gives the opcode's name. -/
def ofToken? (token : String) : Option Opcode :=
  all.find? fun op => op.name.toList == Text.capitalize token.toList

end Opcode

end RegAsm
