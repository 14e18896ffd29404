import RegAsm.Instruction

/-! Programs. The place of an instruction in its program is the value of the program counter that fetches
it and the index to which a label resolves. -/

namespace RegAsm

/-- The instructions of a program, in order. -/
abbrev Program := Array Instruction

namespace Program

def describe (program : Program) : List String :=
  program.toList.map Instruction.describe

/-- The listing of a program: one line for each instruction. -/
def listing (program : Program) : String :=
  String.join (program.describe.map (· ++ "\n"))

end Program

end RegAsm
