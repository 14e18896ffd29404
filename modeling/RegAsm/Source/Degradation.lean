import RegAsm.Source.Line

/-! Degradations: what was replaced or dropped to keep reading a source. -/

namespace RegAsm.Source

/-- A defect of a source line that did not stop the reading. Lines are counted from one. -/
inductive Degradation where
  /-- A number was missing or could not be read and has become the placeholder. -/
  | malformedOperand (line : Nat) (opcode : Opcode) (field : Field)
  /-- The line was dropped, because its token is no opcode. -/
  | unknownOpcode (line : Nat) (token : String)
deriving DecidableEq, Repr

namespace Degradation

/-- The source line of a degradation. -/
def line : Degradation → Nat
  | .malformedOperand line _ _ | .unknownOpcode line _ => line

/-- The wording of a degradation. -/
def message : Degradation → String
  | .malformedOperand line opcode field =>
    "line " ++ Nat.repr line ++ ": malformed operand `" ++ field.name ++ "` of " ++ opcode.mnemonic
      ++ ", using " ++ Nat.repr placeholder
  | .unknownOpcode line token =>
    "line " ++ Nat.repr line ++ ": unknown opcode `" ++ token ++ "`, line skipped"

end Degradation

/-- The degradations of a line with the given number. -/
def Line.degradations (number : Nat) : Line → List Degradation
  | .instruction i malformed => malformed.map (.malformedOperand number i.opcode)
  | .unknown _ token => [.unknownOpcode number token]
  | .blank | .label _ => []

end RegAsm.Source
