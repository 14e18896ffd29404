import RegAsm.Instruction

/-! Reading operands off the words of a line. The cursor moves by one word for each operand, also past the
last word, where it reads empty words; a number that cannot be read is replaced by a placeholder and its
field is noted. -/

namespace RegAsm.Source

/-- The words of a line that are still to be read, and the fields that have got the placeholder. -/
structure Cursor where
  words : List String
  malformed : List Field := []
deriving DecidableEq, Repr

/-- Stands for a number that is missing or cannot be read. -/
def placeholder : Nat := 2147483647

namespace Cursor

/-- The next word. It is empty when no word is left. -/
def peek (cursor : Cursor) : String := cursor.words.headD ""

def skip (cursor : Cursor) : Cursor := { cursor with words := cursor.words.tail }

def scan (cursor : Cursor) : String × Cursor := (cursor.peek, cursor.skip)

/-- Notes that a field has got the placeholder. -/
def note (cursor : Cursor) (field : Field) : Cursor :=
  { cursor with malformed := cursor.malformed ++ [field] }

def register (cursor : Cursor) (field : Field) : UInt32 × Cursor :=
  match Text.Decimal.readUInt32? cursor.peek with
  | some index => (index, cursor.skip)
  | none => (UInt32.ofNat placeholder, cursor.skip.note field)

def literal (cursor : Cursor) (field : Field) : Int32 × Cursor :=
  match Text.Decimal.readInt32? cursor.peek with
  | some value => (value, cursor.skip)
  | none => (Int32.ofNat placeholder, cursor.skip.note field)

/-- Takes the three registers of an arithmetic operation. -/
def arithmetic (cursor : Cursor) (make : UInt32 → UInt32 → UInt32 → Operation) : Operation × Cursor :=
  let (result, cursor) := cursor.register .result
  let (op1, cursor) := cursor.register .op1
  let (op2, cursor) := cursor.register .op2
  (make result op1 op2, cursor)

/-- Takes the operands of an opcode, in the order of its fields. A branch target is any word. -/
def operation (cursor : Cursor) : Opcode → Operation × Cursor
  | .add => cursor.arithmetic .add
  | .sub => cursor.arithmetic .sub
  | .mul => cursor.arithmetic .mul
  | .div => cursor.arithmetic .div
  | .lin =>
    let (register, cursor) := cursor.register .register
    let (value, cursor) := cursor.literal .value
    (.lin register value, cursor)
  | .out =>
    let (register, cursor) := cursor.register .register
    (.out register, cursor)
  | .bnz =>
    let (register, cursor) := cursor.register .register
    let (target, cursor) := cursor.scan
    (.bnz register target, cursor)

theorem words_register (cursor : Cursor) (field : Field) :
    (cursor.register field).2.words = cursor.words.tail := by
  rw [register]
  split <;> rfl

theorem words_literal (cursor : Cursor) (field : Field) :
    (cursor.literal field).2.words = cursor.words.tail := by
  rw [literal]
  split <;> rfl

/-- An opcode takes as many words as it has operands, or all that are left. -/
theorem words_operation (cursor : Cursor) (op : Opcode) :
    (cursor.operation op).2.words = cursor.words.drop op.operandCount := by
  cases op <;>
    simp only [operation, arithmetic, scan, skip, words_register, words_literal, Opcode.operandCount,
      Opcode.fields, List.length_cons, List.length_nil, ← List.drop_one, List.drop_drop]

end Cursor

/-- The operation that an opcode forms with the words behind it, and the fields that got the placeholder. -/
def readOperation (op : Opcode) (words : List String) : Operation × List Field :=
  let (operation, cursor) := Cursor.operation { words } op
  (operation, cursor.malformed)

end RegAsm.Source
