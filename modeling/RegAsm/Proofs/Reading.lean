import RegAsm.Proofs.Pass

/-! The reading of a source by rules about the words of its lines. A line has one of five shapes, the operands
of an instruction are read each from the word at its own place, and a source that is assembled gives the
instructions of its instruction lines in order, and every registered label with the number of instruction
lines in front of it. -/

namespace RegAsm

open Text.Decimal (readUInt32? readInt32?)

/-- Whether a word can stand for a field. Any word can name a branch target. -/
def Field.accepts : Field → String → Bool
  | .result, word | .op1, word | .op2, word | .register, word => (readUInt32? word).isSome
  | .value, word => (readInt32? word).isSome
  | .target, _ => true

namespace Source

/-! ### Operands by place -/

/-- The operand word at a place. It is empty where the line has no such word. -/
def operandAt (operands : List String) (place : Nat) : String := operands.getD place ""

@[simp] theorem operandAt_cons_zero (word : String) (operands : List String) :
    operandAt (word :: operands) 0 = word := rfl

@[simp] theorem operandAt_cons_succ (word : String) (operands : List String) (place : Nat) :
    operandAt (word :: operands) (place + 1) = operandAt operands place := rfl

def registerAt (operands : List String) (place : Nat) : UInt32 :=
  (readUInt32? (operandAt operands place)).getD (UInt32.ofNat placeholder)

def literalAt (operands : List String) (place : Nat) : Int32 :=
  (readInt32? (operandAt operands place)).getD (Int32.ofNat placeholder)

/-- The operation that an opcode forms with operand words. -/
def operationAt (operands : List String) : Opcode → Operation
  | .add => .add (registerAt operands 0) (registerAt operands 1) (registerAt operands 2)
  | .sub => .sub (registerAt operands 0) (registerAt operands 1) (registerAt operands 2)
  | .mul => .mul (registerAt operands 0) (registerAt operands 1) (registerAt operands 2)
  | .div => .div (registerAt operands 0) (registerAt operands 1) (registerAt operands 2)
  | .lin => .lin (registerAt operands 0) (literalAt operands 1)
  | .out => .out (registerAt operands 0)
  | .bnz => .bnz (registerAt operands 0) (operandAt operands 1)

/-- Every number that the opcode takes can be read from the word at its place. -/
def Complete (op : Opcode) (operands : List String) : Prop :=
  ∀ slot ∈ op.fields.zipIdx, slot.1.accepts (operandAt operands slot.2) = true

instance (op : Opcode) (operands : List String) : Decidable (Complete op operands) :=
  inferInstanceAs (Decidable (∀ slot ∈ op.fields.zipIdx, slot.1.accepts (operandAt operands slot.2) = true))

/-- The fields of an opcode whose number cannot be read, in the order of the fields. -/
def malformedAt (op : Opcode) (operands : List String) : List Field :=
  (op.fields.zipIdx.filter fun slot => !slot.1.accepts (operandAt operands slot.2)).map (·.1)

theorem malformedAt_eq_nil_iff {op : Opcode} {operands : List String} :
    malformedAt op operands = [] ↔ Complete op operands := by
  simp [malformedAt, Complete, List.filter_eq_nil_iff]

theorem malformedAt_eq_flatMap (op : Opcode) (operands : List String) :
    malformedAt op operands = op.fields.zipIdx.flatMap fun slot =>
      bif slot.1.accepts (operandAt operands slot.2) then [] else [slot.1] := by
  rw [malformedAt]
  induction op.fields.zipIdx with
  | nil => rfl
  | cons slot rest ih =>
      cases haccepts : slot.1.accepts (operandAt operands slot.2) <;> simpa [haccepts] using ih

namespace Cursor

theorem peek_eq (cursor : Cursor) : cursor.peek = operandAt cursor.words 0 := by
  cases hwords : cursor.words <;> simp [peek, operandAt, hwords]

theorem fst_register (cursor : Cursor) (field : Field) :
    (cursor.register field).1 = registerAt cursor.words 0 := by
  rw [register, registerAt, ← peek_eq]
  cases readUInt32? cursor.peek <;> rfl

theorem fst_literal (cursor : Cursor) (field : Field) :
    (cursor.literal field).1 = literalAt cursor.words 0 := by
  rw [literal, literalAt, ← peek_eq]
  cases readInt32? cursor.peek <;> rfl

theorem malformed_register (cursor : Cursor) (field : Field) :
    (cursor.register field).2.malformed =
      cursor.malformed ++ bif (readUInt32? (operandAt cursor.words 0)).isSome then [] else [field] := by
  rw [register, ← peek_eq]
  cases readUInt32? cursor.peek <;> simp [skip, note]

theorem malformed_literal (cursor : Cursor) (field : Field) :
    (cursor.literal field).2.malformed =
      cursor.malformed ++ bif (readInt32? (operandAt cursor.words 0)).isSome then [] else [field] := by
  rw [literal, ← peek_eq]
  cases readInt32? cursor.peek <;> simp [skip, note]

end Cursor

theorem operandAt_tail (operands : List String) (place : Nat) :
    operandAt operands.tail place = operandAt operands (place + 1) := by
  simp [operandAt, ← List.drop_one, Nat.add_comm]

theorem registerAt_tail (operands : List String) (place : Nat) :
    registerAt operands.tail place = registerAt operands (place + 1) := by
  rw [registerAt, operandAt_tail, registerAt]

theorem literalAt_tail (operands : List String) (place : Nat) :
    literalAt operands.tail place = literalAt operands (place + 1) := by
  rw [literalAt, operandAt_tail, literalAt]

/-- The cursor moves by one word for each field, so it reads each operand at the place of its field. -/
theorem Cursor.fst_operation (cursor : Cursor) (op : Opcode) :
    (cursor.operation op).1 = operationAt cursor.words op := by
  cases op <;>
    simp only [operationAt, Cursor.operation, Cursor.arithmetic, Cursor.scan,
      Cursor.fst_register, Cursor.fst_literal, Cursor.words_register, Cursor.peek_eq, operandAt_tail,
      registerAt_tail, literalAt_tail]

theorem Cursor.malformed_operation (cursor : Cursor) (op : Opcode) :
    (cursor.operation op).2.malformed = cursor.malformed ++ malformedAt op cursor.words := by
  cases op <;>
    simp only [malformedAt_eq_flatMap, Cursor.operation, Cursor.arithmetic, Cursor.scan, Cursor.skip,
      Cursor.malformed_register, Cursor.malformed_literal, Cursor.words_register, operandAt_tail,
      Opcode.fields, List.zipIdx_cons, List.zipIdx_nil, List.flatMap_cons, List.flatMap_nil,
      Field.accepts, List.append_nil, List.append_assoc, cond_true]

theorem fst_readOperation (op : Opcode) (operands : List String) :
    (readOperation op operands).1 = operationAt operands op :=
  Cursor.fst_operation { words := operands } op

theorem snd_readOperation (op : Opcode) (operands : List String) :
    (readOperation op operands).2 = malformedAt op operands :=
  (Cursor.malformed_operation { words := operands } op).trans (List.nil_append _)

/-! ### Shapes of lines -/

/-- The shapes that the words of a line can have. -/
inductive Shape where
  | blank
  | label (name : String)
  | unlabelled (op : Opcode) (operands : List String)
  | labelled (name : String) (op : Opcode) (operands : List String)
  /-- A label with a token that is no opcode. Such a line is left out. -/
  | dropped (name token : String)
deriving DecidableEq, Repr

namespace Shape

/-- The shape of a line with the given words. -/
def ofWords : List String → Shape
  | [] => .blank
  | [word] =>
      match Opcode.ofToken? word with
      | none => .label word
      | some op => .unlabelled op []
  | first :: second :: rest =>
      match (Opcode.ofToken? first).filter (Complete · (second :: rest)) with
      | some op => .unlabelled op (second :: rest)
      | none =>
          match Opcode.ofToken? second with
          | some op => .labelled first op rest
          | none => .dropped first second

theorem ofWords_of_complete {first second : String} {rest : List String} {op : Opcode}
    (hop : Opcode.ofToken? first = some op) (hcomplete : Complete op (second :: rest)) :
    ofWords (first :: second :: rest) = .unlabelled op (second :: rest) := by
  have hfilter : (Opcode.ofToken? first).filter (Complete · (second :: rest)) = some op := by
    simp [hop, hcomplete]
  rw [ofWords, hfilter]

theorem ofWords_of_not_complete {first second : String} {rest : List String}
    (h : ∀ op, Opcode.ofToken? first = some op → ¬ Complete op (second :: rest)) :
    ofWords (first :: second :: rest) =
      match Opcode.ofToken? second with
      | some op => .labelled first op rest
      | none => .dropped first second := by
  have hfilter : (Opcode.ofToken? first).filter (Complete · (second :: rest)) = none := by
    rw [Option.filter_eq_none_iff]
    intro op hop
    simpa using h op hop
  rw [ofWords, hfilter]

/-- The words that a line of each shape has. An opcode that stands alone is an instruction without any operand. -/
inductive Fits : List String → Shape → Prop where
  | blank : Fits [] .blank
  | label {name : String} (hname : Opcode.ofToken? name = none) : Fits [name] (.label name)
  | alone {token : String} {op : Opcode} (hop : Opcode.ofToken? token = some op) : Fits [token] (.unlabelled op [])
  | unlabelled {token : String} {op : Opcode} {operands : List String} (hop : Opcode.ofToken? token = some op)
      (hcomplete : Complete op operands) : Fits (token :: operands) (.unlabelled op operands)
  | labelled {name token : String} {op : Opcode} {operands : List String} (hop : Opcode.ofToken? token = some op) :
      Fits (name :: token :: operands) (.labelled name op operands)
  | dropped {name token : String} {operands : List String} (htoken : Opcode.ofToken? token = none) :
      Fits (name :: token :: operands) (.dropped name token)

theorem fits_ofWords (words : List String) : Fits words (ofWords words) := by
  match words with
  | [] => exact .blank
  | [word] =>
      rw [ofWords]
      cases hop : Opcode.ofToken? word with
      | none => exact .label hop
      | some op => exact .alone hop
  | first :: second :: rest =>
      by_cases hfirst : ∃ op, Opcode.ofToken? first = some op ∧ Complete op (second :: rest)
      · obtain ⟨op, hop, hcomplete⟩ := hfirst
        rw [ofWords_of_complete hop hcomplete]
        exact .unlabelled hop hcomplete
      · rw [ofWords_of_not_complete fun op hop hcomplete => hfirst ⟨op, hop, hcomplete⟩]
        cases hop : Opcode.ofToken? second with
        | none => exact .dropped hop
        | some op => exact .labelled hop

/-- The instruction of an instruction line. -/
def instruction? : Shape → Option Instruction
  | .unlabelled op operands => some { label? := none, operation := operationAt operands op }
  | .labelled name op operands => some { label? := some name, operation := operationAt operands op }
  | .blank | .label _ | .dropped .. => none

def isInstruction (shape : Shape) : Bool := shape.instruction?.isSome

/-- The label that a line carries. A dropped line carries its label without registering it. -/
def carried? : Shape → Option String
  | .label name | .labelled name .. | .dropped name _ => some name
  | .blank | .unlabelled .. => none

def registered? : Shape → Option String
  | .label name | .labelled name .. => some name
  | .blank | .unlabelled .. | .dropped .. => none

/-- What a line of this shape says. -/
def line : Shape → Line
  | .blank => .blank
  | .label name => .label name
  | .unlabelled op operands =>
      .instruction { label? := none, operation := operationAt operands op } (malformedAt op operands)
  | .labelled name op operands =>
      .instruction { label? := some name, operation := operationAt operands op } (malformedAt op operands)
  | .dropped name token => .unknown name token

theorem instruction?_line (shape : Shape) : shape.line.instruction? = shape.instruction? := by
  cases shape <;> rfl

theorem label?_line (shape : Shape) : shape.line.label? = shape.carried? := by
  cases shape <;> rfl

theorem defined?_line (shape : Shape) : shape.line.defined? = shape.registered? := by
  cases shape <;> rfl

end Shape

theorem ofOperands_eq (label? : Option String) (op : Opcode) (operands : List String) :
    Line.ofOperands label? op operands =
      .instruction { label?, operation := operationAt operands op } (malformedAt op operands) := by
  rw [← fst_readOperation, ← snd_readOperation]
  rfl

/-- The words of a line decide its shape, and its shape decides what it says. -/
theorem Line.ofWords_eq (words : List String) : Line.ofWords words = (Shape.ofWords words).line := by
  match words with
  | [] => rfl
  | [word] =>
      rw [Line.ofWords, Shape.ofWords]
      cases Opcode.ofToken? word with
      | none => rfl
      | some op => exact ofOperands_eq none op []
  | first :: second :: rest =>
      have hlabelled : Line.ofLabelled first second rest =
          Shape.line (match Opcode.ofToken? second with
            | some op => .labelled first op rest
            | none => .dropped first second) := by
        rw [Line.ofLabelled]
        cases Opcode.ofToken? second with
        | none => rfl
        | some op => exact ofOperands_eq (some first) op rest
      rw [Line.ofWords]
      cases hop : Opcode.ofToken? first with
      | none => rw [Shape.ofWords_of_not_complete (by simp [hop]), ← hlabelled]
      | some op =>
          by_cases hcomplete : Complete op (second :: rest)
          · have hmalformed := malformedAt_eq_nil_iff.mpr hcomplete
            rw [Shape.ofWords_of_complete hop hcomplete]
            simp only [snd_readOperation, hmalformed, if_true, ofOperands_eq, Shape.line]
          · have hmalformed := mt malformedAt_eq_nil_iff.mp hcomplete
            rw [Shape.ofWords_of_not_complete (by simpa [hop] using hcomplete), ← hlabelled]
            simp only [snd_readOperation, hmalformed, if_false]

/-! ### Whole sources -/

/-- The shapes of the lines of a source. -/
def shapes (source : String) : List Shape :=
  (Text.lines source).map fun line => Shape.ofWords (Text.words line)

theorem readings_eq_map_line (source : String) : readings source = (shapes source).map Shape.line := by
  rw [readings, shapes, List.map_map]
  apply List.map_congr_left
  intro line _
  exact Line.ofWords_eq (Text.words line)

theorem filterMap_map_line (shapes : List Shape) :
    (shapes.map Shape.line).filterMap Line.instruction? = shapes.filterMap Shape.instruction? := by
  rw [List.filterMap_map]
  congr 1
  funext shape
  exact Shape.instruction?_line shape

theorem instructionCount_map_line (shapes : List Shape) :
    instructionCount (shapes.map Shape.line) = shapes.countP Shape.isInstruction := by
  rw [instructionCount, filterMap_map_line, List.length_filterMap_eq_countP]
  rfl

/-- The running index of the definitions is the number of instructions before the defining line. -/
theorem definitions_eq_zipIdx (index : Nat) (lines : List Line) :
    definitions index lines = lines.zipIdx.filterMap fun (line, place) =>
      line.defined?.map (·, index + instructionCount (lines.take place)) := by
  induction lines generalizing index with
  | nil => rfl
  | cons line rest ih =>
      have hshift : (rest.zipIdx 1).filterMap (fun (next, place) =>
          next.defined?.map (·, index + instructionCount ((line :: rest).take place))) =
          definitions (index + instructionCount [line]) rest := by
        rw [ih, List.zipIdx_succ, List.filterMap_map]
        congr 1
        funext ⟨next, place⟩
        have hcount : instructionCount (line :: rest.take place) =
            instructionCount [line] + instructionCount (rest.take place) :=
          instructionCount_append [line] (rest.take place)
        simp [hcount, Nat.add_assoc]
      rw [definitions, List.zipIdx_cons, List.filterMap_cons, hshift]
      cases hdefined : line.defined? <;> simp [hdefined, instructionCount]

/-- A source that is assembled gives the instructions of its instruction lines in line order, and each label
of a label line or a labelled instruction line with the number of instruction lines strictly before it. -/
theorem ofSource_follows_shapes {source : String} {assembly : Assembly}
    (h : Assembly.ofSource source = .ok assembly) :
    assembly.program.toList = (shapes source).filterMap Shape.instruction? ∧
    assembly.program.size = (shapes source).countP Shape.isInstruction ∧
    assembly.labels.entries = (shapes source).zipIdx.filterMap fun (shape, place) =>
      shape.registered?.map (·, ((shapes source).take place).countP Shape.isInstruction) := by
  obtain ⟨-, hholds⟩ := Assembly.ofSource_eq_ok_iff.mp h
  rw [readings_eq_map_line] at hholds
  refine ⟨?_, ?_, ?_⟩
  · rw [hholds.program, filterMap_map_line]
  · rw [hholds.size_program, instructionCount_map_line]
  · rw [hholds.labels, definitions_eq_zipIdx, List.zipIdx_map, List.filterMap_map]
    congr 1
    funext ⟨shape, place⟩
    simp [Shape.defined?_line, ← instructionCount_map_line, List.map_take]

/-- One line of each shape: a label line, an instruction whose label is an opcode, a blank line, a dropped
line, an unlabelled instruction and a label behind the last instruction. -/
theorem ofSource_follows_shapes_of_each :
    ∃ assembly, Assembly.ofSource "loop\nout out 1\n\nf1 mov 2\nbnz 1\nend" = .ok assembly ∧
      assembly.labels.entries = [("loop", 0), ("out", 0), ("end", 2)] ∧
      assembly.program.toList =
        (shapes "loop\nout out 1\n\nf1 mov 2\nbnz 1\nend").filterMap Shape.instruction? := by
  have h := Assembly.ofSource_of_pass "loop\nout out 1\n\nf1 mov 2\nbnz 1\nend" (by decide +kernel)
  exact ⟨_, h, by decide +kernel, (ofSource_follows_shapes h).1⟩

end Source

end RegAsm
