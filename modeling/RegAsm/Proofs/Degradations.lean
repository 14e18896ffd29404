import Mathlib.Data.List.Dedup
import RegAsm.Proofs.LineWalk
import RegAsm.Proofs.SourceText

/-! Degradations account for what was replaced or dropped. An instruction line reports the numbers that it lacks, in
the order of the opcode's fields, and has the placeholder in their place; every other number is the one that its
word denotes. A line whose token is no opcode reports that token. Nothing else is reported, and the reports stand
in the order of their lines. -/

namespace RegAsm

open Text.Decimal (Unsigned Signed readUInt32? readInt32?)

/-! ### Fields and their numbers -/

namespace Field

/-- The word denotes this number, and the number is in the range of the field. A branch target is no number. -/
def Denotes (field : Field) (word : String) (n : Int) : Prop :=
  match field with
  | .result | .op1 | .op2 | .register => ∃ k : Nat, Unsigned word k ∧ k < 4294967296 ∧ n = k
  | .value => Signed word n ∧ -2147483648 ≤ n ∧ n < 2147483648
  | .target => False

/-- The number that is read off a word for the field. -/
def number? (field : Field) (word : String) : Option Int :=
  match field with
  | .result | .op1 | .op2 | .register => (readUInt32? word).map fun n => (n.toNat : Int)
  | .value => (readInt32? word).map Int32.toInt
  | .target => none

theorem exists_readUInt32?_iff (word : String) (n : Int) :
    (∃ k, readUInt32? word = some k ∧ (k.toNat : Int) = n) ↔ ∃ k : Nat, Unsigned word k ∧ k < 4294967296 ∧ n = k := by
  simp only [Text.Decimal.readUInt32?_eq_some_iff]
  constructor
  · rintro ⟨k, hword, rfl⟩
    exact ⟨k.toNat, hword, k.toNat_lt, rfl⟩
  · rintro ⟨k, hword, hlt, rfl⟩
    have hk : (UInt32.ofNat k).toNat = k := UInt32.toNat_ofNat_of_lt hlt
    exact ⟨UInt32.ofNat k, by rwa [hk], by rw [hk]⟩

theorem exists_readInt32?_iff (word : String) (n : Int) :
    (∃ k, readInt32? word = some k ∧ k.toInt = n) ↔ Signed word n ∧ -2147483648 ≤ n ∧ n < 2147483648 := by
  simp only [Text.Decimal.readInt32?_eq_some_iff]
  constructor
  · rintro ⟨k, hword, rfl⟩
    exact ⟨hword, k.le_toInt, k.toInt_lt⟩
  · rintro ⟨hword, hlow, hhigh⟩
    have hn : (Int32.ofInt n).toInt = n := Int32.toInt_ofInt_of_le hlow hhigh
    exact ⟨Int32.ofInt n, by rwa [hn], hn⟩

theorem number?_eq_some_iff {field : Field} {word : String} {n : Int} :
    field.number? word = some n ↔ field.Denotes word n := by
  cases field with
  | result | op1 | op2 | register => exact Option.map_eq_some_iff.trans (exists_readUInt32?_iff word n)
  | value => exact Option.map_eq_some_iff.trans (exists_readInt32?_iff word n)
  | target => simp [number?, Denotes]

theorem accepts_eq {field : Field} (h : field ≠ .target) (word : String) :
    field.accepts word = (field.number? word).isSome := by
  cases field with
  | target => exact absurd rfl h
  | result | op1 | op2 | register | value => simp [accepts, number?]

theorem number?_empty (field : Field) : field.number? "" = none := by
  cases field <;> rfl

end Field

/-- The number in a field of an operation, if the operation has such a field. -/
def Operation.number? (operation : Operation) (field : Field) : Option Int :=
  match operation with
  | .add result op1 op2 | .sub result op1 op2 | .mul result op1 op2 | .div result op1 op2 =>
      match field with
      | .result => some result.toNat
      | .op1 => some op1.toNat
      | .op2 => some op2.toNat
      | .register | .value | .target => none
  | .lin register value =>
      match field with
      | .register => some register.toNat
      | .value => some value.toInt
      | .result | .op1 | .op2 | .target => none
  | .out register | .bnz register _ => if field = .register then some register.toNat else none

theorem Opcode.nodup_fields (op : Opcode) : op.fields.Nodup := by
  cases op <;> decide

namespace Source

/-! ### The operands of an instruction -/

/-- How an instruction comes from the operand words of its line, and which of its fields are reported. A word stands
for the field at its own place. -/
structure Accounts (op : Opcode) (operands : List String) (operation : Operation) (malformed : List Field) :
    Prop where
  opcode : operation.opcode = op
  ordered : malformed.Sublist op.fields
  /-- A number that can be read is in its field. -/
  kept : ∀ (place : Nat) (field : Field) (word : String) (n : Int), op.fields[place]? = some field →
    operands[place]? = some word → field.Denotes word n → operation.number? field = some n ∧ field ∉ malformed
  /-- A number that is missing, is none or is out of range is replaced and reported. -/
  replaced : ∀ (place : Nat) (field : Field), op.fields[place]? = some field → field ≠ .target →
    (∀ word n, operands[place]? = some word → ¬ field.Denotes word n) →
    operation.number? field = some 2147483647 ∧ field ∈ malformed
  /-- A branch target is the word as it stands, or empty. -/
  target : ∀ place : Nat, op.fields[place]? = some .target →
    operation.target? = some (operands.getD place "") ∧ .target ∉ malformed

theorem toNat_registerAt (operands : List String) (place : Nat) : ((registerAt operands place).toNat : Int) =
    ((readUInt32? (operandAt operands place)).map fun n => (n.toNat : Int)).getD 2147483647 := by
  rw [registerAt]
  cases readUInt32? (operandAt operands place) <;> rfl

theorem toInt_literalAt (operands : List String) (place : Nat) : (literalAt operands place).toInt =
    ((readInt32? (operandAt operands place)).map Int32.toInt).getD 2147483647 := by
  rw [literalAt]
  cases readInt32? (operandAt operands place) <;> rfl

variable {op : Opcode} {operands : List String} {place : Nat} {field : Field}

theorem opcode_operationAt (operands : List String) (op : Opcode) : (operationAt operands op).opcode = op := by
  cases op <;> rfl

/-- Each field holds what is read at its place. -/
theorem number?_operationAt (h : op.fields[place]? = some field) (hnumber : field ≠ .target) :
    (operationAt operands op).number? field =
      some ((field.number? (operandAt operands place)).getD 2147483647) := by
  have hregister := toNat_registerAt operands
  have hliteral := toInt_literalAt operands
  cases op with
  | add | sub | mul | div =>
      rcases place with _ | _ | _ | place <;> cases h <;> exact congrArg some (hregister _)
  | lin =>
      rcases place with _ | _ | place <;> cases h
      · exact congrArg some (hregister 0)
      · exact congrArg some (hliteral 1)
  | out =>
      rcases place with _ | place <;> cases h
      exact congrArg some (hregister 0)
  | bnz =>
      rcases place with _ | _ | place <;> cases h
      · exact congrArg some (hregister 0)
      · exact absurd rfl hnumber

theorem target?_operationAt (h : op.fields[place]? = some .target) :
    (operationAt operands op).target? = some (operandAt operands place) := by
  cases op with
  | bnz => rcases place with _ | _ | place <;> cases h; rfl
  | add | sub | mul | div | lin | out => rcases place with _ | _ | _ | place <;> cases h

theorem mem_malformedAt_iff (h : op.fields[place]? = some field) :
    field ∈ malformedAt op operands ↔ field.accepts (operandAt operands place) = false := by
  simp only [malformedAt, List.mem_map, List.mem_filter, Prod.exists, List.mem_zipIdx_iff_getElem?,
    Bool.not_eq_true', exists_and_right, exists_eq_right]
  constructor
  · rintro ⟨other, hother, hrefused⟩
    have hlt : other < op.fields.length := (List.getElem?_eq_some_iff.mp hother).1
    obtain rfl := (List.getElem?_inj hlt op.nodup_fields).mp (hother.trans h.symm)
    exact hrefused
  · intro hrefused
    exact ⟨place, h, hrefused⟩

theorem sublist_malformedAt (op : Opcode) (operands : List String) : (malformedAt op operands).Sublist op.fields := by
  have hslots := (List.filter_sublist
    (p := fun slot : Field × Nat => !slot.1.accepts (operandAt operands slot.2)) (l := op.fields.zipIdx)).map (·.1)
  rwa [List.zipIdx_map_fst] at hslots

theorem operandAt_eq (operands : List String) (place : Nat) : operandAt operands place = operands[place]?.getD "" :=
  List.getD_eq_getElem?_getD ..

theorem accounts_operationAt (op : Opcode) (operands : List String) :
    Accounts op operands (operationAt operands op) (malformedAt op operands) where
  opcode := opcode_operationAt operands op
  ordered := sublist_malformedAt op operands
  kept := by
    intro place field word n hfield hword hdenotes
    have hnumber : field ≠ .target := by
      rintro rfl
      exact hdenotes
    have hread : field.number? (operandAt operands place) = some n := by
      rw [operandAt_eq, hword]
      exact Field.number?_eq_some_iff.mpr hdenotes
    rw [number?_operationAt hfield hnumber, mem_malformedAt_iff hfield, Field.accepts_eq hnumber, hread]
    simp
  replaced := by
    intro place field hfield hnumber hnone
    have hread : field.number? (operandAt operands place) = none := by
      rw [operandAt_eq]
      cases hword : operands[place]? with
      | none => exact field.number?_empty
      | some word =>
          rw [Option.eq_none_iff_forall_ne_some]
          intro n hn
          exact hnone word n hword (Field.number?_eq_some_iff.mp hn)
    rw [number?_operationAt hfield hnumber, mem_malformedAt_iff hfield, Field.accepts_eq hnumber, hread]
    exact ⟨rfl, rfl⟩
  target := by
    intro place hfield
    rw [target?_operationAt hfield, mem_malformedAt_iff hfield]
    exact ⟨rfl, by simp [Field.accepts]⟩

/-! ### The degradations of a line -/

/-- What a line of this shape and number adds to the program and to the degradations. -/
inductive Accounted (number : Nat) : Shape → Option Instruction → List Degradation → Prop where
  | blank : Accounted number .blank none []
  | label (name : String) : Accounted number (.label name) none []
  | unlabelled {op : Opcode} {operands : List String} {operation : Operation} {malformed : List Field}
      (accounts : Accounts op operands operation malformed) :
      Accounted number (.unlabelled op operands) (some { label? := none, operation })
        (malformed.map (.malformedOperand number op))
  | labelled (name : String) {op : Opcode} {operands : List String} {operation : Operation} {malformed : List Field}
      (accounts : Accounts op operands operation malformed) :
      Accounted number (.labelled name op operands) (some { label? := some name, operation })
        (malformed.map (.malformedOperand number op))
  | dropped (name token : String) :
      Accounted number (.dropped name token) none [.unknownOpcode number token]

theorem Shape.accounted (number : Nat) (shape : Shape) :
    Accounted number shape shape.instruction? (shape.line.degradations number) := by
  cases shape with
  | blank => exact .blank
  | label name => exact .label name
  | unlabelled op operands =>
      have haccounted : Accounted number _ _ _ := .unlabelled (accounts_operationAt op operands)
      simpa only [Shape.line, Shape.instruction?, Line.degradations, Instruction.opcode, opcode_operationAt] using
        haccounted
  | labelled name op operands =>
      have haccounted : Accounted number _ _ _ := .labelled name (accounts_operationAt op operands)
      simpa only [Shape.line, Shape.instruction?, Line.degradations, Instruction.opcode, opcode_operationAt] using
        haccounted
  | dropped name token => exact .dropped name token

theorem Line.line_of_mem_degradations {line : Line} {number : Nat} {d : Degradation}
    (h : d ∈ line.degradations number) : d.line = number := by
  cases line with
  | blank | label => exact absurd h List.not_mem_nil
  | instruction i malformed =>
      obtain ⟨field, -, rfl⟩ := List.mem_map.mp h
      rfl
  | unknown name token =>
      rw [List.mem_singleton.mp h]
      rfl

theorem line_of_mem_degradationsFrom {number : Nat} {lines : List Line} {d : Degradation}
    (h : d ∈ degradationsFrom number lines) : number ≤ d.line ∧ d.line < number + lines.length := by
  induction lines generalizing number with
  | nil => exact absurd h List.not_mem_nil
  | cons line rest ih =>
      rw [List.length_cons]
      rcases List.mem_append.mp h with hline | hrest
      · have := Line.line_of_mem_degradations hline
        omega
      · have := ih hrest
        omega

theorem pairwise_degradationsFrom (number : Nat) (lines : List Line) :
    (degradationsFrom number lines).Pairwise (·.line ≤ ·.line) := by
  induction lines generalizing number with
  | nil => exact .nil
  | cons line rest ih =>
      rw [degradationsFrom, List.pairwise_append]
      refine ⟨?_, ih (number + 1), ?_⟩
      · rw [List.pairwise_iff_forall_sublist]
        intro a b hsublist
        have ha := Line.line_of_mem_degradations (hsublist.subset List.mem_cons_self)
        have hb := Line.line_of_mem_degradations (hsublist.subset (List.mem_cons_of_mem a List.mem_cons_self))
        omega
      · intro a ha b hb
        have hown := Line.line_of_mem_degradations ha
        have hbehind := line_of_mem_degradationsFrom hb
        omega

/-- The degradations with the number of a line are those of the line. -/
theorem filter_degradationsFrom {number i : Nat} {lines : List Line} {line : Line} (h : lines[i]? = some line) :
    (degradationsFrom number lines).filter (·.line = number + i) = line.degradations (number + i) := by
  induction lines generalizing number i with
  | nil => exact absurd h (by simp)
  | cons first rest ih =>
      rw [degradationsFrom, List.filter_append]
      cases i with
      | zero =>
          obtain rfl : first = line := by simpa using h
          have hown : (first.degradations number).filter (·.line = number + 0) = first.degradations number := by
            rw [List.filter_eq_self]
            intro d hd
            simp [Line.line_of_mem_degradations hd]
          have hrest : (degradationsFrom (number + 1) rest).filter (·.line = number + 0) = [] := by
            rw [List.filter_eq_nil_iff]
            intro d hd
            have := line_of_mem_degradationsFrom hd
            simp only [decide_eq_true_eq]
            omega
          rw [hown, hrest, List.append_nil, Nat.add_zero]
      | succ i =>
          have hown : (first.degradations number).filter (·.line = number + (i + 1)) = [] := by
            rw [List.filter_eq_nil_iff]
            intro d hd
            have := Line.line_of_mem_degradations hd
            simp only [decide_eq_true_eq]
            omega
          rw [hown, List.nil_append, Nat.add_comm i 1, ← Nat.add_assoc]
          exact ih (by simpa using h)

/-- Behind an opcode that is read as such all numbers are there, unless it stands alone. -/
theorem complete_of_unlabelled {words : List String} (h : Shape.ofWords words = .unlabelled op operands)
    (hlength : 2 ≤ words.length) : Complete op operands := by
  have hfits := Shape.fits_ofWords words
  rw [h] at hfits
  cases hfits with
  | alone => exact absurd hlength (by simp)
  | unlabelled _ hcomplete => exact hcomplete

end Source

/-- The degradations of the line with this number. -/
def Assembly.degradationsOf (assembly : Assembly) (number : Nat) : List Source.Degradation :=
  assembly.degradations.filter (·.line = number)

namespace Source

variable {source : String} {assembly : Assembly} {i : Nat} {shape : Shape}

theorem degradationsOf_of_shape (h : Assembly.ofSource source = .ok assembly) (hshape : (shapes source)[i]? = some shape) :
    assembly.degradationsOf (i + 1) = shape.line.degradations (i + 1) := by
  obtain ⟨-, hholds⟩ := Assembly.ofSource_eq_ok_iff.mp h
  have hline : (readings source)[i]? = some shape.line := by
    rw [readings_eq_map_line, List.getElem?_map, hshape]
    rfl
  rw [Assembly.degradationsOf, hholds.degradations, Nat.add_comm i 1, filter_degradationsFrom hline]

theorem instruction_of_shape (h : Assembly.ofSource source = .ok assembly) (hshape : (shapes source)[i]? = some shape)
    {instruction : Instruction} (hinstruction : shape.instruction? = some instruction) :
    assembly.program[((shapes source).take i).countP Shape.isInstruction]? = some instruction := by
  obtain ⟨-, hholds⟩ := Assembly.ofSource_eq_ok_iff.mp h
  have hline : (readings source)[i]? = some shape.line := by
    rw [readings_eq_map_line, List.getElem?_map, hshape]
    rfl
  have hplace : instructionCount ((readings source).take i) = ((shapes source).take i).countP Shape.isInstruction := by
    rw [readings_eq_map_line, ← List.map_take, instructionCount_map_line]
  rw [← hplace, ← Array.getElem?_toList, hholds.program]
  exact getElem?_filterMap_instruction hline (by rw [Shape.instruction?_line, hinstruction])

/-- The degradations of a source that is assembled stand in the order of its lines, and those of each line are accounted
for: an instruction line reports exactly the numbers that were replaced in its instruction, a line whose token is no
opcode reports that token, and every other line reports nothing. An instruction line of several words without a label
reports nothing either. -/
theorem degradations_account_for_lines (h : Assembly.ofSource source = .ok assembly) :
    assembly.degradations.Pairwise (·.line ≤ ·.line) ∧
    (∀ d ∈ assembly.degradations, 1 ≤ d.line ∧ d.line ≤ (Text.lines source).length) ∧
    ∀ i line, (Text.lines source)[i]? = some line →
      (∃ instruction?,
        Accounted (i + 1) (Shape.ofWords (Text.words line)) instruction? (assembly.degradationsOf (i + 1)) ∧
        ∀ instruction ∈ instruction?,
          assembly.program[((shapes source).take i).countP Shape.isInstruction]? = some instruction) ∧
      ∀ op operands, Shape.ofWords (Text.words line) = .unlabelled op operands → 2 ≤ (Text.words line).length →
        assembly.degradationsOf (i + 1) = [] := by
  obtain ⟨-, hholds⟩ := Assembly.ofSource_eq_ok_iff.mp h
  refine ⟨?_, ?_, ?_⟩
  · rw [hholds.degradations]
    exact pairwise_degradationsFrom 1 (readings source)
  · intro d hd
    rw [hholds.degradations] at hd
    have hrange := line_of_mem_degradationsFrom hd
    rw [readings, List.length_map] at hrange
    omega
  · intro i line hline
    have hshape : (shapes source)[i]? = some (Shape.ofWords (Text.words line)) := by
      rw [shapes, List.getElem?_map, hline]
      rfl
    have hdegradations := degradationsOf_of_shape h hshape
    refine ⟨⟨_, hdegradations ▸ Shape.accounted (i + 1) _, fun instruction => instruction_of_shape h hshape⟩, ?_⟩
    intro op operands hunlabelled hlength
    have hnone := malformedAt_eq_nil_iff.mpr (complete_of_unlabelled hunlabelled hlength)
    rw [hdegradations, hunlabelled, Shape.line, Line.degradations, hnone, List.map_nil]

/-- A register is negative and another is missing: both are reported and replaced, and the one in front of them is
read. The next line has all its numbers, one of them negative as a literal may be. -/
theorem degradations_account_for_lines_of_negative : ∃ assembly operation,
    Assembly.ofSource "f0 add +1 -2\nlin 4 -12\nf1 mov 2\nout" = .ok assembly ∧
    assembly.degradations.Pairwise (·.line ≤ ·.line) ∧
    assembly.program[0]? = some { label? := some "f0", operation } ∧
    operation.number? .result = some 1 ∧
    operation.number? .op1 = some 2147483647 ∧ operation.number? .op2 = some 2147483647 ∧
    assembly.degradationsOf 1 = [.malformedOperand 1 .add .op1, .malformedOperand 1 .add .op2] ∧
    assembly.degradationsOf 2 = [] := by
  have h := Assembly.ofSource_of_pass "f0 add +1 -2\nlin 4 -12\nf1 mov 2\nout" (by decide +kernel)
  obtain ⟨hordered, -, hlines⟩ := degradations_account_for_lines h
  obtain ⟨⟨instruction?, haccounted, hprogram⟩, -⟩ := hlines 0 "f0 add +1 -2" (by decide +kernel)
  have hshape : Shape.ofWords (Text.words "f0 add +1 -2") = .labelled "f0" .add ["+1", "-2"] := by decide +kernel
  have hnone : ∀ n, ¬ Field.op1.Denotes "-2" n := fun n hn => by
    have hread := Field.number?_eq_some_iff.mpr hn
    rw [show Field.op1.number? "-2" = none by decide +kernel] at hread
    cases hread
  rw [hshape] at haccounted
  generalize hdegradations : (Assembly.pass "f0 add +1 -2\nlin 4 -12\nf1 mov 2\nout").assembly.degradationsOf (0 + 1) =
    degradations at haccounted
  cases haccounted with
  | @labelled _ _ _ operation malformed accounts =>
      have hresult := accounts.kept 0 .result "+1" 1 rfl rfl (Field.number?_eq_some_iff.mp (by decide +kernel))
      have hop1 := accounts.replaced 1 .op1 rfl (by decide) (by rintro word n ⟨⟩; exact hnone n)
      have hop2 := accounts.replaced 2 .op2 rfl (by decide) (by rintro word n ⟨⟩)
      exact ⟨_, operation, h, hordered, hprogram _ rfl, hresult.1, hop1.1, hop2.1, by decide +kernel,
        (hlines 1 "lin 4 -12" (by decide +kernel)).2 .lin ["4", "-12"] (by decide +kernel) (by decide +kernel)⟩

end Source

/-! ### Degraded lines -/

/-- The lines that were degraded, each of them once. -/
def Assembly.degradedLines (assembly : Assembly) : List Nat :=
  (assembly.degradations.map Source.Degradation.line).dedup

namespace Assembly

variable (assembly : Assembly)

theorem degradedLines_eq_nil_iff : assembly.degradedLines = [] ↔ assembly.degradations = [] := by
  rw [degradedLines, List.dedup_eq_nil, List.map_eq_nil_iff]

theorem length_degradedLines_le : assembly.degradedLines.length ≤ assembly.degradations.length :=
  calc assembly.degradedLines.length
    _ ≤ (assembly.degradations.map Source.Degradation.line).length := (List.dedup_sublist _).length_le
    _ = assembly.degradations.length := List.length_map _

/-- There are as many degraded lines as degradations if each of them has one only. -/
theorem length_degradedLines_eq_iff : assembly.degradedLines.length = assembly.degradations.length ↔
    ∀ line, (assembly.degradationsOf line).length ≤ 1 := by
  have hcount : ∀ line, (assembly.degradations.map Source.Degradation.line).count line =
      (assembly.degradationsOf line).length := by
    intro line
    rw [List.count, List.countP_map, List.countP_eq_length_filter, degradationsOf]
    rfl
  have hnodup : assembly.degradedLines.length = assembly.degradations.length ↔
      (assembly.degradations.map Source.Degradation.line).Nodup := by
    rw [← List.dedup_eq_self, ← List.length_map Source.Degradation.line]
    exact ⟨(List.dedup_sublist _).eq_of_length, congrArg List.length⟩
  rw [hnodup, List.nodup_iff_count_le_one]
  simp only [hcount]

end Assembly

end RegAsm
