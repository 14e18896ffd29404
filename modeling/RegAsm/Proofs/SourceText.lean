import RegAsm.Proofs.Numerals
import RegAsm.Proofs.Reading

/-! Programs written out as source text. Every well-formed pair of a label table and a program can be written
as a source that assembles to exactly this pair, without a degradation. Labels that look like opcodes or
numbers do no harm: the word behind such a label is a mnemonic, which is no number. -/

namespace RegAsm

open Text (BlankFree)
open Text.Decimal (writeUInt32 writeInt32)
open Source (Line readings instructionCount definitions degradationsFrom ClashesAt)

/-- The operands of an operation, in the order in which a source line gives them. -/
def Operation.operandTexts : Operation → List String
  | .add result op1 op2 | .sub result op1 op2 | .mul result op1 op2 | .div result op1 op2 =>
      [writeUInt32 result, writeUInt32 op1, writeUInt32 op2]
  | .lin register value => [writeUInt32 register, writeInt32 value]
  | .out register => [writeUInt32 register]
  | .bnz register target => [writeUInt32 register, target]

def Operation.target? : Operation → Option String
  | .bnz _ target => some target
  | .add .. | .sub .. | .mul .. | .div .. | .lin .. | .out .. => none

/-- The parts of a source line: the label of the instruction if it has one, the mnemonic and the operands. -/
def Instruction.pieces (i : Instruction) : List String :=
  i.label?.toList ++ i.opcode.mnemonic :: i.operation.operandTexts

/-- The source line of an instruction, its parts set apart by single spaces. -/
def Instruction.sourceLine (i : Instruction) : String := " ".intercalate i.pieces

/-- The label that the instruction at an index carries. -/
def Program.ownLabel? (program : Program) (index : Nat) : Option String :=
  program[index]?.bind Instruction.label?

/-- The names of an index that stand on lines of their own, in the order of their definition. -/
def LabelTable.loneNames (labels : LabelTable) (program : Program) (index : Nat) : List String :=
  ((labels.entries.filter (·.2 == index)).map (·.1)).filter (program.ownLabel? index ≠ some ·)

/-- The lines for one index: the names that stand alone, then the instruction. Behind the last instruction
only names are left. -/
def LabelTable.linesAt (labels : LabelTable) (program : Program) (index : Nat) : List String :=
  labels.loneNames program index ++ (program[index]?.map Instruction.sourceLine).toList

/-- A label table and a program as source text. -/
def LabelTable.sourceText (labels : LabelTable) (program : Program) : String :=
  String.join (((List.range (program.size + 1)).flatMap (labels.linesAt program)).map (· ++ "\n"))

/-- What a label table and a program must satisfy to have come from a source. That names are distinct and not
empty is part of being a label table, and two instructions cannot carry one label because a name has one
index. -/
structure WellFormed (labels : LabelTable) (program : Program) : Prop where
  names : ∀ e ∈ labels.entries, BlankFree e.1
  /-- Names are defined in the order of their indices. -/
  ascending : labels.entries.Pairwise (·.2 ≤ ·.2)
  /-- An index is that of an instruction or the one behind the last. -/
  bounded : ∀ e ∈ labels.entries, e.2 ≤ program.size
  /-- The label of an instruction is the last that is defined for its index. -/
  own : ∀ index < program.size, ∀ label ∈ program.ownLabel? index,
    (labels.entries.filter (·.2 == index)).getLast? = some (label, index)
  /-- A name that no instruction carries is no opcode. -/
  lone : ∀ e ∈ labels.entries, program.ownLabel? e.2 ≠ some e.1 → Opcode.ofToken? e.1 = none
  /-- No branch target has a blank in it. It may be empty. -/
  targets : ∀ i ∈ program, ∀ target ∈ i.operation.target?, BlankFree target

instance (labels : LabelTable) (program : Program) : Decidable (WellFormed labels program) :=
  decidable_of_iff
    ((∀ e ∈ labels.entries, BlankFree e.1) ∧ labels.entries.Pairwise (·.2 ≤ ·.2) ∧
      (∀ e ∈ labels.entries, e.2 ≤ program.size) ∧
      (∀ index < program.size, ∀ label ∈ program.ownLabel? index,
        (labels.entries.filter (·.2 == index)).getLast? = some (label, index)) ∧
      (∀ e ∈ labels.entries, program.ownLabel? e.2 ≠ some e.1 → Opcode.ofToken? e.1 = none) ∧
      ∀ i ∈ program, ∀ target ∈ i.operation.target?, BlankFree target)
    ⟨fun ⟨names, ascending, bounded, own, lone, targets⟩ => ⟨names, ascending, bounded, own, lone, targets⟩,
      fun ⟨names, ascending, bounded, own, lone, targets⟩ => ⟨names, ascending, bounded, own, lone, targets⟩⟩

/-! ### Reading one printed line -/

theorem Opcode.ofToken?_mnemonic (op : Opcode) : Opcode.ofToken? op.mnemonic = some op := by
  cases op <;> decide +kernel

/-- Only the small letters and what comes behind them have another upper case. -/
theorem Text.apply_upperCase_of_lt {c : Char} (h : c.toNat < 'a'.toNat) : Text.upperCase.apply c = [c] := by
  have hexpansions : ∀ e ∈ Text.upperExpansions, 'a'.toNat ≤ e.1 := by decide
  have hruns : ∀ run ∈ Text.upperRuns, 'a'.toNat ≤ run.first := by decide +kernel
  have hone : Text.upperExpansions.find? (·.1 == c.toNat) = none := by
    rw [List.find?_eq_none]
    intro e he
    have hle := hexpansions e he
    simp only [beq_iff_eq]
    omega
  have hsame : Text.upperRuns.find? (·.covers c.toNat) = none := by
    rw [List.find?_eq_none]
    intro run hrun
    have hle := hruns run hrun
    simp only [Text.CaseRun.covers, Bool.and_eq_true, decide_eq_true_eq]
    omega
  rw [Text.CaseMap.apply, Text.upperCase, hone]
  simp only [hsame]

/-- No token that names an opcode is a number: it would begin with the same character as the name. -/
theorem Opcode.readUInt32?_of_ofToken? {token : String} {op : Opcode} (h : Opcode.ofToken? token = some op) :
    Text.Decimal.readUInt32? token = none := by
  rw [Option.eq_none_iff_forall_not_mem]
  intro n hn
  obtain ⟨c, hc, hlt⟩ := Text.Decimal.head?_of_readUInt32? hn
  obtain ⟨rest, htoken⟩ := List.head?_eq_some_iff.mp hc
  have hname : op.name.toList = Text.capitalize token.toList := by
    simpa using List.find?_some h
  rw [htoken, Text.capitalize, Text.apply_upperCase_of_lt (Nat.lt_trans hlt (by decide))] at hname
  obtain ⟨letter, letters, hletters, hle⟩ : ∃ letter letters, op.name.toList = letter :: letters ∧
      'A'.toNat ≤ letter.toNat := by
    cases op <;> exact ⟨_, _, rfl, by decide⟩
  rw [hletters] at hname
  obtain ⟨rfl, -⟩ := List.cons.inj hname
  exact absurd hle (Nat.not_le_of_lt hlt)

theorem Opcode.blankFree_mnemonic (op : Opcode) : BlankFree op.mnemonic ∧ op.mnemonic ≠ "" := by
  cases op <;> decide

/-- Every opcode begins with a register, which an opcode is not. -/
theorem Source.not_complete_of_ofToken? {token : String} {other : Opcode}
    (h : Opcode.ofToken? token = some other) (op : Opcode) (operands : List String) :
    ¬ Source.Complete op (token :: operands) := by
  intro hcomplete
  obtain ⟨field, hmem, hfield⟩ : ∃ field, (field, 0) ∈ op.fields.zipIdx ∧
      field.accepts token = (Text.Decimal.readUInt32? token).isSome := by
    cases op <;> exact ⟨_, List.mem_cons_self, rfl⟩
  have haccepts := hcomplete (field, 0) hmem
  rw [Source.operandAt_cons_zero, hfield, Opcode.readUInt32?_of_ofToken? h] at haccepts
  exact absurd haccepts (by decide)

/-- A word in front of an opcode is a label, also if it is spelled like an opcode. -/
theorem Source.Shape.ofWords_of_second {token : String} {op : Opcode} (h : Opcode.ofToken? token = some op)
    (name : String) (operands : List String) :
    Source.Shape.ofWords (name :: token :: operands) = .labelled name op operands := by
  rw [Source.Shape.ofWords_of_not_complete fun other _ => Source.not_complete_of_ofToken? h other operands, h]

namespace Operation

open Source (operandAt registerAt literalAt operationAt Complete)
open Text.Decimal (readUInt32?_writeUInt32 readInt32?_writeInt32 writeUInt32_ne_empty writeInt32_ne_empty
  blankFree_writeUInt32 blankFree_writeInt32)

/-- The operands as words. A target that is empty is no word. -/
def operandWords (operation : Operation) : List String := operation.operandTexts.filter (· ≠ "")

/-- Only the last operand can be empty, so no operand changes its place. -/
theorem operandAt_operandWords (operation : Operation) (place : Nat) :
    operandAt operation.operandWords place = operandAt operation.operandTexts place := by
  cases operation with
  | bnz register target =>
      by_cases htarget : target = ""
      · rcases place with _ | _ | place <;>
          simp [operandWords, operandTexts, operandAt, writeUInt32_ne_empty, htarget]
      · simp [operandWords, operandTexts, writeUInt32_ne_empty, htarget]
  | _ => simp [operandWords, operandTexts, writeUInt32_ne_empty, writeInt32_ne_empty]

theorem operationAt_operandWords (operation : Operation) :
    operationAt operation.operandWords operation.opcode = operation := by
  cases operation <;>
    simp [opcode, operationAt, registerAt, literalAt, operandAt_operandWords, operandTexts,
      readUInt32?_writeUInt32, readInt32?_writeInt32]

theorem complete_operandWords (operation : Operation) :
    Complete operation.opcode operation.operandWords := by
  cases operation <;>
    simp [Complete, opcode, Opcode.fields, Field.accepts, operandAt_operandWords, operandTexts,
      readUInt32?_writeUInt32, readInt32?_writeInt32]

theorem operandWords_ne_nil (operation : Operation) : operation.operandWords ≠ [] := by
  cases operation <;> simp [operandWords, operandTexts, writeUInt32_ne_empty]

theorem blankFree_operandTexts {operation : Operation}
    (htarget : ∀ target ∈ operation.target?, BlankFree target) :
    ∀ text ∈ operation.operandTexts, BlankFree text := by
  cases operation with
  | bnz register target =>
      simpa [operandTexts] using ⟨blankFree_writeUInt32 register, htarget target rfl⟩
  | _ => simp [operandTexts, blankFree_writeUInt32, blankFree_writeInt32]

end Operation

namespace Instruction

variable {i : Instruction}

theorem blankFree_pieces (hlabel : ∀ label ∈ i.label?, BlankFree label ∧ label ≠ "")
    (htexts : ∀ text ∈ i.operation.operandTexts, BlankFree text) : ∀ piece ∈ i.pieces, BlankFree piece := by
  intro piece hpiece
  rcases List.mem_append.mp hpiece with hpiece | hpiece
  · exact (hlabel piece (Option.mem_toList.mp hpiece)).1
  · rcases List.mem_cons.mp hpiece with rfl | hpiece
    · exact i.opcode.blankFree_mnemonic.1
    · exact htexts piece hpiece

theorem words_sourceLine (hlabel : ∀ label ∈ i.label?, BlankFree label ∧ label ≠ "")
    (htexts : ∀ text ∈ i.operation.operandTexts, BlankFree text) :
    Text.words i.sourceLine = i.label?.toList ++ i.opcode.mnemonic :: i.operation.operandWords := by
  have hkept : i.label?.toList.filter (· ≠ "") = i.label?.toList := by
    rw [List.filter_eq_self]
    intro label hmem
    simpa using (hlabel label (Option.mem_toList.mp hmem)).2
  rw [sourceLine, Text.words_intercalate (blankFree_pieces hlabel htexts), pieces, List.filter_append, hkept,
    List.filter_cons_of_pos (by simpa using i.opcode.blankFree_mnemonic.2), Operation.operandWords]

/-- The line of an instruction is read as this instruction. -/
theorem read_sourceLine (hlabel : ∀ label ∈ i.label?, BlankFree label ∧ label ≠ "")
    (htexts : ∀ text ∈ i.operation.operandTexts, BlankFree text) :
    Line.read i.sourceLine = .instruction i [] := by
  have hoperation : Source.operationAt i.operation.operandWords i.opcode = i.operation :=
    i.operation.operationAt_operandWords
  have hcomplete : Source.Complete i.opcode i.operation.operandWords := i.operation.complete_operandWords
  have hmnemonic := Opcode.ofToken?_mnemonic i.opcode
  have hshape : (Source.Shape.ofWords
      (i.label?.toList ++ i.opcode.mnemonic :: i.operation.operandWords)) =
        match i.label? with
        | none => .unlabelled i.opcode i.operation.operandWords
        | some label => .labelled label i.opcode i.operation.operandWords := by
    obtain ⟨first, rest, hwords⟩ := List.exists_cons_of_ne_nil i.operation.operandWords_ne_nil
    cases i.label? with
    | none =>
        rw [hwords] at hcomplete ⊢
        exact Source.Shape.ofWords_of_complete hmnemonic hcomplete
    | some label => exact Source.Shape.ofWords_of_second hmnemonic label i.operation.operandWords
  rw [Line.read, Line.ofWords_eq, words_sourceLine hlabel htexts, hshape]
  have hmalformed := Source.malformedAt_eq_nil_iff.mpr hcomplete
  obtain ⟨label?, operation⟩ := i
  cases label? <;> simp only [Source.Shape.line, hmalformed, hoperation]

end Instruction

/-! ### Lists by index -/

theorem flatMap_range_getElem? {α : Type} (list : List α) (n : Nat) :
    (List.range n).flatMap (fun index => list[index]?.toList) = list.take n := by
  induction n with
  | zero => rfl
  | succ n ih => rw [List.range_succ, List.flatMap_append, ih, List.take_add_one, List.flatMap_singleton]

/-- In a list that ascends by its keys the entries below a key stand in front of those with the key. -/
theorem filter_lt_append_filter_eq {α : Type} {key : α → Nat} {list : List α}
    (h : list.Pairwise (key · ≤ key ·)) (n : Nat) :
    list.filter (key · < n) ++ list.filter (key · == n) = list.filter (key · < n + 1) := by
  induction list with
  | nil => rfl
  | cons a rest ih =>
      obtain ⟨hhead, hrest⟩ := List.pairwise_cons.mp h
      have ih := ih hrest
      rcases Nat.lt_trichotomy (key a) n with hlt | heq | hgt
      · have hne : key a ≠ n := by omega
        have hsucc : key a < n + 1 := by omega
        simp only [List.filter_cons, decide_eq_true hlt, beq_eq_false_iff_ne.mpr hne, decide_eq_true hsucc,
          if_true, Bool.false_eq_true, if_false, List.cons_append, ih]
      · have hnone : rest.filter (key · < n) = [] := by
          rw [List.filter_eq_nil_iff]
          intro b hb
          have := hhead b hb
          simp only [decide_eq_true_eq]
          omega
        have hlt : ¬ key a < n := by omega
        have hsucc : key a < n + 1 := by omega
        rw [hnone, List.nil_append] at ih
        simp only [List.filter_cons, decide_eq_false hlt, beq_iff_eq.mpr heq, decide_eq_true hsucc, hnone,
          if_true, Bool.false_eq_true, if_false, List.nil_append, ih]
      · have hlt : ¬ key a < n := by omega
        have hne : key a ≠ n := by omega
        have hsucc : ¬ key a < n + 1 := by omega
        simp only [List.filter_cons, decide_eq_false hlt, beq_eq_false_iff_ne.mpr hne, decide_eq_false hsucc,
          Bool.false_eq_true, if_false, ih]

theorem flatMap_range_filter {α : Type} {key : α → Nat} {list : List α}
    (h : list.Pairwise (key · ≤ key ·)) (n : Nat) :
    (List.range n).flatMap (fun index => list.filter (key · == index)) = list.filter (key · < n) := by
  induction n with
  | zero => simp
  | succ n ih =>
      rw [List.range_succ, List.flatMap_append, ih, List.flatMap_singleton, filter_lt_append_filter_eq h]

/-! ### All lines together -/

def LabelTable.readingsAt (labels : LabelTable) (program : Program) (index : Nat) : List Line :=
  (labels.loneNames program index).map Line.label ++
    (program[index]?.map (Line.instruction · [])).toList

theorem filterMap_instruction_readingsAt (labels : LabelTable) (program : Program) (index : Nat) :
    (labels.readingsAt program index).filterMap Line.instruction? = program[index]?.toList := by
  rw [LabelTable.readingsAt, List.filterMap_append, List.filterMap_map]
  cases program[index]? <;> simp [Function.comp_def, Line.instruction?]

theorem filterMap_instruction_readings (labels : LabelTable) (program : Program) (n : Nat) :
    ((List.range n).flatMap (labels.readingsAt program)).filterMap Line.instruction? =
      program.toList.take n := by
  rw [← flatMap_range_getElem?, List.filterMap_flatMap]
  congr 1
  funext index
  rw [filterMap_instruction_readingsAt, Array.getElem?_toList]

theorem mem_readings_cases {labels : LabelTable} {program : Program} {n : Nat} {line : Line}
    (h : line ∈ (List.range n).flatMap (labels.readingsAt program)) :
    (∃ name, line = .label name) ∨ ∃ i, line = .instruction i [] := by
  obtain ⟨index, -, hline⟩ := List.mem_flatMap.mp h
  rcases List.mem_append.mp hline with hline | hline
  · obtain ⟨name, -, rfl⟩ := List.mem_map.mp hline
    exact Or.inl ⟨name, rfl⟩
  · obtain ⟨i, -, rfl⟩ := Option.map_eq_some_iff.mp (Option.mem_toList.mp hline)
    exact Or.inr ⟨i, rfl⟩

/-- Lines that hold a label alone all define it for the same index. -/
theorem definitions_map_label (index : Nat) (names : List String) :
    definitions index (names.map Line.label) = names.map (·, index) := by
  induction names with
  | nil => rfl
  | cons name rest ih =>
      rw [List.map_cons, definitions, show instructionCount [Line.label name] = 0 from rfl, Nat.add_zero, ih]
      rfl

theorem definitions_readingsAt_eq (labels : LabelTable) (program : Program) (index : Nat) :
    definitions index (labels.readingsAt program index) =
      (labels.loneNames program index).map (·, index) ++
        ((program.ownLabel? index).map (·, index)).toList := by
  have hnone : instructionCount ((labels.loneNames program index).map Line.label) = 0 := by
    simp [instructionCount, Function.comp_def, Line.instruction?, List.filterMap_map]
  rw [LabelTable.readingsAt, Source.definitions_append, definitions_map_label, hnone, Nat.add_zero,
    Program.ownLabel?]
  cases program[index]? with
  | none => rfl
  | some i => simp [definitions, Line.defined?]

namespace WellFormed

variable {labels : LabelTable} {program : Program}

theorem getLast?_of_ownLabel? (h : WellFormed labels program) {index : Nat} {label : String}
    (hown : program.ownLabel? index = some label) :
    (labels.entries.filter (·.2 == index)).getLast? = some (label, index) := by
  obtain ⟨i, hi, -⟩ := Option.bind_eq_some_iff.mp hown
  exact h.own index (Array.getElem?_eq_some_iff.mp hi).1 label hown

theorem mem_entries_of_ownLabel? (h : WellFormed labels program) {index : Nat} {label : String}
    (hown : program.ownLabel? index = some label) : (label, index) ∈ labels.entries :=
  (List.mem_filter.mp (List.mem_of_getLast? (h.getLast?_of_ownLabel? hown))).1

theorem name_word (h : WellFormed labels program) {e : String × Nat} (he : e ∈ labels.entries) :
    BlankFree e.1 ∧ e.1 ≠ "" := by
  refine ⟨h.names e he, fun hempty => labels.named ?_⟩
  rw [← hempty]
  exact List.mem_map_of_mem he

/-- The definitions of an index are the names that stand alone and then the label of the instruction. -/
theorem definitions_readingsAt (h : WellFormed labels program) (index : Nat) :
    definitions index (labels.readingsAt program index) = labels.entries.filter (·.2 == index) := by
  have hsame : ∀ entries : List (String × Nat), (∀ e ∈ entries, e.2 = index) →
      (entries.map (·.1)).map (·, index) = entries := by
    intro entries hentries
    rw [List.map_map]
    refine (List.map_congr_left fun e he => ?_).trans (List.map_id entries)
    exact Prod.ext rfl (hentries e he).symm
  have hindex : ∀ e ∈ labels.entries.filter (·.2 == index), e.2 = index := by
    intro e he
    simpa using (List.mem_filter.mp he).2
  rw [definitions_readingsAt_eq, LabelTable.loneNames]
  cases hown : program.ownLabel? index with
  | none =>
      rw [List.filter_eq_self.mpr (by simp), hsame _ hindex]
      simp
  | some label =>
      obtain ⟨before, hbefore⟩ := List.getLast?_eq_some_iff.mp (h.getLast?_of_ownLabel? hown)
      have hnodup : ((labels.entries.filter (·.2 == index)).map (·.1)).Nodup :=
        labels.nodup.sublist (List.filter_sublist.map _)
      rw [hbefore] at hindex hnodup ⊢
      rw [List.map_append, List.nodup_append] at hnodup
      have hlone : (before.map (·.1)).filter (some label ≠ some ·) = before.map (·.1) := by
        rw [List.filter_eq_self]
        intro name hname
        have hne := hnodup.2.2 name hname label (by simp)
        simpa using Ne.symm hne
      rw [List.map_append, List.filter_append, hlone]
      simp [hsame before fun e he => hindex e (List.mem_append_left _ he)]

theorem definitions_readings (h : WellFormed labels program) {n : Nat} (hn : n ≤ program.size + 1) :
    definitions 0 ((List.range n).flatMap (labels.readingsAt program)) =
      (List.range n).flatMap fun index => labels.entries.filter (·.2 == index) := by
  induction n with
  | zero => rfl
  | succ n ih =>
      have hcount : instructionCount ((List.range n).flatMap (labels.readingsAt program)) = n := by
        rw [instructionCount, filterMap_instruction_readings, List.length_take, Array.length_toList]
        omega
      rw [List.range_succ, List.flatMap_append, List.flatMap_append, Source.definitions_append,
        ih (by omega), hcount, Nat.zero_add, List.flatMap_singleton, List.flatMap_singleton,
        h.definitions_readingsAt]

/-- The printed lines amount to the label table and the program that they were printed from. -/
theorem holds_readings (h : WellFormed labels program) :
    Assembly.Holds { labels, program }
      ((List.range (program.size + 1)).flatMap (labels.readingsAt program)) where
  program := by
    rw [filterMap_instruction_readings, List.take_of_length_le (by simp)]
  labels := by
    rw [h.definitions_readings (Nat.le_refl _), flatMap_range_filter h.ascending, eq_comm,
      List.filter_eq_self]
    intro e he
    have := h.bounded e he
    simp only [decide_eq_true_eq]
    omega
  degradations := by
    rw [Source.degradationsFrom_eq_nil]
    intro line hline number
    rcases mem_readings_cases hline with ⟨name, rfl⟩ | ⟨i, rfl⟩ <;> rfl

theorem not_clashesAt_readings (h : WellFormed labels program) (i : Nat) :
    ¬ ClashesAt ((List.range (program.size + 1)).flatMap (labels.readingsAt program)) i := by
  refine Source.not_clashesAt_of_nodup ?_ ?_ i
  · rw [← h.holds_readings.names_labels]
    exact labels.nodup
  · intro line hline
    rcases mem_readings_cases hline with ⟨name, rfl⟩ | ⟨i, rfl⟩ <;> rfl

theorem label_word (h : WellFormed labels program) {index : Nat} {i : Instruction}
    (hi : program[index]? = some i) : ∀ label ∈ i.label?, BlankFree label ∧ label ≠ "" := by
  intro label hlabel
  have hown : program.ownLabel? index = some label := by
    rw [Program.ownLabel?, hi]
    exact hlabel
  exact h.name_word (h.mem_entries_of_ownLabel? hown)

theorem operandTexts_blankFree (h : WellFormed labels program) {index : Nat} {i : Instruction}
    (hi : program[index]? = some i) : ∀ text ∈ i.operation.operandTexts, BlankFree text :=
  Operation.blankFree_operandTexts (h.targets i (Array.mem_of_getElem? hi))

theorem read_loneName (h : WellFormed labels program) {index : Nat} {name : String}
    (hname : name ∈ labels.loneNames program index) : BlankFree name ∧ Line.read name = .label name := by
  obtain ⟨hname, hlone⟩ := List.mem_filter.mp hname
  obtain ⟨e, hfilter, rfl⟩ := List.mem_map.mp hname
  obtain ⟨he, hindex⟩ := List.mem_filter.mp hfilter
  obtain rfl : e.2 = index := by simpa using hindex
  obtain ⟨hfree, hne⟩ := h.name_word he
  have hwords : Text.words e.1 = [e.1] := by
    have hpieces : Text.words (" ".intercalate [e.1]) = [e.1].filter (· ≠ "") :=
      Text.words_intercalate (by simpa using hfree)
    simpa [hne] using hpieces
  have hopcode : Opcode.ofToken? e.1 = none := h.lone e he (by simpa using hlone)
  refine ⟨hfree, ?_⟩
  rw [Line.read, hwords, Line.ofWords, hopcode]

theorem map_read_linesAt (h : WellFormed labels program) (index : Nat) :
    (labels.linesAt program index).map Line.read = labels.readingsAt program index := by
  rw [LabelTable.linesAt, List.map_append, LabelTable.readingsAt]
  congr 1
  · exact List.map_congr_left fun name hname => (h.read_loneName hname).2
  · cases hi : program[index]? with
    | none => rfl
    | some i =>
        have hread := Instruction.read_sourceLine (h.label_word hi) (h.operandTexts_blankFree hi)
        simpa using hread

/-- A printed line is put together from pieces without blanks. -/
theorem exists_pieces (h : WellFormed labels program) {index : Nat} {line : String}
    (hline : line ∈ labels.linesAt program index) :
    ∃ pieces, (∀ piece ∈ pieces, BlankFree piece) ∧ line = " ".intercalate pieces := by
  rcases List.mem_append.mp hline with hname | hline
  · exact ⟨[line], by simpa using (h.read_loneName hname).1, by simp⟩
  · obtain ⟨i, hi, rfl⟩ := Option.map_eq_some_iff.mp (Option.mem_toList.mp hline)
    exact ⟨i.pieces, Instruction.blankFree_pieces (h.label_word hi) (h.operandTexts_blankFree hi), rfl⟩

theorem readings_sourceText (h : WellFormed labels program) :
    readings (labels.sourceText program) =
      (List.range (program.size + 1)).flatMap (labels.readingsAt program) := by
  have hends : ∀ line ∈ (List.range (program.size + 1)).flatMap (labels.linesAt program),
      '\n' ∉ line.toList ∧ '\r' ∉ line.toList := by
    intro line hline
    obtain ⟨index, -, hline⟩ := List.mem_flatMap.mp hline
    obtain ⟨pieces, hfree, rfl⟩ := h.exists_pieces hline
    exact ⟨Text.not_mem_intercalate hfree (by decide) (by decide),
      Text.not_mem_intercalate hfree (by decide) (by decide)⟩
  rw [readings, LabelTable.sourceText, Text.lines_join hends, List.map_flatMap]
  congr 1
  funext index
  exact h.map_read_linesAt index

end WellFormed

/-- Every well-formed pair of a label table and a program is assembled from its source text, and nothing in
this text is degraded. -/
theorem ofSource_sourceText {labels : LabelTable} {program : Program} (h : WellFormed labels program) :
    Assembly.ofSource (labels.sourceText program) = .ok { labels, program, degradations := [] } := by
  rw [Assembly.ofSource_eq_ok_iff, h.readings_sourceText]
  exact ⟨h.not_clashesAt_readings, h.holds_readings⟩

/-- A label spelled like a number, one spelled like an opcode, the extreme words, a branch without a target and
a label behind the last instruction. -/
theorem ofSource_sourceText_of_extremes :
    ∃ labels program, WellFormed labels program ∧
      labels.sourceText program = "5\nout lin 4294967295 -2147483648\nbnz 0 \nend\n" ∧
      Assembly.ofSource (labels.sourceText program) = .ok { labels, program, degradations := [] } := by
  have h : WellFormed ⟨[("5", 0), ("out", 0), ("end", 2)], by decide, by decide⟩
      #[{ label? := some "out", operation := .lin 4294967295 (-2147483648) },
        { label? := none, operation := .bnz 0 "" }] := by decide +kernel
  exact ⟨_, _, h, by decide +kernel, ofSource_sourceText h⟩

end RegAsm
