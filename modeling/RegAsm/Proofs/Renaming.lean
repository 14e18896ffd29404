import RegAsm.Proofs.Rewriting
import RegAsm.Proofs.SourceText

/-! Labels under other names. A renaming gives every word a new one, different words different ones, and leaves
opcodes alone. The labels and the branch targets of a source are renamed where they stand, and then every line
says what it said before, under the new names. The reading of a line tries words as numbers, and a new name may
be a number where the old one was none; all the same no line changes its shape. -/

namespace RegAsm

open Text (IsWord)
open Source (Shape operandAt)

/-- New names for words. -/
structure Renaming where
  toFun : Subtype IsWord → Subtype IsWord
  injective : Function.Injective toFun
  /-- A word that names an opcode keeps its name. -/
  opcode : ∀ word, Opcode.ofToken? word.1 ≠ none → toFun word = word
  /-- No other word is turned into an opcode. -/
  other : ∀ word, Opcode.ofToken? word.1 = none → Opcode.ofToken? (toFun word).1 = none

namespace Renaming

/-- The new name of a text. A text that is no word, as the missing target of a branch, has no other name. -/
def name (r : Renaming) (text : String) : String := if h : IsWord text then (r.toFun ⟨text, h⟩).1 else text

instance : CoeFun Renaming fun _ => String → String := ⟨name⟩

theorem name_of_isWord (r : Renaming) {text : String} (h : IsWord text) : r text = (r.toFun ⟨text, h⟩).1 :=
  dif_pos h

theorem name_of_not_isWord (r : Renaming) {text : String} (h : ¬ IsWord text) : r text = text :=
  dif_neg h

@[simp] theorem name_empty (r : Renaming) : r "" = "" :=
  r.name_of_not_isWord (by decide)

theorem isWord_name_iff (r : Renaming) {text : String} : IsWord (r text) ↔ IsWord text := by
  by_cases h : IsWord text
  · rw [r.name_of_isWord h]
    exact iff_of_true (r.toFun ⟨text, h⟩).2 h
  · rw [r.name_of_not_isWord h]

theorem name_injective (r : Renaming) : Function.Injective r.name := by
  intro text other heq
  by_cases h : IsWord text
  · have h' : IsWord other := r.isWord_name_iff.mp (heq ▸ r.isWord_name_iff.mpr h)
    rw [r.name_of_isWord h, r.name_of_isWord h'] at heq
    exact congrArg Subtype.val (r.injective (Subtype.ext heq))
  · have h' : ¬ IsWord other := fun h' => h (r.isWord_name_iff.mp (heq ▸ r.isWord_name_iff.mpr h'))
    rwa [r.name_of_not_isWord h, r.name_of_not_isWord h'] at heq

@[simp] theorem ofToken?_name (r : Renaming) (text : String) : Opcode.ofToken? (r text) = Opcode.ofToken? text := by
  by_cases h : IsWord text
  · rw [r.name_of_isWord h]
    cases hop : Opcode.ofToken? text with
    | none => exact r.other ⟨text, h⟩ hop
    | some op => rw [r.opcode ⟨text, h⟩ (by simp [hop]), hop]
  · rw [r.name_of_not_isWord h]

end Renaming

/-! ### Renamed sources -/

namespace Source

/-- The places of the words on a line that are names of labels: the label of the line, and the target of a
branch, which comes behind the opcode and a register. -/
def Shape.namePlaces : Shape → List Nat
  | .blank => []
  | .label _ | .dropped .. => [0]
  | .unlabelled .bnz _ => [2]
  | .unlabelled .. => []
  | .labelled _ .bnz _ => [0, 3]
  | .labelled .. => [0]

end Source

namespace Renaming

variable (r : Renaming)

/-- The words of a line, with new names at these places. -/
def wordAt (places : List Nat) (place : Nat) (word : String) : String :=
  if place ∈ places then r word else word

/-- A line with its label and its branch target renamed. -/
def line (line : String) : String := Text.mapWords (r.wordAt (Shape.ofWords (Text.words line)).namePlaces) line

/-- A source with the label and the branch target of each line renamed. -/
def source (source : String) : String := Text.mapLines r.line source

/-- The words of a renamed line. -/
def words (words : List String) : List String := words.mapIdx (r.wordAt (Shape.ofWords words).namePlaces)

theorem isWord_wordAt (places : List Nat) (place : Nat) (word : String) (h : IsWord word) :
    IsWord (r.wordAt places place word) := by
  unfold wordAt
  split
  · exact r.isWord_name_iff.mpr h
  · exact h

theorem words_line (line : String) : Text.words (r.line line) = r.words (Text.words line) :=
  Text.words_mapWords (r.isWord_wordAt _) line

theorem map_words_lines_source (source : String) :
    (Text.lines (r.source source)).map Text.words = ((Text.lines source).map Text.words).map r.words := by
  apply Text.map_words_lines_mapLines
  · intro line
    exact Text.mem_of_mem_mapWords (r.isWord_wordAt _) (by decide)
  · exact fun line => Text.mapWords_eq_empty_iff (r.isWord_wordAt _) line
  · exact r.words_line

/-! ### Renamed lines -/

/-- The operand words of an opcode, the target of a branch renamed. -/
def operands (op : Opcode) (operands : List String) : List String :=
  if op = .bnz then operands.modify 1 r else operands

/-- New names at several places are given one after the other. -/
theorem mapIdx_wordAt {places : List Nat} (h : places.Nodup) (words : List String) :
    words.mapIdx (r.wordAt places) = places.foldr (fun place words => words.modify place r) words := by
  induction places with
  | nil =>
      apply List.ext_getElem?
      intro index
      rw [List.getElem?_mapIdx, List.foldr_nil]
      cases words[index]? <;> simp [wordAt]
  | cons place places ih =>
      obtain ⟨hplace, hplaces⟩ := List.nodup_cons.mp h
      rw [List.foldr_cons, ← ih hplaces]
      apply List.ext_getElem?
      intro index
      rw [List.getElem?_modify, List.getElem?_mapIdx, List.getElem?_mapIdx]
      by_cases hindex : place = index
      · subst hindex
        cases words[place]? <;> simp [wordAt, hplace]
      · cases words[index]? <;> simp [wordAt, hindex, Ne.symm hindex]

theorem words_eq_foldr (words : List String) :
    r.words words = (Shape.ofWords words).namePlaces.foldr (fun place words => words.modify place r) words := by
  apply r.mapIdx_wordAt
  fun_cases Shape.namePlaces (Shape.ofWords words) <;> decide

theorem operandAt_modify (operands : List String) (place index : Nat) :
    operandAt (operands.modify place r) index =
      if place = index then r (operandAt operands index) else operandAt operands index := by
  unfold operandAt
  rw [List.getD_eq_getElem?_getD, List.getD_eq_getElem?_getD, List.getElem?_modify]
  cases operands[index]? <;> simp

end Renaming

def Operation.rename (r : Renaming) : Operation → Operation
  | .bnz register target => .bnz register (r target)
  | operation => operation

def Instruction.rename (r : Renaming) (i : Instruction) : Instruction where
  label? := i.label?.map r
  operation := i.operation.rename r

theorem Instruction.opcode_rename (r : Renaming) (i : Instruction) : (i.rename r).opcode = i.opcode := by
  obtain ⟨label?, operation⟩ := i
  cases operation <;> rfl

namespace Source

variable (r : Renaming)

theorem operationAt_operands (op : Opcode) (operands : List String) :
    operationAt (r.operands op operands) op = (operationAt operands op).rename r := by
  cases op with
  | bnz => simp [Renaming.operands, operationAt, registerAt, Renaming.operandAt_modify, Operation.rename]
  | add | sub | mul | div | lin | out => rfl

/-- Any word will do for a target. -/
theorem malformedAt_operands (op : Opcode) (operands : List String) :
    malformedAt op (r.operands op operands) = malformedAt op operands := by
  cases op with
  | bnz => simp [Renaming.operands, malformedAt_eq_flatMap, Opcode.fields, Renaming.operandAt_modify, Field.accepts]
  | add | sub | mul | div | lin | out => rfl

theorem complete_operands_iff (op : Opcode) (operands : List String) :
    Complete op (r.operands op operands) ↔ Complete op operands := by
  rw [← malformedAt_eq_nil_iff, malformedAt_operands, malformedAt_eq_nil_iff]

namespace Shape

def rename : Shape → Shape
  | .blank => .blank
  | .label name => .label (r name)
  | .unlabelled op operands => .unlabelled op (r.operands op operands)
  | .labelled name op operands => .labelled (r name) op (r.operands op operands)
  | .dropped name token => .dropped (r name) token

theorem words_of_unlabelled {word : String} {words : List String} {op : Opcode}
    (h : ofWords (word :: words) = .unlabelled op words) : r.words (word :: words) = word :: r.operands op words := by
  rw [r.words_eq_foldr, h]
  cases op <;> rfl

theorem words_of_labelled {name token : String} {words : List String} {op : Opcode}
    (h : ofWords (name :: token :: words) = .labelled name op words) :
    r.words (name :: token :: words) = r name :: token :: r.operands op words := by
  rw [r.words_eq_foldr, h]
  cases op <;> rfl

/-- No line changes its shape. Behind an unlabelled branch any word will do for the target, also a number; and
behind a label that is spelled like an opcode stands another opcode, so what this label would need for an instruction
is not there, whatever becomes of the target further on. -/
theorem ofWords_rename (words : List String) : ofWords (r.words words) = (ofWords words).rename r := by
  match words with
  | [] => rfl
  | [word] =>
      cases hop : Opcode.ofToken? word with
      | none =>
          have hshape : ofWords [word] = .label word := by rw [ofWords, hop]
          rw [r.words_eq_foldr, hshape]
          show ofWords [r word] = .label (r word)
          rw [ofWords, r.ofToken?_name, hop]
      | some op =>
          have hshape : ofWords [word] = .unlabelled op [] := by rw [ofWords, hop]
          have hnone : r.operands op [] = [] := by cases op <;> rfl
          rw [words_of_unlabelled r hshape, hshape, rename, hnone, hshape]
  | first :: second :: rest =>
      by_cases hcomplete : ∃ op, Opcode.ofToken? first = some op ∧ Complete op (second :: rest)
      · obtain ⟨op, hop, hcomplete⟩ := hcomplete
        have hshape := ofWords_of_complete hop hcomplete
        obtain ⟨rest', hrest⟩ : ∃ rest', r.operands op (second :: rest) = second :: rest' := by
          cases op <;> exact ⟨_, rfl⟩
        have hcomplete' : Complete op (second :: rest') := by rwa [← hrest, complete_operands_iff]
        rw [words_of_unlabelled r hshape, hshape, rename, hrest, ofWords_of_complete hop hcomplete']
      · have hcomplete : ∀ op, Opcode.ofToken? first = some op → ¬ Complete op (second :: rest) :=
          fun op hop hall => hcomplete ⟨op, hop, hall⟩
        have hshape := ofWords_of_not_complete hcomplete
        cases hop : Opcode.ofToken? second with
        | none =>
            rw [hop] at hshape
            rw [r.words_eq_foldr, hshape]
            show ofWords (r first :: second :: rest) = .dropped (r first) second
            rw [ofWords_of_not_complete (by simpa using hcomplete), hop]
        | some op =>
            rw [hop] at hshape
            rw [words_of_labelled r hshape, hshape, rename, ofWords_of_second hop]

end Shape

theorem shapes_source (source : String) : shapes (r.source source) = (shapes source).map (Shape.rename r) := by
  have hshapes : ∀ source, shapes source = ((Text.lines source).map Text.words).map Shape.ofWords := by
    intro source
    rw [List.map_map]
    rfl
  rw [hshapes, hshapes, r.map_words_lines_source]
  simp only [List.map_map]
  apply List.map_congr_left
  intro line _
  exact Shape.ofWords_rename r (Text.words line)

def Line.rename : Line → Line
  | .blank => .blank
  | .label name => .label (r name)
  | .instruction i malformed => .instruction (i.rename r) malformed
  | .unknown name token => .unknown (r name) token

theorem Shape.line_rename (shape : Shape) : (shape.rename r).line = shape.line.rename r := by
  cases shape with
  | blank | label | dropped => rfl
  | unlabelled op operands | labelled name op operands =>
      simp only [rename, line, operationAt_operands, malformedAt_operands]
      rfl

theorem readings_source (source : String) : readings (r.source source) = (readings source).map (Line.rename r) := by
  rw [readings_eq_map_line, readings_eq_map_line, shapes_source, List.map_map, List.map_map]
  apply List.map_congr_left
  intro shape _
  exact Shape.line_rename r shape

namespace Line

theorem label?_rename (line : Line) : (line.rename r).label? = line.label?.map r := by
  cases line <;> rfl

theorem defined?_rename (line : Line) : (line.rename r).defined? = line.defined?.map r := by
  cases line <;> rfl

theorem instruction?_rename (line : Line) :
    (line.rename r).instruction? = line.instruction?.map (Instruction.rename r) := by
  cases line <;> rfl

theorem degradations_rename (number : Nat) (line : Line) :
    (line.rename r).degradations number = line.degradations number := by
  cases line with
  | instruction i malformed => simp only [rename, degradations, Instruction.opcode_rename]
  | blank | label | unknown => rfl

end Line

end Source

end RegAsm
