import RegAsm.Proofs.Degradations
import RegAsm.Proofs.Scanning

/-! How many words an opcode takes. It takes one for each of its fields, or all that are left if these are fewer, and
no word behind them plays a part in what the line says: neither in the numbers that are read, nor in the decision
whether the first word of the line is its label or its opcode. -/

namespace RegAsm

namespace Text

/-- A blank keeps the two texts apart, unless one of them is empty. -/
def Apart (line more : String) : Prop :=
  (∀ c ∈ line.toList.getLast?, isBlank c = true) ∨ ∀ c ∈ more.toList.head?, isBlank c = true

theorem wordsOf_append_of_getLast? {text : List Char} (h : ∀ c ∈ text.getLast?, isBlank c = true) (more : List Char) :
    wordsOf (text ++ more) = wordsOf text ++ wordsOf more := by
  rcases List.eq_nil_or_concat text with rfl | ⟨front, c, rfl⟩
  · rw [List.nil_append, wordsOf_nil, List.nil_append]
  · have hc : isBlank c = true := h c (by simp)
    rw [List.concat_eq_append, List.append_assoc, List.singleton_append, wordsOf_append_blank_cons hc,
      wordsOf_append_blank_cons hc, wordsOf_nil, List.append_nil]

theorem wordsOf_append_of_head? {more : List Char} (h : ∀ c ∈ more.head?, isBlank c = true) (text : List Char) :
    wordsOf (text ++ more) = wordsOf text ++ wordsOf more := by
  cases more with
  | nil => rw [List.append_nil, wordsOf_nil, List.append_nil]
  | cons c more =>
      have hc : isBlank c = true := h c rfl
      rw [wordsOf_append_blank_cons hc, wordsOf_cons_blank hc]

theorem Apart.words_append {line more : String} (h : Apart line more) :
    words (line ++ more) = words line ++ words more := by
  have hwords : wordsOf (line.toList ++ more.toList) = wordsOf line.toList ++ wordsOf more.toList := by
    rcases h with hline | hmore
    · exact wordsOf_append_of_getLast? hline more.toList
    · exact wordsOf_append_of_head? hmore line.toList
  rw [words, String.toList_append, hwords, List.map_append, words, words]

end Text

theorem Opcode.operandCount_pos (op : Opcode) : 0 < op.operandCount := by
  cases op <;> decide

namespace Source

/-! ### Words that play a part -/

section

variable {op : Opcode} {operands : List String} {count place : Nat}

theorem operandAt_take (h : place < count) (operands : List String) :
    operandAt (operands.take count) place = operandAt operands place := by
  rw [operandAt_eq, operandAt_eq, List.getElem?_take_of_lt h]

/-- The places of the fields are all below their number. -/
theorem operationAt_take (operands : List String) (op : Opcode) :
    operationAt (operands.take op.operandCount) op = operationAt operands op := by
  cases op <;>
    simp [operationAt, registerAt, literalAt, operandAt_take, Opcode.operandCount, Opcode.fields]

theorem malformedAt_take (op : Opcode) (operands : List String) :
    malformedAt op (operands.take op.operandCount) = malformedAt op operands := by
  rw [malformedAt, malformedAt]
  congr 1
  apply List.filter_congr
  rintro ⟨field, place⟩ hslot
  have hplace : place < op.operandCount :=
    (List.getElem?_eq_some_iff.mp (List.mem_zipIdx_iff_getElem?.mp hslot)).1
  rw [operandAt_take hplace]

theorem operationAt_append (h : op.operandCount ≤ operands.length) (more : List String) :
    operationAt (operands ++ more) op = operationAt operands op := by
  rw [← operationAt_take, List.take_append_of_le_length h, operationAt_take]

theorem malformedAt_append (h : op.operandCount ≤ operands.length) (more : List String) :
    malformedAt op (operands ++ more) = malformedAt op operands := by
  rw [← malformedAt_take, List.take_append_of_le_length h, malformedAt_take]

theorem Complete.append (hcomplete : Complete op operands) (h : op.operandCount ≤ operands.length)
    (more : List String) : Complete op (operands ++ more) := by
  rw [← malformedAt_eq_nil_iff, malformedAt_append h]
  exact malformedAt_eq_nil_iff.mpr hcomplete

end

/-! ### Lines with more words -/

/-- More words behind an unlabelled instruction are operands that it does not take. -/
theorem Shape.ofWords_append_of_unlabelled {token : String} {op : Opcode} {operands : List String}
    (hop : Opcode.ofToken? token = some op) (hcomplete : Complete op operands)
    (hcount : op.operandCount ≤ operands.length) (more : List String) :
    ofWords (token :: operands ++ more) = .unlabelled op (operands ++ more) := by
  obtain ⟨first, rest, rfl⟩ := List.exists_cons_of_length_pos (Nat.lt_of_lt_of_le op.operandCount_pos hcount)
  exact ofWords_of_complete hop (hcomplete.append hcount more)

namespace Line

theorem ofOperands_append {op : Opcode} {operands : List String} (h : op.operandCount ≤ operands.length)
    (label? : Option String) (more : List String) :
    ofOperands label? op (operands ++ more) = ofOperands label? op operands := by
  rw [ofOperands_eq, operationAt_append h, malformedAt_append h, ofOperands_eq]

variable {words : List String} {i : Instruction} {malformed : List Field}

/-- An instruction line is made up of its label if it has one, its opcode and the operands, and it stays so with more
words behind them. -/
theorem exists_operands (h : ofWords words = .instruction i malformed) :
    ∃ token op operands, words = i.label?.toList ++ token :: operands ∧ Opcode.ofToken? token = some op ∧
      ofOperands i.label? op operands = .instruction i malformed ∧
      (op.operandCount ≤ operands.length →
        ∀ more, ofWords (words ++ more) = ofOperands i.label? op (operands ++ more)) := by
  have hfits := Shape.fits_ofWords words
  rw [Line.ofWords_eq] at h
  generalize Shape.ofWords words = shape at h hfits
  cases hfits with
  | blank | label | dropped => cases h
  | @alone token op hop =>
      cases h
      refine ⟨token, op, [], rfl, hop, ofOperands_eq none op [], fun hcount => ?_⟩
      exact absurd hcount (Nat.not_le_of_lt op.operandCount_pos)
  | @unlabelled token op operands hop hcomplete =>
      cases h
      refine ⟨token, op, operands, rfl, hop, ofOperands_eq none op operands, fun hcount more => ?_⟩
      rw [Line.ofWords_eq, Shape.ofWords_append_of_unlabelled hop hcomplete hcount, ofOperands_eq]
      rfl
  | @labelled name token op operands hop =>
      cases h
      refine ⟨token, op, operands, rfl, hop, ofOperands_eq (some name) op operands, fun _ more => ?_⟩
      have hshape := Shape.ofWords_of_second hop name (operands ++ more)
      rw [Line.ofWords_eq, List.cons_append, List.cons_append, hshape, ofOperands_eq]
      rfl

theorem accounts_of_ofOperands {label? : Option String} {op : Opcode} {operands : List String}
    (h : ofOperands label? op operands = .instruction i malformed) :
    i.opcode = op ∧ Accounts op operands i.operation malformed := by
  rw [ofOperands_eq] at h
  cases h
  exact ⟨opcode_operationAt operands op, accounts_operationAt op operands⟩

end Line

/-! ### Cursors that move -/

namespace Cursor

theorem words_operation_ofLine (line : String) (op : Opcode) :
    ((ofLine line).operation op).2.words = Text.words (String.ofList (Text.behind op.operandCount line.toList)) := by
  rw [words_operation, ofLine, Text.words, Text.words, String.toList_ofList, Text.wordsOf_behind, List.map_drop]

/-- The words that an opcode takes account for its operation. -/
theorem accounts_take (cursor : Cursor) (op : Opcode) :
    Accounts op (cursor.words.take op.operandCount) (cursor.operation op).1 (malformedAt op cursor.words) := by
  rw [fst_operation, ← operationAt_take, ← malformedAt_take]
  exact accounts_operationAt op (cursor.words.take op.operandCount)

end Cursor

/-- An opcode takes one word for each of its fields. An instruction line with enough of them behind its opcode says the
same with any words added to it, so it does the same to every assembly. A cursor moves behind as many words as the
opcode has fields, or behind all that are left, and each field is read off the word at its own place; on the text of
the line it stands where as many scans end. -/
theorem opcode_takes_its_operands :
    (∀ line i malformed, Line.read line = .instruction i malformed →
      ∃ token operands, Text.words line = i.label?.toList ++ token :: operands ∧
        Opcode.ofToken? token = some i.opcode ∧ Accounts i.opcode operands i.operation malformed ∧
        (i.opcode.operandCount ≤ operands.length → ∀ more, Text.Apart line more →
          Text.words (line ++ more) = i.label?.toList ++ token :: operands ++ Text.words more ∧
          Line.read (line ++ more) = .instruction i malformed ∧
          ∀ (assembly : Assembly) number rest, assembly.addLines number (Line.read (line ++ more) :: rest) =
            assembly.addLines number (Line.read line :: rest))) ∧
    (∀ (cursor : Cursor) op, ∃ taken malformed,
      cursor.words = taken ++ (cursor.operation op).2.words ∧
      taken.length = min op.operandCount cursor.words.length ∧
      Accounts op taken (cursor.operation op).1 malformed ∧
      (cursor.operation op).2.malformed = cursor.malformed ++ malformed) ∧
    ∀ line op, ((Cursor.ofLine line).operation op).2.words =
      Text.words (String.ofList (Text.behind op.operandCount line.toList)) := by
  refine ⟨fun line i malformed h => ?_, fun cursor op => ?_, Cursor.words_operation_ofLine⟩
  · obtain ⟨token, op, operands, hwords, hop, hline, hmore⟩ := Line.exists_operands h
    obtain ⟨rfl, haccounts⟩ := Line.accounts_of_ofOperands hline
    refine ⟨token, operands, hwords, hop, haccounts, fun hcount more hapart => ?_⟩
    have hread : Line.read (line ++ more) = .instruction i malformed := by
      rw [Line.read, hapart.words_append, hmore hcount, Line.ofOperands_append hcount, hline]
    refine ⟨by rw [hapart.words_append, hwords], hread, fun assembly number rest => ?_⟩
    rw [hread, h]
  · refine ⟨cursor.words.take op.operandCount, malformedAt op cursor.words, ?_, List.length_take,
      cursor.accounts_take op, cursor.malformed_operation op⟩
    rw [Cursor.words_operation, List.take_append_drop]

/-- The label is spelled like an opcode, the register in the middle is negative and so reported, and a number and an
opcode are added behind the blank at the end. -/
theorem opcode_takes_its_operands_of_label :
    Line.read "lin add 1 -2 3 " =
      .instruction { label? := some "lin", operation := .add 1 2147483647 3 } [.op1] ∧
    Text.Apart "lin add 1 -2 3 " "4 add" ∧
    Line.read ("lin add 1 -2 3 " ++ "4 add") =
      .instruction { label? := some "lin", operation := .add 1 2147483647 3 } [.op1] ∧
    ∀ assembly : Assembly, assembly.addLines 7 [Line.read ("lin add 1 -2 3 " ++ "4 add")] =
      assembly.addLines 7 [Line.read "lin add 1 -2 3 "] := by
  have hread : Line.read "lin add 1 -2 3 " =
      .instruction { label? := some "lin", operation := .add 1 2147483647 3 } [.op1] := by decide +kernel
  have hapart : Text.Apart "lin add 1 -2 3 " "4 add" := by
    have hlast : "lin add 1 -2 3 ".toList.getLast? = some ' ' := by decide +kernel
    refine Or.inl fun c hc => ?_
    obtain rfl := Option.some.inj (hlast.symm.trans hc)
    decide
  obtain ⟨token, operands, hwords, -, -, hmore⟩ := opcode_takes_its_operands.1 _ _ _ hread
  rw [show Text.words "lin add 1 -2 3 " = ["lin", "add", "1", "-2", "3"] by decide +kernel] at hwords
  cases hwords
  obtain ⟨-, hlonger, hassembly⟩ := hmore (by decide) _ hapart
  exact ⟨hread, hapart, hlonger, fun assembly => hassembly assembly 7 []⟩

end Source

end RegAsm
