import RegAsm.Proofs.Guarantees

/-! What a listing tells. The text of an instruction is made up of words that stand at fixed places, so the opcode is
known from its own word and each operand from the word at its place; a label is set off by its colon, since no mnemonic
ends in one. Labels and targets without blanks cannot blur this, whatever else they are made of. Hence a listing
determines its program, and the printed labels determine their names. -/

namespace RegAsm

open Text (BlankFree)
open Text.Decimal (writeUInt32 writeInt32 readUInt32?_writeUInt32 readInt32?_writeInt32 writeUInt32_ne_empty
  writeInt32_ne_empty blankFree_writeUInt32 blankFree_writeInt32)
open Source (operandAt registerAt literalAt)

/-- A word that is left out at the very end is found empty at its place all the same. -/
theorem Source.operandAt_filter {words : List String} (last : String) (h : ∀ word ∈ words, word ≠ "")
    (place : Nat) : operandAt ((words ++ [last]).filter (· ≠ "")) place = operandAt (words ++ [last]) place := by
  have hwords : words.filter (· ≠ "") = words := List.filter_eq_self.mpr (by simpa using h)
  rw [List.filter_append, hwords]
  by_cases hlast : last = ""
  · subst hlast
    rw [List.filter_cons_of_neg (by simp), List.filter_nil, List.append_nil, operandAt, operandAt,
      List.getD_eq_getElem?_getD, List.getD_eq_getElem?_getD]
    rcases Nat.lt_or_ge place words.length with hlt | hge
    · rw [List.getElem?_append_left hlt]
    · rw [List.getElem?_append_right hge, List.getElem?_eq_none hge]
      cases place - words.length <;> rfl
  · rw [List.filter_cons_of_pos (by simpa using hlast), List.filter_nil]

/-! ### Operations -/

namespace Operation

/-- The words of the text of an operation. A target comes last and may be empty. -/
def phrases : Operation → List String
  | .add result op1 op2 => ["add", writeUInt32 op1, "+", writeUInt32 op2, "output", "to", writeUInt32 result]
  | .sub result op1 op2 => ["sub", writeUInt32 op1, "-", writeUInt32 op2, "output", "to", writeUInt32 result]
  | .mul result op1 op2 => ["mul", writeUInt32 op1, "*", writeUInt32 op2, "output", "to", writeUInt32 result]
  | .div result op1 op2 =>
      ["div", writeUInt32 op1, "/", writeUInt32 op2, "output", "to", "register", writeUInt32 result]
  | .lin register value => ["lin", "register", writeUInt32 register, "value", "is", writeInt32 value]
  | .out register => ["out", "register", writeUInt32 register]
  | .bnz register target => ["bnz", "register", writeUInt32 register, "jump", "to", target]

/-- The operation of an opcode whose text has these words. -/
def ofPhrases (words : List String) : Opcode → Operation
  | .add => .add (registerAt words 6) (registerAt words 1) (registerAt words 3)
  | .sub => .sub (registerAt words 6) (registerAt words 1) (registerAt words 3)
  | .mul => .mul (registerAt words 6) (registerAt words 1) (registerAt words 3)
  | .div => .div (registerAt words 7) (registerAt words 1) (registerAt words 3)
  | .lin => .lin (registerAt words 2) (literalAt words 5)
  | .out => .out (registerAt words 2)
  | .bnz => .bnz (registerAt words 2) (operandAt words 5)

variable {operation other : Operation}

theorem describe_eq_intercalate (operation : Operation) :
    operation.describe = " ".intercalate operation.phrases := by
  apply String.toList_inj.mp
  -- Unfolded as a whole: the equations of `describe`, one for each operation, take long to derive.
  delta describe
  cases operation <;> simp [phrases]

theorem blankFree_phrases (h : ∀ target ∈ operation.target?, BlankFree target) :
    ∀ phrase ∈ operation.phrases, BlankFree phrase := by
  have hfixed : ∀ word ∈ ["add", "sub", "mul", "div", "lin", "out", "bnz", "+", "-", "*", "/", "output", "to",
      "register", "value", "is", "jump"], BlankFree word := by decide
  cases operation with
  | bnz register target => simp_all [phrases, target?, blankFree_writeUInt32]
  | _ => simp_all [phrases, blankFree_writeUInt32, blankFree_writeInt32]

/-- The words of the text, as they are found there. -/
def words (operation : Operation) : List String := operation.phrases.filter (· ≠ "")

theorem head?_words (operation : Operation) : operation.words.head? = some operation.opcode.mnemonic := by
  cases operation <;> rfl

theorem operandAt_words (operation : Operation) (place : Nat) :
    operandAt operation.words place = operandAt operation.phrases place := by
  have hlast : ∃ before last, operation.phrases = before ++ [last] ∧ ∀ phrase ∈ before, phrase ≠ "" := by
    cases operation <;>
      exact ⟨_, _, (List.dropLast_concat_getLast (List.cons_ne_nil _ _)).symm, by
        simp [writeUInt32_ne_empty]⟩
  obtain ⟨before, last, hphrases, hbefore⟩ := hlast
  rw [words, hphrases, Source.operandAt_filter last hbefore]

theorem ofPhrases_words (operation : Operation) : ofPhrases operation.words operation.opcode = operation := by
  cases operation <;>
    simp [ofPhrases, opcode, registerAt, literalAt, operandAt_words, phrases, readUInt32?_writeUInt32,
      readInt32?_writeInt32]

theorem words_injective (h : operation.words = other.words) : operation = other := by
  have hmnemonic : operation.opcode.mnemonic = other.opcode.mnemonic := by
    rw [← Option.some.injEq, ← head?_words, ← head?_words, h]
  have hopcode : operation.opcode = other.opcode := by
    rw [← Option.some.injEq, ← Opcode.ofToken?_mnemonic, ← Opcode.ofToken?_mnemonic, hmnemonic]
  rw [← ofPhrases_words operation, ← ofPhrases_words other, h, hopcode]

/-- The first word is a mnemonic, which does not end in a colon as a label does. -/
theorem words_ne_cons_label (operation : Operation) (label : String) (rest : List String) :
    operation.words ≠ (label ++ ":") :: rest := by
  intro h
  have hmnemonic : operation.opcode.mnemonic = label ++ ":" := by
    rw [← Option.some.injEq, ← head?_words, h, List.head?_cons]
  have hletter : ∀ op : Opcode, op.mnemonic.toList.getLast? ≠ some ':' := by
    intro op
    cases op <;> decide
  apply hletter operation.opcode
  rw [hmnemonic, String.toList_append]
  simp

end Operation

/-! ### Instructions -/

namespace Instruction

/-- Neither the label nor the branch target of the instruction has a blank in it. -/
def WithoutBlanks (i : Instruction) : Prop :=
  (∀ label ∈ i.label?, BlankFree label) ∧ ∀ target ∈ i.operation.target?, BlankFree target

instance (i : Instruction) : Decidable i.WithoutBlanks := inferInstanceAs (Decidable (_ ∧ _))

/-- The words of the text of an instruction. -/
def phrases (i : Instruction) : List String := (i.label?.map (· ++ ":")).toList ++ i.operation.phrases

variable {i j : Instruction}

theorem describe_eq_intercalate (i : Instruction) : i.describe = " ".intercalate i.phrases := by
  obtain ⟨label?, operation⟩ := i
  cases label? with
  | none => exact operation.describe_eq_intercalate
  | some label =>
      obtain ⟨first, rest, hphrases⟩ : ∃ first rest, operation.phrases = first :: rest := by
        cases operation <;> exact ⟨_, _, rfl⟩
      simp only [describe, phrases, operation.describe_eq_intercalate, hphrases, Option.map_some, Option.toList_some,
        List.singleton_append, String.intercalate_cons_cons, String.append_assoc]
      rfl

theorem blankFree_phrases (h : i.WithoutBlanks) : ∀ phrase ∈ i.phrases, BlankFree phrase := by
  intro phrase hphrase
  rcases List.mem_append.mp hphrase with hphrase | hphrase
  · obtain ⟨label, hlabel, rfl⟩ := Option.map_eq_some_iff.mp (Option.mem_toList.mp hphrase)
    exact (h.1 label hlabel).append (by decide)
  · exact Operation.blankFree_phrases h.2 phrase hphrase

theorem words_describe (h : i.WithoutBlanks) :
    Text.words i.describe = (i.label?.map (· ++ ":")).toList ++ i.operation.words := by
  have hlabel : (i.label?.map (· ++ ":")).toList.filter (· ≠ "") = (i.label?.map (· ++ ":")).toList := by
    rw [List.filter_eq_self]
    intro word hword
    obtain ⟨label, -, rfl⟩ := Option.map_eq_some_iff.mp (Option.mem_toList.mp hword)
    simp
  rw [describe_eq_intercalate, Text.words_intercalate (blankFree_phrases h), phrases, List.filter_append, hlabel,
    Operation.words]

theorem describe_injective (hi : i.WithoutBlanks) (hj : j.WithoutBlanks) (h : i.describe = j.describe) : i = j := by
  obtain ⟨label?, operation⟩ := i
  obtain ⟨other?, other⟩ := j
  have hwords : (label?.map (· ++ ":")).toList ++ operation.words = (other?.map (· ++ ":")).toList ++ other.words :=
    (words_describe hi).symm.trans ((congrArg Text.words h).trans (words_describe hj))
  cases label? with
  | none =>
      cases other? with
      | none =>
          obtain rfl : operation = other := Operation.words_injective hwords
          rfl
      | some label => exact absurd hwords (operation.words_ne_cons_label label other.words)
  | some label =>
      cases other? with
      | none => exact absurd hwords.symm (other.words_ne_cons_label label operation.words)
      | some label' =>
          obtain ⟨hlabel, hoperation⟩ := List.cons.inj hwords
          obtain rfl : label = label' := (String.append_left_inj ":").mp hlabel
          obtain rfl : operation = other := Operation.words_injective hoperation
          rfl

end Instruction

/-! ### Programs -/

namespace Program

variable {program other : Program}

/-- A listing has the texts of the instructions as its lines. -/
theorem lines_listing (h : ∀ i ∈ program, i.WithoutBlanks) : Text.lines program.listing = program.describe := by
  apply Text.lines_join
  intro line hline
  obtain ⟨i, hi, rfl⟩ := List.mem_map.mp hline
  have hfree := Instruction.blankFree_phrases (h i (Array.mem_toList_iff.mp hi))
  rw [i.describe_eq_intercalate]
  exact ⟨Text.not_mem_intercalate hfree (by decide) (by decide),
    Text.not_mem_intercalate hfree (by decide) (by decide)⟩

theorem getElem?_describe (program : Program) (index : Nat) :
    program.describe[index]? = program[index]?.map Instruction.describe := by
  rw [describe, List.getElem?_map, Array.getElem?_toList]

theorem listing_injective (h : ∀ i ∈ program, i.WithoutBlanks) (h' : ∀ i ∈ other, i.WithoutBlanks)
    (hlisting : program.listing = other.listing) : program = other := by
  apply Array.ext_getElem?
  intro index
  have htexts : program[index]?.map Instruction.describe = other[index]?.map Instruction.describe := by
    rw [← getElem?_describe, ← getElem?_describe, ← lines_listing h, ← lines_listing h', hlisting]
  cases hi : program[index]? with
  | none =>
      rw [hi] at htexts
      exact (Option.map_eq_none_iff.mp htexts.symm).symm
  | some i =>
      rw [hi] at htexts
      obtain ⟨j, hj, hdescribe⟩ := Option.map_eq_some_iff.mp htexts.symm
      rw [hj, Instruction.describe_injective (h i (Array.mem_of_getElem? hi)) (h' j (Array.mem_of_getElem? hj))
        hdescribe.symm]

end Program

/-! ### Labels -/

namespace LabelTable

/-- The names as they are printed, with a comma behind each of them but the last. -/
def withCommas : List String → List String
  | [] => []
  | [name] => [name]
  | name :: next :: rest => (name ++ ",") :: withCommas (next :: rest)

theorem length_withCommas (names : List String) : (withCommas names).length = names.length := by
  fun_induction withCommas names with
  | case1 => rfl
  | case2 name => rfl
  | case3 name next rest ih =>
      rw [List.length_cons, ih]
      rfl

theorem intercalate_withCommas (names : List String) :
    ", ".intercalate names = " ".intercalate (withCommas names) := by
  fun_induction withCommas names with
  | case1 => rfl
  | case2 name => simp
  | case3 name next rest ih =>
      obtain ⟨first, more, hmore⟩ : ∃ first more, withCommas (next :: rest) = first :: more :=
        List.exists_cons_of_length_pos (by simp [length_withCommas])
      rw [String.intercalate_cons_cons, ih, hmore, String.intercalate_cons_cons, String.append_assoc,
        String.append_assoc, String.append_assoc]
      rfl

theorem withCommas_injective {names others : List String} (h : withCommas names = withCommas others) :
    names = others := by
  have hlength : names.length = others.length := by
    rw [← length_withCommas, h, length_withCommas]
  fun_induction withCommas names generalizing others with
  | case1 => exact (List.length_eq_zero_iff.mp hlength.symm).symm
  | case2 name =>
      obtain ⟨other, rfl⟩ := List.length_eq_one_iff.mp hlength.symm
      exact h
  | case3 name next rest ih =>
      match others, h, hlength with
      | other :: next' :: rest', h, hlength =>
          obtain ⟨hname, hrest⟩ := List.cons.inj h
          rw [(String.append_left_inj ",").mp hname, ih hrest (Nat.succ.inj hlength)]

theorem mem_withCommas {names : List String} {word : String} (h : word ∈ withCommas names) :
    ∃ name ∈ names, word = name ∨ word = name ++ "," := by
  fun_induction withCommas names with
  | case1 => exact absurd h List.not_mem_nil
  | case2 name => exact ⟨name, List.mem_cons_self, Or.inl (List.mem_singleton.mp h)⟩
  | case3 name next rest ih =>
      rcases List.mem_cons.mp h with rfl | h
      · exact ⟨name, List.mem_cons_self, Or.inr rfl⟩
      · obtain ⟨name', hmem, hword⟩ := ih h
        exact ⟨name', List.mem_cons_of_mem _ hmem, hword⟩

variable {labels other : LabelTable}

theorem words_intercalate_names (h : ∀ name ∈ labels.names, BlankFree name) :
    Text.words (", ".intercalate labels.names) = withCommas labels.names := by
  have hfree : ∀ word ∈ withCommas labels.names, BlankFree word := by
    intro word hword
    obtain ⟨name, hname, rfl | rfl⟩ := mem_withCommas hword
    · exact h word hname
    · exact (h name hname).append (by decide)
  rw [intercalate_withCommas, Text.words_intercalate hfree, List.filter_eq_self]
  intro word hword
  obtain ⟨name, hname, rfl | rfl⟩ := mem_withCommas hword
  · have hne : word ≠ "" := fun hempty => labels.named (hempty ▸ hname)
    simpa using hne
  · simp

theorem names_eq_of_render (h : ∀ name ∈ labels.names, BlankFree name)
    (h' : ∀ name ∈ other.names, BlankFree name) (hrender : labels.render = other.render) : labels.names = other.names := by
  have hprinted : ", ".intercalate labels.names = ", ".intercalate other.names :=
    (String.append_right_inj "(").mp ((String.append_left_inj ")").mp hrender)
  apply withCommas_injective
  rw [← words_intercalate_names h, ← words_intercalate_names h', hprinted]

end LabelTable

/-! ### What was assembled -/

namespace WellFormed

variable {labels : LabelTable} {program : Program}

theorem withoutBlanks (h : WellFormed labels program) : ∀ i ∈ program, i.WithoutBlanks := by
  intro i hi
  obtain ⟨index, hindex⟩ := Array.mem_iff_getElem?.mp hi
  exact ⟨fun label hlabel => (h.label_word hindex label hlabel).1, h.targets i hi⟩

theorem blankFree_names (h : WellFormed labels program) : ∀ name ∈ labels.names, BlankFree name := by
  intro name hname
  obtain ⟨e, he, rfl⟩ := List.mem_map.mp hname
  exact h.names e he

end WellFormed

/-- What was assembled is known from what is printed of it: the listing determines the program, and the text of the
labels determines their names and the order of their definition. A listing has one line for each instruction, which
is its text, and each line is ended by a line feed. Instructions without blanks in label and target are told apart by
their texts. -/
theorem listing_determines_program :
    (∀ (source other : String) (assembly assembly' : Assembly), Assembly.ofSource source = .ok assembly →
      Assembly.ofSource other = .ok assembly' →
      (assembly.program.listing = assembly'.program.listing → assembly.program = assembly'.program) ∧
      (assembly.labels.render = assembly'.labels.render → assembly.labels.names = assembly'.labels.names)) ∧
    (∀ (source : String) (assembly : Assembly), Assembly.ofSource source = .ok assembly →
      (Text.lines assembly.program.listing).length = assembly.program.size ∧
      String.join ((Text.lines assembly.program.listing).map (· ++ "\n")) = assembly.program.listing ∧
      ∀ index : Nat, (Text.lines assembly.program.listing)[index]? =
        assembly.program[index]?.map Instruction.describe) ∧
    ∀ i j : Instruction, i.WithoutBlanks → j.WithoutBlanks → i.describe = j.describe → i = j := by
  refine ⟨fun source other assembly assembly' h h' => ⟨fun hlisting => ?_, fun hrender => ?_⟩,
    fun source assembly h => ?_, fun i j => Instruction.describe_injective⟩
  · exact Program.listing_injective (WellFormed.ofSource h).withoutBlanks (WellFormed.ofSource h').withoutBlanks
      hlisting
  · exact LabelTable.names_eq_of_render (WellFormed.ofSource h).blankFree_names
      (WellFormed.ofSource h').blankFree_names hrender
  · rw [Program.lines_listing (WellFormed.ofSource h).withoutBlanks]
    exact ⟨by rw [Program.describe, List.length_map, Array.length_toList], rfl, Program.getElem?_describe _⟩

/-- A label spelled like an opcode, labels that end in a colon or a comma, and a branch without a target: two sources
of different looks are printed alike, and a colon at the end of a label is not lost. -/
theorem listing_determines_program_of_colons : ∃ assembly assembly',
    Assembly.ofSource "out OUT 01\nadd: bnz 2\nx,\ny," = .ok assembly ∧
    Assembly.ofSource " out  out 1 \n\nadd:\tBnz +2\nx,\ny," = .ok assembly' ∧
    assembly.program.listing = "out: out register 1\nadd:: bnz register 2 jump to \n" ∧
    assembly.labels.render = "(out, add:, x,, y,)" ∧
    assembly.program = assembly'.program ∧ assembly.labels.names = assembly'.labels.names ∧
    (Text.lines assembly.program.listing).length = assembly.program.size ∧
    Instruction.describe ⟨some "add:", .out 1⟩ ≠ Instruction.describe ⟨some "add", .out 1⟩ := by
  have hpass : (Assembly.pass "out OUT 01\nadd: bnz 2\nx,\ny,").error? = none ∧
      (Assembly.pass " out  out 1 \n\nadd:\tBnz +2\nx,\ny,").error? = none := by decide +kernel
  have hprinted : (Assembly.pass "out OUT 01\nadd: bnz 2\nx,\ny,").assembly.program.listing =
        "out: out register 1\nadd:: bnz register 2 jump to \n" ∧
      (Assembly.pass "out OUT 01\nadd: bnz 2\nx,\ny,").assembly.labels.render = "(out, add:, x,, y,)" ∧
      (Assembly.pass " out  out 1 \n\nadd:\tBnz +2\nx,\ny,").assembly.program.listing =
        "out: out register 1\nadd:: bnz register 2 jump to \n" ∧
      (Assembly.pass " out  out 1 \n\nadd:\tBnz +2\nx,\ny,").assembly.labels.render = "(out, add:, x,, y,)" := by
    decide +kernel
  obtain ⟨hlisting, hlabels, hlisting', hlabels'⟩ := hprinted
  have h := Assembly.ofSource_of_pass _ hpass.1
  have h' := Assembly.ofSource_of_pass _ hpass.2
  obtain ⟨hsame, hshape, htexts⟩ := listing_determines_program
  obtain ⟨hprogram, hnames⟩ := hsame _ _ _ _ h h'
  refine ⟨_, _, h, h', hlisting, hlabels, hprogram (hlisting.trans hlisting'.symm),
    hnames (hlabels.trans hlabels'.symm), (hshape _ _ h).1, fun hdescribe => ?_⟩
  exact absurd (htexts _ _ (by decide) (by decide) hdescribe) (by decide)

end RegAsm
