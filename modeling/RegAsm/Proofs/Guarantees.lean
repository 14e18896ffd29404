import RegAsm.Proofs.SourceText

/-! What every assembly guarantees. The label table and the program that come out of a source are well-formed,
because each line that is taken in keeps them so: its label comes last, at the index of the next instruction,
and that is the index of its own instruction if it has one. -/

namespace RegAsm

open Text (BlankFree)
open Source (Line)

namespace Source

/-! ### Lines -/

/-- What the words of a line are good for: its label is a word, a label that stands alone is no opcode, and a
branch target has no blank in it. -/
structure Line.Sound (line : Line) : Prop where
  label : ∀ name ∈ line.label?, name ≠ "" ∧ BlankFree name
  lone : ∀ name, line = .label name → Opcode.ofToken? name = none
  target : ∀ i ∈ line.instruction?, ∀ target ∈ i.operation.target?, BlankFree target

theorem blankFree_operandAt {operands : List String} (h : ∀ word ∈ operands, BlankFree word) (place : Nat) :
    BlankFree (operandAt operands place) := by
  unfold operandAt
  rw [List.getD_eq_getElem?_getD]
  cases hword : operands[place]? with
  | none => decide
  | some word => exact h word (List.mem_of_getElem? hword)

theorem eq_operandAt_of_target? {op : Opcode} {operands : List String} {target : String}
    (h : (operationAt operands op).target? = some target) : target = operandAt operands 1 := by
  cases op with
  | bnz => exact (Option.some.inj h).symm
  | add | sub | mul | div | lin | out => cases h

namespace Line

theorem sound_ofOperands {label? : Option String} {operands : List String} (op : Opcode)
    (hlabel : ∀ name ∈ label?, name ≠ "" ∧ BlankFree name) (hwords : ∀ word ∈ operands, BlankFree word) :
    (ofOperands label? op operands).Sound := by
  rw [ofOperands_eq]
  refine ⟨hlabel, by simp, ?_⟩
  intro i hi target htarget
  obtain rfl := Option.some.inj hi
  rw [eq_operandAt_of_target? htarget]
  exact blankFree_operandAt hwords 1

theorem sound_ofLabelled {label : String} {operands : List String} (token : String)
    (hlabel : label ≠ "" ∧ BlankFree label) (hwords : ∀ word ∈ operands, BlankFree word) :
    (ofLabelled label token operands).Sound := by
  have hlabel : ∀ name ∈ some label, name ≠ "" ∧ BlankFree name := by simpa using hlabel
  unfold ofLabelled
  cases Opcode.ofToken? token with
  | none => exact ⟨hlabel, by simp, by simp [Line.instruction?]⟩
  | some op => exact sound_ofOperands op hlabel hwords

theorem sound_ofWords {words : List String} (h : ∀ word ∈ words, word ≠ "" ∧ BlankFree word) :
    (ofWords words).Sound := by
  have hunlabelled : ∀ name ∈ (none : Option String), name ≠ "" ∧ BlankFree name := by simp
  match words with
  | [] => exact ⟨hunlabelled, by simp [ofWords], by simp [ofWords, Line.instruction?]⟩
  | [word] =>
      rw [ofWords]
      cases hop : Opcode.ofToken? word with
      | none =>
          refine ⟨by simpa [label?] using h, ?_, by simp [Line.instruction?]⟩
          intro name hname
          cases hname
          exact hop
      | some op => exact sound_ofOperands op hunlabelled (by simp)
  | first :: second :: rest =>
      have hoperands : ∀ word ∈ second :: rest, BlankFree word := fun word hword =>
        (h word (List.mem_cons_of_mem _ hword)).2
      have hlabelled : (ofLabelled first second rest).Sound :=
        sound_ofLabelled second (h first List.mem_cons_self) fun word hword =>
          hoperands word (List.mem_cons_of_mem _ hword)
      rw [ofWords]
      cases Opcode.ofToken? first with
      | none => exact hlabelled
      | some op =>
          dsimp only
          split
          · exact sound_ofOperands op hunlabelled hoperands
          · exact hlabelled

theorem sound_read (line : String) : (Line.read line).Sound :=
  sound_ofWords fun _ hword => Text.mem_words hword

variable {line : Line}

theorem defined?_of_instruction? {i : Instruction} (h : line.instruction? = some i) :
    line.defined? = i.label? := by
  cases line with
  | instruction => cases h; rfl
  | blank | label | unknown => cases h

theorem eq_label_or_own {name : String} (h : line.defined? = some name) :
    line = .label name ∨ line.instruction?.bind Instruction.label? = some name := by
  cases line with
  | label => cases h; exact Or.inl rfl
  | instruction => exact Or.inr h
  | blank | unknown => cases h

theorem Sound.defined?_ne_empty (h : line.Sound) : line.defined? ≠ some "" := fun hdefined =>
  (h.label "" (label?_of_defined? hdefined)).1 rfl

end Line

end Source

/-! ### Taking in a line -/

namespace Assembly

variable {assembly : Assembly} {line : Line}

/-- The label of an instruction counts at the index of the instruction alone. -/
theorem ownLabel?_take (assembly : Assembly) (number : Nat) (line : Line) (index : Nat) :
    (assembly.take number line).program.ownLabel? index =
      if index = assembly.program.size then line.instruction?.bind Instruction.label?
      else assembly.program.ownLabel? index := by
  unfold Program.ownLabel?
  rw [← Array.getElem?_toList, toList_program_take]
  rcases Nat.lt_trichotomy index assembly.program.size with hlt | rfl | hgt
  · rw [List.getElem?_append_left (by simpa using hlt), if_neg (by omega), Array.getElem?_toList]
  · rw [List.getElem?_append_right (by simp), if_pos rfl]
    cases line.instruction? <;> simp
  · have hbehind : assembly.program.size ≤ index := by omega
    have hone : line.instruction?.toList.length ≤ index - assembly.program.size := by
      cases line.instruction? with
      | none => simp
      | some i => rw [Option.toList_some, List.length_singleton]; omega
    rw [List.getElem?_append_right (by simpa using hbehind), if_neg (by omega),
      Array.getElem?_eq_none hbehind, List.getElem?_eq_none (by simpa using hone)]

theorem mem_program_take {number : Nat} {i : Instruction} :
    i ∈ (assembly.take number line).program ↔ i ∈ assembly.program ∨ line.instruction? = some i := by
  rw [← Array.mem_toList_iff, toList_program_take, List.mem_append, Array.mem_toList_iff,
    Option.mem_toList]

theorem size_program_take_le (assembly : Assembly) (number : Nat) (line : Line) :
    assembly.program.size ≤ (assembly.take number line).program.size := by
  rw [← Array.length_toList, ← Array.length_toList, toList_program_take, List.length_append]
  exact Nat.le_add_right _ _

theorem mem_entries_take (hclash : assembly.clash? line = none) (hline : line.Sound) {number : Nat}
    {e : String × Nat} : e ∈ (assembly.take number line).labels.entries ↔
      e ∈ assembly.labels.entries ∨ line.defined? = some e.1 ∧ e.2 = assembly.program.size := by
  rw [entries_take hclash hline.defined?_ne_empty, List.mem_append, Option.mem_toList,
    Option.map_eq_some_iff]
  refine or_congr_right ⟨?_, fun ⟨hname, hindex⟩ => ⟨e.1, hname, Prod.ext rfl hindex.symm⟩⟩
  rintro ⟨name, hname, rfl⟩
  exact ⟨hname, rfl⟩

theorem filter_entries_take (hclash : assembly.clash? line = none) (hline : line.Sound) {number index : Nat}
    (hindex : index ≠ assembly.program.size) :
    (assembly.take number line).labels.entries.filter (·.2 == index) =
      assembly.labels.entries.filter (·.2 == index) := by
  have hnone : (line.defined?.map (·, assembly.program.size)).toList.filter (·.2 == index) = [] := by
    cases line.defined? <;> simp [hindex.symm]
  rw [entries_take hclash hline.defined?_ne_empty, List.filter_append, hnone, List.append_nil]

end Assembly

theorem Program.ownLabel?_size (program : Program) : program.ownLabel? program.size = none := by
  rw [Program.ownLabel?, Array.getElem?_eq_none (Nat.le_refl _)]
  rfl

namespace WellFormed

variable {assembly result : Assembly} {line : Line} {lines : List Line} {number : Nat}

theorem empty : WellFormed (∅ : Assembly).labels (∅ : Assembly).program := by decide

/-- A line that does not clash is taken in without harm. Of all indices only that of the next instruction is
concerned, which had no instruction before. -/
theorem take (h : WellFormed assembly.labels assembly.program) (hclash : assembly.clash? line = none)
    (hline : line.Sound) :
    WellFormed (assembly.take number line).labels (assembly.take number line).program where
  names := by
    intro e he
    rcases (Assembly.mem_entries_take hclash hline).mp he with he | ⟨hname, -⟩
    · exact h.names e he
    · exact (hline.label e.1 (Line.label?_of_defined? hname)).2
  ascending := by
    rw [Assembly.entries_take hclash hline.defined?_ne_empty, List.pairwise_append]
    refine ⟨h.ascending, by cases line.defined? <;> simp, fun e he e' he' => ?_⟩
    obtain ⟨name, -, rfl⟩ := Option.map_eq_some_iff.mp (Option.mem_toList.mp he')
    exact h.bounded e he
  bounded := by
    intro e he
    have hsize := Assembly.size_program_take_le assembly number line
    rcases (Assembly.mem_entries_take hclash hline).mp he with he | ⟨-, hindex⟩
    · exact Nat.le_trans (h.bounded e he) hsize
    · exact hindex ▸ hsize
  own := by
    intro index _ label hown
    rw [Assembly.ownLabel?_take] at hown
    split at hown
    · next hindex =>
        obtain ⟨i, hi, hlabel⟩ := Option.bind_eq_some_iff.mp hown
        rw [Assembly.entries_take hclash hline.defined?_ne_empty, List.filter_append,
          Line.defined?_of_instruction? hi, hlabel, hindex]
        simp
    · next hindex =>
        rw [Assembly.filter_entries_take hclash hline hindex]
        exact h.getLast?_of_ownLabel? hown
  lone := by
    intro e he hlone
    rw [Assembly.ownLabel?_take] at hlone
    rcases (Assembly.mem_entries_take hclash hline).mp he with he | ⟨hname, hindex⟩
    · -- A name that an instruction carried before keeps its instruction.
      refine h.lone e he fun hown => hlone ?_
      have hindex : e.2 ≠ assembly.program.size := by
        intro hindex
        rw [hindex, Program.ownLabel?_size] at hown
        cases hown
      rw [if_neg hindex, hown]
    · rw [if_pos hindex] at hlone
      rcases Line.eq_label_or_own hname with hlabel | hown
      · exact hline.lone e.1 hlabel
      · exact absurd hown hlone
  targets := by
    intro i hi
    rcases Assembly.mem_program_take.mp hi with hi | hi
    · exact h.targets i hi
    · exact hline.target i hi

theorem addLines (h : WellFormed assembly.labels assembly.program) (hlines : ∀ line ∈ lines, line.Sound)
    (hresult : assembly.addLines number lines = { assembly := result, error? := none }) :
    WellFormed result.labels result.program := by
  induction lines generalizing assembly number with
  | nil =>
      cases hresult
      exact h
  | cons line rest ih =>
      rw [Assembly.addLines] at hresult
      cases hclash : assembly.clash? line with
      | some label =>
          rw [hclash] at hresult
          cases congrArg Pass.error? hresult
      | none =>
          rw [hclash] at hresult
          have hline := hlines line List.mem_cons_self
          exact ih (h.take hclash hline) (fun line hmem => hlines line (List.mem_cons_of_mem _ hmem)) hresult

/-- What is assembled from a source is well-formed. -/
theorem ofSource {source : String} (h : Assembly.ofSource source = .ok assembly) :
    WellFormed assembly.labels assembly.program := by
  have hlines : ∀ line ∈ Source.readings source, line.Sound := by
    intro line hline
    obtain ⟨text, -, rfl⟩ := List.mem_map.mp hline
    exact Line.sound_read text
  rcases Assembly.pass_cases source with ⟨result, hpass, -, -⟩ | ⟨i, label, result, -, -, hpass⟩
  · rw [Assembly.ofSource, hpass] at h
    cases h
    exact empty.addLines hlines (Assembly.addLines_of_pass hpass)
  · rw [Assembly.ofSource, hpass] at h
    cases h

end WellFormed

/-! ### Look-ups by index -/

theorem LabelTable.labelAt?_eq_some_iff (labels : LabelTable) (index : Nat) (name : String) :
    labels.labelAt? index = some name ↔ ∃ earlier later,
      labels.entries = earlier ++ (name, index) :: later ∧ ∀ e ∈ earlier, e.2 ≠ index := by
  unfold LabelTable.labelAt?
  rw [Option.map_eq_some_iff]
  constructor
  · rintro ⟨⟨_, found⟩, hfind, rfl⟩
    obtain ⟨hfound, earlier, later, hentries, hearlier⟩ := List.find?_eq_some_iff_append.mp hfind
    obtain rfl : found = index := by simpa using hfound
    exact ⟨earlier, later, hentries, by simpa using hearlier⟩
  · rintro ⟨earlier, later, hentries, hearlier⟩
    exact ⟨(name, index), List.find?_eq_some_iff_append.mpr
      ⟨by simp, earlier, later, hentries, by simpa using hearlier⟩, rfl⟩

theorem LabelTable.labelAt?_eq_none_iff (labels : LabelTable) (index : Nat) :
    labels.labelAt? index = none ↔ ∀ e ∈ labels.entries, e.2 ≠ index := by
  simp [LabelTable.labelAt?]

/-- What is assembled from a source: distinct labels that are words, in the order of their indices, none beyond
the end of the program; instructions whose label is known for their index, and last there; no opcode among the
labels that stand alone; branch targets without blanks. The name of an index is the first that was defined. -/
theorem ofSource_guarantees {source : String} {assembly : Assembly}
    (h : Assembly.ofSource source = .ok assembly) :
    (assembly.labels.names.Nodup ∧ ∀ name ∈ assembly.labels.names, name ≠ "" ∧ BlankFree name) ∧
    (assembly.labels.entries.Pairwise (·.2 ≤ ·.2) ∧
      ∀ e ∈ assembly.labels.entries, e.2 ≤ assembly.program.size) ∧
    (∀ index label, assembly.program.ownLabel? index = some label →
      label ≠ "" ∧ BlankFree label ∧ assembly.labels.indexOf? label = some index ∧
      (assembly.labels.entries.filter (·.2 == index)).getLast? = some (label, index)) ∧
    (∀ e ∈ assembly.labels.entries, assembly.program.ownLabel? e.2 ≠ some e.1 →
      Opcode.ofToken? e.1 = none) ∧
    (∀ i ∈ assembly.program, ∀ target, i.operation.target? = some target → BlankFree target) ∧
    ∀ index, (∀ name, assembly.labels.labelAt? index = some name ↔ ∃ earlier later,
        assembly.labels.entries = earlier ++ (name, index) :: later ∧ ∀ e ∈ earlier, e.2 ≠ index) ∧
      (assembly.labels.labelAt? index = none ↔ ∀ e ∈ assembly.labels.entries, e.2 ≠ index) := by
  have hformed := WellFormed.ofSource h
  refine ⟨⟨assembly.labels.nodup, ?_⟩, ⟨hformed.ascending, hformed.bounded⟩, ?_, hformed.lone,
    fun i hi target htarget => hformed.targets i hi target htarget, fun index => ⟨?_, ?_⟩⟩
  · intro name hname
    obtain ⟨e, he, rfl⟩ := List.mem_map.mp hname
    exact (hformed.name_word he).symm
  · intro index label hown
    have hmem := hformed.mem_entries_of_ownLabel? hown
    obtain ⟨hfree, hne⟩ := hformed.name_word hmem
    exact ⟨hne, hfree, (LabelTable.indexOf?_eq_some_iff _ _ _).mpr hmem, hformed.getLast?_of_ownLabel? hown⟩
  · exact LabelTable.labelAt?_eq_some_iff assembly.labels index
  · exact LabelTable.labelAt?_eq_none_iff assembly.labels index

/-- Three labels share the index of an instruction, the last of them spelled like an opcode, and two stand behind
the last instruction. -/
theorem ofSource_guarantees_of_shared_index : ∃ assembly,
    Assembly.ofSource "a\nb\nout lin 1 5\nx mov\nbnz 1 end\nend\nlast" = .ok assembly ∧
    assembly.program.ownLabel? 0 = some "out" ∧ assembly.labels.indexOf? "out" = some 0 ∧
    (assembly.labels.entries.filter (·.2 == 0)).getLast? = some ("out", 0) ∧
    assembly.labels.labelAt? 0 = some "a" ∧ assembly.labels.labelAt? 2 = some "end" := by
  have hpass : (Assembly.pass "a\nb\nout lin 1 5\nx mov\nbnz 1 end\nend\nlast").error? = none ∧
      (Assembly.pass "a\nb\nout lin 1 5\nx mov\nbnz 1 end\nend\nlast").assembly.labels.entries =
        [("a", 0), ("b", 0), ("out", 0), ("end", 2), ("last", 2)] ∧
      (Assembly.pass "a\nb\nout lin 1 5\nx mov\nbnz 1 end\nend\nlast").assembly.program.ownLabel? 0 =
        some "out" := by decide +kernel
  obtain ⟨herror, hentries, hown⟩ := hpass
  have h := Assembly.ofSource_of_pass _ herror
  obtain ⟨-, -, howned, -, -, hnames⟩ := ofSource_guarantees h
  obtain ⟨-, -, hindex, hlast⟩ := howned 0 "out" hown
  refine ⟨_, h, hown, hindex, hlast, ?_, ?_⟩
  · exact ((hnames 0).1 "a").mpr ⟨[], _, hentries, by simp⟩
  · exact ((hnames 2).1 "end").mpr ⟨[("a", 0), ("b", 0), ("out", 0)], _, hentries, by decide⟩

end RegAsm
