import RegAsm.Assembly
import RegAsm.Proofs.Text

/-! The pass over the lines of a source, seen from outside. An assembly holds the lines that were taken in:
their instructions in order, each label at the number of instructions in front of it, and their degradations.
Taking in one more line keeps this, so a pass either holds all lines or stops at the first line whose label
an earlier line has defined. -/

namespace RegAsm

open Source (Line Degradation)

namespace Source

/-- What the lines of a source say. -/
def readings (source : String) : List Line := (Text.lines source).map Line.read

/-- The number of instructions on the lines. -/
def instructionCount (lines : List Line) : Nat := (lines.filterMap Line.instruction?).length

/-- The labels that the lines define, when the first instruction on them has the given index. -/
def definitions (index : Nat) : List Line → List (String × Nat)
  | [] => []
  | line :: rest =>
      (line.defined?.map (·, index)).toList ++ definitions (index + instructionCount [line]) rest

/-- The degradations of the lines, the first of which has the given number. -/
def degradationsFrom (number : Nat) : List Line → List Degradation
  | [] => []
  | line :: rest => line.degradations number ++ degradationsFrom (number + 1) rest

theorem instructionCount_append (lines more : List Line) :
    instructionCount (lines ++ more) = instructionCount lines + instructionCount more := by
  simp [instructionCount]

theorem definitions_append (index : Nat) (lines more : List Line) :
    definitions index (lines ++ more) =
      definitions index lines ++ definitions (index + instructionCount lines) more := by
  induction lines generalizing index with
  | nil => rfl
  | cons line rest ih =>
      have hcount : instructionCount (line :: rest) = instructionCount [line] + instructionCount rest :=
        instructionCount_append [line] rest
      rw [List.cons_append, definitions, definitions, ih, hcount, List.append_assoc, Nat.add_assoc]

theorem map_fst_definitions (index : Nat) (lines : List Line) :
    (definitions index lines).map (·.1) = lines.filterMap Line.defined? := by
  induction lines generalizing index with
  | nil => rfl
  | cons line rest ih =>
      rw [definitions, List.map_append, ih, List.filterMap_cons]
      cases line.defined? <;> rfl

theorem degradationsFrom_append (number : Nat) (lines more : List Line) :
    degradationsFrom number (lines ++ more) =
      degradationsFrom number lines ++ degradationsFrom (number + lines.length) more := by
  induction lines generalizing number with
  | nil => rfl
  | cons line rest ih =>
      rw [List.cons_append, degradationsFrom, degradationsFrom, ih, List.append_assoc, List.length_cons,
        Nat.add_assoc, Nat.add_comm 1]

theorem degradationsFrom_eq_nil {lines : List Line}
    (h : ∀ line ∈ lines, ∀ number, line.degradations number = []) (number : Nat) :
    degradationsFrom number lines = [] := by
  induction lines generalizing number with
  | nil => rfl
  | cons line rest ih =>
      rw [degradationsFrom, h line List.mem_cons_self, ih fun line hl => h line (List.mem_cons_of_mem _ hl)]
      rfl

/-! ### Labels on lines -/

theorem Line.label?_of_defined? {line : Line} {label : String} (h : line.defined? = some label) :
    line.label? = some label := by
  cases line with
  | blank => exact absurd h (by simp [Line.defined?])
  | label name => exact h
  | instruction i malformed => exact h
  | unknown name token => exact absurd h (by simp [Line.defined?])

theorem Line.label?_ofLabelled (label token : String) (operands : List String) :
    (Line.ofLabelled label token operands).label? = some label := by
  rw [Line.ofLabelled]
  cases Opcode.ofToken? token <;> rfl

/-- A label is always the first word of its line. -/
theorem Line.head?_of_label? {words : List String} {label : String}
    (h : (Line.ofWords words).label? = some label) : words.head? = some label := by
  match words with
  | [] => exact absurd h (by simp [Line.ofWords, Line.label?])
  | [word] =>
      rw [Line.ofWords] at h
      cases hop : Opcode.ofToken? word with
      | none => rw [hop] at h; exact h
      | some op => rw [hop] at h; exact absurd h (by simp [Line.ofOperands, Line.label?])
  | first :: second :: rest =>
      rw [Line.ofWords] at h
      cases hop : Opcode.ofToken? first with
      | none =>
          rw [hop] at h
          simpa [Line.label?_ofLabelled] using h
      | some op =>
          rw [hop] at h
          dsimp only at h
          split at h
          · exact absurd h (by simp [Line.ofOperands, Line.label?])
          · simpa [Line.label?_ofLabelled] using h

theorem Line.defined?_read_ne_empty (line : String) : (Line.read line).defined? ≠ some "" := by
  intro h
  have hhead := Line.head?_of_label? (Line.label?_of_defined? h)
  exact (Text.mem_words (List.mem_of_head? hhead)).1 rfl

/-- The label of the numbered line is defined on a line before it. Lines are counted from zero here. -/
def ClashesAt (lines : List Line) (i : Nat) : Prop :=
  ∃ label, lines[i]?.bind Line.label? = some label ∧ label ∈ (lines.take i).filterMap Line.defined?

/-- The first line whose label is defined before it, and that label. -/
structure FirstClash (lines : List Line) (i : Nat) (label : String) : Prop where
  carried : lines[i]?.bind Line.label? = some label
  defined : label ∈ (lines.take i).filterMap Line.defined?
  earliest : ∀ k < i, ¬ ClashesAt lines k

theorem FirstClash.clashesAt {lines : List Line} {i : Nat} {label : String} (h : FirstClash lines i label) :
    ClashesAt lines i := ⟨label, h.carried, h.defined⟩

theorem FirstClash.unique {lines : List Line} {i j : Nat} {label other : String} (h : FirstClash lines i label)
    (h' : FirstClash lines j other) : i = j ∧ label = other := by
  have hij : ¬ i < j := fun hlt => h'.earliest i hlt h.clashesAt
  have hji : ¬ j < i := fun hlt => h.earliest j hlt h'.clashesAt
  obtain rfl : i = j := by omega
  exact ⟨rfl, Option.some.inj (h.carried.symm.trans h'.carried)⟩

theorem clashesAt_append_cons (done rest : List Line) (line : Line) :
    ClashesAt (done ++ line :: rest) done.length ↔
      ∃ label, line.label? = some label ∧ label ∈ done.filterMap Line.defined? := by
  simp [ClashesAt]

theorem not_clashesAt_of_length_le {lines : List Line} {i : Nat} (h : lines.length ≤ i) :
    ¬ ClashesAt lines i := by
  rintro ⟨label, hlabel, -⟩
  rw [List.getElem?_eq_none h] at hlabel
  exact absurd hlabel (by simp)

/-- Lines that define each label that they carry, and no label twice, do not clash. -/
theorem not_clashesAt_of_nodup {lines : List Line} (hnodup : (lines.filterMap Line.defined?).Nodup)
    (hlabels : ∀ line ∈ lines, line.label? = line.defined?) (i : Nat) : ¬ ClashesAt lines i := by
  rintro ⟨label, hlabel, hbefore⟩
  obtain ⟨line, hline, hlabel⟩ := Option.bind_eq_some_iff.mp hlabel
  rw [hlabels line (List.mem_of_getElem? hline)] at hlabel
  rw [← List.take_append_drop i lines, List.filterMap_append, List.nodup_append] at hnodup
  have hafter : label ∈ (lines.drop i).filterMap Line.defined? :=
    List.mem_filterMap.mpr ⟨line, List.mem_of_getElem? (by rw [List.getElem?_drop, Nat.add_zero, hline]), hlabel⟩
  exact hnodup.2.2 label hbefore label hafter rfl

/-- Whether a line clashes depends on the lines up to it alone. -/
theorem clashesAt_take_iff {lines : List Line} {count i : Nat} (h : i < count) :
    ClashesAt (lines.take count) i ↔ ClashesAt lines i := by
  rw [ClashesAt, ClashesAt, List.getElem?_take_of_lt h, List.take_take, Nat.min_eq_left (Nat.le_of_lt h)]

end Source

open Source (readings instructionCount definitions degradationsFrom ClashesAt FirstClash)

theorem LabelTable.eq_of_entries {table other : LabelTable} (h : table.entries = other.entries) :
    table = other := by
  cases table
  cases other
  cases h
  rfl

/-- A stopped pass has left no label and no instruction, but the degradations up to there. -/
def Pass.stopped (degradations : List Degradation) (error : Error) : Pass where
  assembly := { degradations }
  error? := some error

namespace Assembly

/-! ### Taking in lines -/

/-- The assembly is exactly what the lines amount to. -/
structure Holds (assembly : Assembly) (lines : List Line) : Prop where
  program : assembly.program.toList = lines.filterMap Line.instruction?
  labels : assembly.labels.entries = definitions 0 lines
  degradations : assembly.degradations = degradationsFrom 1 lines

variable {assembly other : Assembly} {done rest lines : List Line} {line : Line}

theorem Holds.unique (h : Holds assembly lines) (h' : Holds other lines) : assembly = other := by
  obtain ⟨labels, program, degradations⟩ := assembly
  obtain ⟨labels', program', degradations'⟩ := other
  have hlabels : labels = labels' := LabelTable.eq_of_entries (h.labels.trans h'.labels.symm)
  have hprogram : program = program' := Array.toList_inj.mp (h.program.trans h'.program.symm)
  have hdegradations : degradations = degradations' := h.degradations.trans h'.degradations.symm
  subst hlabels hprogram hdegradations
  rfl

theorem Holds.size_program (h : Holds assembly lines) : assembly.program.size = instructionCount lines := by
  rw [← Array.length_toList, h.program, instructionCount]

theorem Holds.names_labels (h : Holds assembly lines) :
    assembly.labels.names = lines.filterMap Line.defined? := by
  rw [LabelTable.names, h.labels, Source.map_fst_definitions]

theorem holds_empty : Holds ∅ [] := ⟨rfl, rfl, rfl⟩

theorem Holds.clash?_eq_some_iff (h : Holds assembly done) {label : String} :
    assembly.clash? line = some label ↔ line.label? = some label ∧ label ∈ done.filterMap Line.defined? := by
  have hknown : (assembly.labels.indexOf? label).isSome = true ↔ label ∈ done.filterMap Line.defined? := by
    rw [← h.names_labels, ← Option.ne_none_iff_isSome, Ne, LabelTable.indexOf?_eq_none_iff, Decidable.not_not]
  rw [clash?, Option.filter_eq_some_iff, hknown]

theorem accepts_of_clash? {label : String} (hclash : assembly.clash? line = none)
    (hdefined : line.defined? = some label) (hname : line.defined? ≠ some "") :
    assembly.labels.Accepts label := by
  constructor
  · rintro rfl
    exact hname hdefined
  · rw [clash?, Option.filter_eq_none_iff] at hclash
    have hunknown := hclash label (Line.label?_of_defined? hdefined)
    rwa [Option.not_isSome_iff_eq_none, LabelTable.indexOf?_eq_none_iff] at hunknown

/-- Taking in a line that does not clash: the table accepts its label, at the index of the next
instruction. -/
theorem entries_take (hclash : assembly.clash? line = none) (hname : line.defined? ≠ some "") (number : Nat) :
    (assembly.take number line).labels.entries =
      assembly.labels.entries ++ (line.defined?.map (·, assembly.program.size)).toList := by
  unfold Assembly.take
  cases hdefined : line.defined? with
  | none => simp
  | some label => exact LabelTable.entries_insert (accepts_of_clash? hclash hdefined hname) _

theorem toList_program_take (assembly : Assembly) (number : Nat) (line : Line) :
    (assembly.take number line).program.toList = assembly.program.toList ++ line.instruction?.toList := by
  unfold Assembly.take
  cases line.instruction? <;> simp

theorem Holds.take (h : Holds assembly done) (hclash : assembly.clash? line = none)
    (hname : line.defined? ≠ some "") : Holds (assembly.take (done.length + 1) line) (done ++ [line]) where
  program := by
    rw [toList_program_take, h.program, List.filterMap_append]
    cases hi : line.instruction? <;> simp [hi]
  labels := by
    rw [entries_take hclash hname, h.labels, h.size_program, Source.definitions_append, Nat.zero_add]
    simp [definitions]
  degradations := by
    rw [Source.degradationsFrom_append, ← h.degradations, Nat.add_comm 1]
    simp [Assembly.take, degradationsFrom]

/-- What becomes of further lines. The induction is on the lines that are left; the lines taken in so far
grow with it, and none of them has clashed. -/
theorem Holds.addLines_cases (h : Holds assembly done) (hnames : ∀ line ∈ rest, line.defined? ≠ some "")
    (hfree : ∀ k < done.length, ¬ ClashesAt (done ++ rest) k) :
    (∃ result, assembly.addLines (done.length + 1) rest = { assembly := result, error? := none } ∧
      Holds result (done ++ rest) ∧ ∀ i, ¬ ClashesAt (done ++ rest) i) ∨
    ∃ i label result, FirstClash (done ++ rest) i label ∧ Holds result ((done ++ rest).take i) ∧
      assembly.addLines (done.length + 1) rest =
        { assembly := result, error? := some (.duplicateLabel label (i + 1)) } := by
  induction rest generalizing assembly done with
  | nil =>
      refine Or.inl ⟨assembly, rfl, by rwa [List.append_nil], fun i => ?_⟩
      by_cases hi : i < done.length
      · exact hfree i hi
      · exact Source.not_clashesAt_of_length_le (by simpa using hi)
  | cons line rest ih =>
      have hmem := Source.clashesAt_append_cons done rest line
      cases hclash : assembly.clash? line with
      | some label =>
          obtain ⟨hlabel, hdefined⟩ := h.clash?_eq_some_iff.mp hclash
          refine Or.inr ⟨done.length, label, assembly, ⟨?_, ?_, hfree⟩, ?_, ?_⟩
          · simpa using hlabel
          · simpa using hdefined
          · simpa using h
          · rw [addLines, hclash]
      | none =>
          have hline : ¬ ClashesAt (done ++ line :: rest) done.length := by
            rw [hmem]
            rintro ⟨label, hlabel⟩
            have hsome := h.clash?_eq_some_iff.mpr hlabel
            rw [hclash] at hsome
            exact absurd hsome (by simp)
          have hdone : Holds (assembly.take (done.length + 1) line) (done ++ [line]) :=
            h.take hclash (hnames line List.mem_cons_self)
          have hrest := ih hdone (fun line hl => hnames line (List.mem_cons_of_mem _ hl)) (by
            intro k hk
            rw [List.append_assoc, List.singleton_append]
            rw [List.length_append, List.length_singleton] at hk
            rcases Nat.lt_or_eq_of_le (Nat.le_of_lt_succ hk) with hk | rfl
            · exact hfree k hk
            · exact hline)
          rw [List.append_assoc, List.singleton_append, List.length_append, List.length_singleton] at hrest
          rw [addLines, hclash]
          exact hrest

theorem pass_of_addLines {source : String} {error? : Option Error}
    (h : addLines ∅ 1 (readings source) = { assembly, error? }) :
    pass source = { assembly := if error?.isSome then assembly.clear else assembly, error? } := by
  unfold readings at h
  rw [pass, addSource, h]
  cases error? <;> rfl

theorem addLines_of_pass {source : String} (h : pass source = { assembly, error? := none }) :
    addLines ∅ 1 (readings source) = { assembly, error? := none } := by
  cases hlines : addLines ∅ 1 (readings source) with
  | mk result error? =>
      rw [pass_of_addLines hlines, Pass.mk.injEq] at h
      obtain ⟨hassembly, rfl⟩ := h
      exact congrArg (Pass.mk · none) hassembly

theorem pass_cases (source : String) :
    (∃ result, pass source = { assembly := result, error? := none } ∧ Holds result (readings source) ∧
      ∀ i, ¬ ClashesAt (readings source) i) ∨
    ∃ i label result, FirstClash (readings source) i label ∧ Holds result ((readings source).take i) ∧
      pass source = .stopped result.degradations (.duplicateLabel label (i + 1)) := by
  have hnames : ∀ line ∈ readings source, line.defined? ≠ some "" := by
    intro line hline
    obtain ⟨text, -, rfl⟩ := List.mem_map.mp hline
    exact Line.defined?_read_ne_empty text
  rcases holds_empty.addLines_cases hnames (by simp) with
    ⟨result, hlines, hholds, hfree⟩ | ⟨i, label, result, hfirst, hholds, hlines⟩
  · exact Or.inl ⟨result, pass_of_addLines hlines, hholds, hfree⟩
  · refine Or.inr ⟨i, label, result, hfirst, hholds, ?_⟩
    rw [pass_of_addLines hlines]
    rfl

theorem ofSource_of_pass (source : String) (h : (pass source).error? = none) :
    ofSource source = .ok (pass source).assembly := by
  rw [ofSource, Pass.result, h]

/-- A source is assembled exactly when no line clashes, and then to what its lines amount to. -/
theorem ofSource_eq_ok_iff {source : String} :
    ofSource source = .ok assembly ↔
      (∀ i, ¬ ClashesAt (readings source) i) ∧ Holds assembly (readings source) := by
  rcases pass_cases source with ⟨result, hpass, hholds, hfree⟩ | ⟨i, label, result, hfirst, -, hpass⟩
  · rw [ofSource, hpass]
    constructor
    · intro h
      cases h
      exact ⟨hfree, hholds⟩
    · rintro ⟨-, h⟩
      rw [hholds.unique h]
      rfl
  · rw [ofSource, hpass]
    constructor
    · intro h
      cases h
    · rintro ⟨hfree, -⟩
      exact absurd hfirst.clashesAt (hfree i)

/-- An assembly that fails has stopped at the first clash, with the lines before it taken in. -/
theorem first_clash_of_ofSource_eq_error {source : String} {error : Error}
    (h : ofSource source = .error error) :
    ∃ i label result, FirstClash (readings source) i label ∧ Holds result ((readings source).take i) ∧
      error = .duplicateLabel label (i + 1) ∧ pass source = .stopped result.degradations error := by
  rcases pass_cases source with ⟨result, hpass, -, -⟩ | ⟨i, label, result, hfirst, hholds, hpass⟩
  · rw [ofSource, hpass] at h
    cases h
  · rw [ofSource, hpass] at h
    cases h
    exact ⟨i, label, result, hfirst, hholds, rfl, hpass⟩

theorem exists_ofSource_iff (source : String) :
    (∃ assembly, ofSource source = .ok assembly) ↔ ∀ i, ¬ ClashesAt (readings source) i := by
  constructor
  · rintro ⟨assembly, h⟩
    exact (ofSource_eq_ok_iff.mp h).1
  · intro hfree
    cases h : ofSource source with
    | ok assembly => exact ⟨assembly, rfl⟩
    | error error =>
        obtain ⟨i, label, -, hfirst, -⟩ := first_clash_of_ofSource_eq_error h
        exact absurd hfirst.clashesAt (hfree i)

theorem ofSource_of_firstClash {source : String} {i : Nat} {label : String}
    (h : FirstClash (readings source) i label) : ofSource source = .error (.duplicateLabel label (i + 1)) := by
  rcases pass_cases source with ⟨result, -, -, hfree⟩ | ⟨j, other, result, hfirst, -, hpass⟩
  · exact absurd h.clashesAt (hfree i)
  · obtain ⟨rfl, rfl⟩ := h.unique hfirst
    rw [ofSource, hpass]
    rfl

theorem ofSource_leading {source : String} {i : Nat} {label : String} (hfirst : FirstClash (readings source) i label)
    (hholds : Holds assembly ((readings source).take i)) :
    ofSource (Text.leading i source) = .ok assembly := by
  have hreadings : readings (Text.leading i source) = (readings source).take i := by
    rw [readings, Text.lines_leading, List.map_take, readings]
  rw [ofSource_eq_ok_iff, hreadings]
  refine ⟨fun k hclash => ?_, hholds⟩
  by_cases hk : k < i
  · exact hfirst.earliest k hk ((Source.clashesAt_take_iff hk).mp hclash)
  · exact Source.not_clashesAt_of_length_le (by rw [List.length_take]; omega) hclash

end Assembly

end RegAsm
