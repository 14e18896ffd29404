import RegAsm.Proofs.Reading

/-! Sources put together. When the first of two sources ends in a line feed, its lines and those of the second are
the lines of the whole. What the second source comes to is then only moved: its labels by the instructions in front
of them, its degradations by the lines in front of them. The whole is assembled unless one of the two fails or the
second carries a label that the first registers. -/

namespace RegAsm

open Source (Line Degradation Shape readings shapes instructionCount definitions degradationsFrom ClashesAt)

namespace Source

/-! ### Moving what lines come to -/

/-- The same degradation with so many more lines in front of its own. -/
def Degradation.moved (count : Nat) : Degradation → Degradation
  | .malformedOperand line opcode field => .malformedOperand (line + count) opcode field
  | .unknownOpcode line token => .unknownOpcode (line + count) token

theorem Line.degradations_add (number count : Nat) (line : Line) :
    line.degradations (number + count) = (line.degradations number).map (Degradation.moved count) := by
  cases line with
  | blank => rfl
  | label name => rfl
  | instruction i malformed =>
      rw [Line.degradations, Line.degradations, List.map_map]
      rfl
  | unknown name token => rfl

theorem degradationsFrom_add (number count : Nat) (lines : List Line) :
    degradationsFrom (number + count) lines = (degradationsFrom number lines).map (Degradation.moved count) := by
  induction lines generalizing number with
  | nil => rfl
  | cons line rest ih =>
      rw [degradationsFrom, degradationsFrom, List.map_append, Line.degradations_add, Nat.add_right_comm, ih]

theorem definitions_add (index count : Nat) (lines : List Line) :
    definitions (index + count) lines = (definitions index lines).map fun e => (e.1, e.2 + count) := by
  induction lines generalizing index with
  | nil => rfl
  | cons line rest ih =>
      rw [definitions, definitions, List.map_append, Nat.add_right_comm, ih]
      cases line.defined? <;> rfl

/-! ### Clashes -/

theorem clashesAt_append_left {lines : List Line} {i : Nat} (h : i < lines.length) (more : List Line) :
    ClashesAt (lines ++ more) i ↔ ClashesAt lines i := by
  rw [← clashesAt_take_iff h, List.take_left]

/-- A line behind others clashes with a line of its own source or with one of those in front of it. -/
theorem clashesAt_append_right (lines more : List Line) (i : Nat) :
    ClashesAt (lines ++ more) (lines.length + i) ↔
      ClashesAt more i ∨ ∃ label, more[i]?.bind Line.label? = some label ∧ label ∈ lines.filterMap Line.defined? := by
  have hline : (lines ++ more)[lines.length + i]? = more[i]? := by
    rw [List.getElem?_append_right (Nat.le_add_right _ _), Nat.add_sub_cancel_left]
  have hbefore : (lines ++ more).take (lines.length + i) = lines ++ more.take i := List.take_length_add_append i
  rw [ClashesAt, ClashesAt, hline, hbefore, List.filterMap_append]
  constructor
  · rintro ⟨label, hlabel, hdefined⟩
    rcases List.mem_append.mp hdefined with hfirst | hown
    · exact Or.inr ⟨label, hlabel, hfirst⟩
    · exact Or.inl ⟨label, hlabel, hown⟩
  · rintro (⟨label, hlabel, hown⟩ | ⟨label, hlabel, hfirst⟩)
    · exact ⟨label, hlabel, List.mem_append_right _ hown⟩
    · exact ⟨label, hlabel, List.mem_append_left _ hfirst⟩

theorem not_clashesAt_append_iff (lines more : List Line) :
    (∀ i, ¬ ClashesAt (lines ++ more) i) ↔ (∀ i, ¬ ClashesAt lines i) ∧ (∀ i, ¬ ClashesAt more i) ∧
      ∀ line ∈ more, ∀ label ∈ line.label?, label ∉ lines.filterMap Line.defined? := by
  constructor
  · intro h
    refine ⟨fun i hi => ?_, fun i hi => ?_, fun line hline label hlabel hdefined => ?_⟩
    · by_cases hlt : i < lines.length
      · exact h i ((clashesAt_append_left hlt more).mpr hi)
      · exact not_clashesAt_of_length_le (Nat.le_of_not_lt hlt) hi
    · exact h _ ((clashesAt_append_right lines more i).mpr (Or.inl hi))
    · obtain ⟨i, hi⟩ := List.mem_iff_getElem?.mp hline
      exact h _ ((clashesAt_append_right lines more i).mpr (Or.inr ⟨label, by rw [hi]; exact hlabel, hdefined⟩))
  · rintro ⟨hfirst, hsecond, hapart⟩ i hi
    by_cases hlt : i < lines.length
    · exact hfirst i ((clashesAt_append_left hlt more).mp hi)
    · obtain ⟨k, rfl⟩ := Nat.exists_eq_add_of_le (Nat.le_of_not_lt hlt)
      rcases (clashesAt_append_right lines more k).mp hi with hown | ⟨label, hlabel, hdefined⟩
      · exact hsecond k hown
      · obtain ⟨line, hline, hlabel⟩ := Option.bind_eq_some_iff.mp hlabel
        exact hapart line (List.mem_of_getElem? hline) label hlabel hdefined

/-- No line of the second source carries a label that the first source registers. -/
def Apart (first second : List Shape) : Prop :=
  ∀ shape ∈ second, ∀ name ∈ shape.carried?, name ∉ first.filterMap Shape.registered?

instance (first second : List Shape) : Decidable (Apart first second) :=
  inferInstanceAs (Decidable (∀ shape ∈ second, ∀ name ∈ shape.carried?, name ∉ first.filterMap Shape.registered?))

theorem apart_iff (first second : List Shape) :
    Apart first second ↔ ∀ line ∈ second.map Shape.line, ∀ label ∈ line.label?,
      label ∉ (first.map Shape.line).filterMap Line.defined? := by
  have hregistered : (first.map Shape.line).filterMap Line.defined? = first.filterMap Shape.registered? := by
    rw [List.filterMap_map]
    congr 1
    funext shape
    exact Shape.defined?_line shape
  rw [Apart, hregistered, List.forall_mem_map]
  simp only [Shape.label?_line]

end Source

open Source (Apart)

namespace Assembly

variable {first second whole : Assembly} {lines more : List Line}

/-- What holds the lines of two sources is put together from what holds each of them. -/
theorem Holds.append (hfirst : Holds first lines) (hsecond : Holds second more) (hwhole : Holds whole (lines ++ more)) :
    whole.program = first.program ++ second.program ∧
    whole.labels.entries =
      first.labels.entries ++ second.labels.entries.map (fun e => (e.1, e.2 + first.program.size)) ∧
    whole.degradations = first.degradations ++ second.degradations.map (Degradation.moved lines.length) := by
  refine ⟨?_, ?_, ?_⟩
  · apply Array.toList_inj.mp
    rw [hwhole.program, List.filterMap_append, Array.toList_append, hfirst.program, hsecond.program]
  · rw [hwhole.labels, Source.definitions_append, hfirst.labels, hsecond.labels, hfirst.size_program,
      Source.definitions_add]
  · rw [hwhole.degradations, Source.degradationsFrom_append, hfirst.degradations, hsecond.degradations,
      Source.degradationsFrom_add]

/-- Assembling goes along with putting a source that is empty or ends in a line feed in front of another. The whole
is assembled exactly when both are and no line of the second carries a label that the first registers. Its program
is that of the first and then that of the second; the labels of the second are moved by the length of the first
program, and its degradations by the number of lines of the first source. -/
theorem ofSource_append (source more : String) (h : source = "" ∨ ∃ text, source = text ++ "\n") :
    ((∃ whole, ofSource (source ++ more) = .ok whole) ↔
      (∃ first, ofSource source = .ok first) ∧ (∃ second, ofSource more = .ok second) ∧
        Apart (shapes source) (shapes more)) ∧
    ∀ first second whole, ofSource source = .ok first → ofSource more = .ok second →
      ofSource (source ++ more) = .ok whole →
      whole.program = first.program ++ second.program ∧
      whole.labels.entries =
        first.labels.entries ++ second.labels.entries.map (fun e => (e.1, e.2 + first.program.size)) ∧
      whole.degradations =
        first.degradations ++ second.degradations.map (Degradation.moved (Text.lines source).length) := by
  have hreadings : readings (source ++ more) = readings source ++ readings more := by
    rw [readings, Text.lines_append h, List.map_append, readings, readings]
  constructor
  · rw [exists_ofSource_iff, exists_ofSource_iff, exists_ofSource_iff, hreadings, Source.not_clashesAt_append_iff,
      Source.apart_iff, ← Source.readings_eq_map_line, ← Source.readings_eq_map_line]
  · intro first second whole hfirst hsecond hwhole
    obtain ⟨-, hfirst⟩ := ofSource_eq_ok_iff.mp hfirst
    obtain ⟨-, hsecond⟩ := ofSource_eq_ok_iff.mp hsecond
    obtain ⟨-, hwhole⟩ := ofSource_eq_ok_iff.mp hwhole
    have hlength : (Text.lines source).length = (readings source).length := by rw [readings, List.length_map]
    rw [hlength]
    rw [hreadings] at hwhole
    exact hfirst.append hsecond hwhole

/-- The second source has a dropped line and a degraded one, and a label behind its last instruction. A dropped line
registers nothing, and still its label must not be one that the first source registers. -/
theorem ofSource_append_of_dropped_line :
    (∃ whole, ofSource ("f0 lin 1 x\r\nend\n" ++ "f1 mov 2\nf2 out\nlast") = .ok whole ∧
      whole.labels.entries = [("f0", 0), ("end", 1), ("f2", 1), ("last", 2)] ∧
      whole.degradations = [.malformedOperand 1 .lin .value, .unknownOpcode 3 "mov", .malformedOperand 4 .out .register]) ∧
    ¬ ∃ whole, ofSource ("f0\n" ++ "f0 mov 2") = .ok whole := by
  constructor
  · have hfirst := ofSource_of_pass "f0 lin 1 x\r\nend\n" (by decide +kernel)
    have hsecond := ofSource_of_pass "f1 mov 2\nf2 out\nlast" (by decide +kernel)
    obtain ⟨hiff, hparts⟩ := ofSource_append "f0 lin 1 x\r\nend\n" "f1 mov 2\nf2 out\nlast"
      (Or.inr ⟨"f0 lin 1 x\r\nend", by decide⟩)
    obtain ⟨whole, hwhole⟩ := hiff.mpr ⟨⟨_, hfirst⟩, ⟨_, hsecond⟩, by decide +kernel⟩
    obtain ⟨-, hlabels, hdegradations⟩ := hparts _ _ whole hfirst hsecond hwhole
    refine ⟨whole, hwhole, ?_, ?_⟩
    · rw [hlabels]
      decide +kernel
    · rw [hdegradations]
      decide +kernel
  · intro hwhole
    obtain ⟨-, -, hapart⟩ := (ofSource_append "f0\n" "f0 mov 2" (Or.inr ⟨"f0", rfl⟩)).1.mp hwhole
    exact absurd hapart (by decide +kernel)

end Assembly

end RegAsm
