import RegAsm.Proofs.Reading
import RegAsm.Workbench

/-! Repeated labels. An assembly fails exactly when some line carries a label that a line before it registers.
The error points to the first such line, everything before that line can be assembled, and its degradations
are those that a failed assembly leaves on the workbench. -/

namespace RegAsm

namespace Source

/-- The numbered line carries a label that a line before it registers. Lines are counted from zero. -/
def RepeatsAt (shapes : List Shape) (i : Nat) : Prop :=
  ∃ j < i, ∃ name, shapes[i]?.bind Shape.carried? = some name ∧ shapes[j]?.bind Shape.registered? = some name

theorem mem_filterMap_take_iff {α β : Type} {f : α → Option β} {list : List α} {count : Nat} {b : β} :
    b ∈ (list.take count).filterMap f ↔ ∃ j < count, list[j]?.bind f = some b := by
  rw [List.mem_filterMap]
  constructor
  · rintro ⟨a, hmem, ha⟩
    obtain ⟨j, hj⟩ := List.mem_iff_getElem?.mp hmem
    rw [List.getElem?_take] at hj
    split at hj
    · next hlt => exact ⟨j, hlt, by rw [hj]; exact ha⟩
    · exact absurd hj (by simp)
  · rintro ⟨j, hlt, hj⟩
    obtain ⟨a, ha, hb⟩ := Option.bind_eq_some_iff.mp hj
    refine ⟨a, List.mem_iff_getElem?.mpr ⟨j, ?_⟩, hb⟩
    rw [List.getElem?_take_of_lt hlt, ha]

theorem bind_getElem?_map_line {β : Type} {view : Line → Option β} {view' : Shape → Option β}
    (h : ∀ shape, view (Shape.line shape) = view' shape) (shapes : List Shape) (i : Nat) :
    (shapes.map Shape.line)[i]?.bind view = shapes[i]?.bind view' := by
  rw [List.getElem?_map, Option.bind_map]
  congr 1
  funext shape
  exact h shape

theorem clashesAt_map_line_iff (shapes : List Shape) (i : Nat) :
    ClashesAt (shapes.map Shape.line) i ↔ RepeatsAt shapes i := by
  have hcarried : (shapes.map Shape.line)[i]?.bind Line.label? = shapes[i]?.bind Shape.carried? :=
    bind_getElem?_map_line Shape.label?_line shapes i
  have hregistered : ∀ j : Nat, (shapes.map Shape.line)[j]?.bind Line.defined? =
      shapes[j]?.bind Shape.registered? := bind_getElem?_map_line Shape.defined?_line shapes
  rw [ClashesAt, RepeatsAt, hcarried]
  simp only [mem_filterMap_take_iff, hregistered]
  constructor
  · rintro ⟨name, hname, j, hj, hdefined⟩
    exact ⟨j, hj, name, hname, hdefined⟩
  · rintro ⟨j, hj, name, hname, hdefined⟩
    exact ⟨name, hname, j, hj, hdefined⟩

theorem clashesAt_readings_iff (source : String) (i : Nat) :
    ClashesAt (readings source) i ↔ RepeatsAt (shapes source) i := by
  rw [readings_eq_map_line, clashesAt_map_line_iff]

theorem FirstClash.head?_words {source : String} {i : Nat} {label : String}
    (h : FirstClash (readings source) i label) :
    (Text.lines source)[i]?.bind (fun line => (Text.words line).head?) = some label := by
  have hcarried := h.carried
  rw [readings, List.getElem?_map, Option.bind_map] at hcarried
  obtain ⟨line, hline, hlabel⟩ := Option.bind_eq_some_iff.mp hcarried
  rw [hline]
  exact Line.head?_of_label? hlabel

theorem ofSource_fails_iff (source : String) :
    (∃ error, Assembly.ofSource source = .error error) ↔ ∃ i, RepeatsAt (shapes source) i := by
  constructor
  · rintro ⟨error, herror⟩
    obtain ⟨i, label, -, hfirst, -⟩ := Assembly.first_clash_of_ofSource_eq_error herror
    exact ⟨i, (clashesAt_readings_iff source i).mp ⟨label, hfirst.carried, hfirst.defined⟩⟩
  · rintro ⟨i, hi⟩
    cases hresult : Assembly.ofSource source with
    | error error => exact ⟨error, rfl⟩
    | ok assembly =>
        obtain ⟨hfree, -⟩ := Assembly.ofSource_eq_ok_iff.mp hresult
        exact absurd ((clashesAt_readings_iff source i).mpr hi) (hfree i)

/-- An assembly fails exactly when a line carries a label that an earlier line registers. The error then
names the first such line, counted from one, and its first word. The source up to that line can be
assembled, and its degradations are those that are left on a workbench with this source. -/
theorem ofSource_fails_at_first_repeat (source : String) :
    ((∃ error, Assembly.ofSource source = .error error) ↔ ∃ i, RepeatsAt (shapes source) i) ∧
    ∀ error, Assembly.ofSource source = .error error →
      ∃ i label before, RepeatsAt (shapes source) i ∧ (∀ k < i, ¬ RepeatsAt (shapes source) k) ∧
        error = .duplicateLabel label (i + 1) ∧
        (Text.lines source)[i]?.bind (fun line => (Text.words line).head?) = some label ∧
        Assembly.ofSource (Text.leading i source) = .ok before ∧
        ∀ (bench : Workbench) (read : FileReader), bench.origin.load read = .ok source →
          (bench.assemble read).2 = some error ∧
          (bench.assemble read).1.assembly.degradations = before.degradations := by
  refine ⟨ofSource_fails_iff source, fun error herror => ?_⟩
  obtain ⟨i, label, before, hfirst, hholds, hlabel, hpass⟩ :=
    Assembly.first_clash_of_ofSource_eq_error herror
  refine ⟨i, label, before, ?_, ?_, hlabel, hfirst.head?_words, Assembly.ofSource_leading hfirst hholds, ?_⟩
  · exact (clashesAt_readings_iff source i).mp ⟨label, hfirst.carried, hfirst.defined⟩
  · intro k hk hrepeats
    exact hfirst.earliest k hk ((clashesAt_readings_iff source k).mpr hrepeats)
  · intro bench read hload
    rw [Workbench.assemble_of_load hload, hpass]
    exact ⟨rfl, rfl⟩

/-- A line with an unknown opcode registers nothing, so its label is free for the third line; but the fourth,
whose opcode is unknown too, repeats the label of the first. -/
theorem ofSource_fails_at_unknown_opcode :
    Assembly.ofSource "f0\nf1 mov 2\nf1 out x\nf0 jmp\nf0" = .error (.duplicateLabel "f0" 4) ∧
    RepeatsAt (shapes "f0\nf1 mov 2\nf1 out x\nf0 jmp\nf0") 3 ∧
    ∃ before, Assembly.ofSource (Text.leading 3 "f0\nf1 mov 2\nf1 out x\nf0 jmp\nf0") = .ok before ∧
      before.degradations = [.unknownOpcode 2 "mov", .malformedOperand 3 .out .register] := by
  have hpass : Assembly.pass "f0\nf1 mov 2\nf1 out x\nf0 jmp\nf0" =
      .stopped [.unknownOpcode 2 "mov", .malformedOperand 3 .out .register] (.duplicateLabel "f0" 4) := by
    decide +kernel
  have herror : Assembly.ofSource "f0\nf1 mov 2\nf1 out x\nf0 jmp\nf0" =
      .error (.duplicateLabel "f0" 4) := by
    rw [Assembly.ofSource, hpass]
    rfl
  obtain ⟨i, label, before, hrepeats, -, hlabel, -, hbefore, hbench⟩ :=
    (ofSource_fails_at_first_repeat _).2 _ herror
  obtain ⟨-, hi⟩ := Error.duplicateLabel.inj hlabel
  obtain rfl : i = 3 := by omega
  -- The degradations of the lines in front are those on a workbench that holds the source as a text.
  obtain ⟨-, hleft⟩ := hbench { origin := .text _ } (fun _ => .ok "") rfl
  rw [Workbench.assemble_of_load rfl, hpass] at hleft
  exact ⟨herror, hrepeats, before, hbefore, hleft.symm⟩

end Source

end RegAsm
