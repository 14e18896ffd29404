import RegAsm.Machine.Load
import RegAsm.Proofs.Renaming
import RegAsm.Proofs.StepRelation

/-! Programs with other names for their labels. What renamed lines amount to is the renamed assembly: the same
instructions and labels at the same places, and labels clash where they did before. A renamed program goes through
the same configurations as the old one, for a name is looked up where it was defined. -/

namespace RegAsm

open Text (IsWord)
open Source (Line instructionCount definitions degradationsFrom ClashesAt FirstClash)
open RegAsm.Configuration (Step Fault)

namespace Source

variable (r : Renaming)

/-! ### What renamed lines amount to -/

/-- Parts of lines that are renamed with their lines. -/
theorem filterMap_rename {α : Type} {part : Line → Option α} {renamed : α → α}
    (h : ∀ line, part (line.rename r) = (part line).map renamed) (lines : List Line) :
    (lines.map (Line.rename r)).filterMap part = (lines.filterMap part).map renamed := by
  rw [List.filterMap_map, List.map_filterMap]
  congr 1
  funext line
  exact h line

theorem instructionCount_rename (lines : List Line) :
    instructionCount (lines.map (Line.rename r)) = instructionCount lines := by
  rw [instructionCount, filterMap_rename r (Line.instruction?_rename r), List.length_map, instructionCount]

theorem definitions_rename (index : Nat) (lines : List Line) :
    definitions index (lines.map (Line.rename r)) = (definitions index lines).map fun e => (r e.1, e.2) := by
  induction lines generalizing index with
  | nil => rfl
  | cons line rest ih =>
      have hcount : instructionCount [line.rename r] = instructionCount [line] := instructionCount_rename r [line]
      rw [List.map_cons, definitions, definitions, hcount, ih, Line.defined?_rename, List.map_append]
      cases line.defined? <;> rfl

theorem degradationsFrom_rename (number : Nat) (lines : List Line) :
    degradationsFrom number (lines.map (Line.rename r)) = degradationsFrom number lines := by
  induction lines generalizing number with
  | nil => rfl
  | cons line rest ih =>
      rw [List.map_cons, degradationsFrom, degradationsFrom, ih, Line.degradations_rename]

theorem carried_rename (lines : List Line) (i : Nat) :
    (lines.map (Line.rename r))[i]?.bind Line.label? = (lines[i]?.bind Line.label?).map r := by
  rw [List.getElem?_map]
  cases lines[i]? with
  | none => rfl
  | some line => exact Line.label?_rename r line

theorem mem_defined_rename_iff (lines : List Line) (i : Nat) (label : String) :
    r label ∈ ((lines.map (Line.rename r)).take i).filterMap Line.defined? ↔
      label ∈ (lines.take i).filterMap Line.defined? := by
  rw [← List.map_take, filterMap_rename r (Line.defined?_rename r), List.mem_map]
  constructor
  · rintro ⟨other, hmem, heq⟩
    rwa [← r.name_injective heq]
  · exact fun hmem => ⟨label, hmem, rfl⟩

/-- Labels that differ do so under their new names, so no line begins or ceases to clash. -/
theorem clashesAt_rename_iff (lines : List Line) (i : Nat) :
    ClashesAt (lines.map (Line.rename r)) i ↔ ClashesAt lines i := by
  unfold ClashesAt
  rw [carried_rename]
  constructor
  · rintro ⟨_, hrenamed, hdefined⟩
    obtain ⟨label, hlabel, rfl⟩ := Option.map_eq_some_iff.mp hrenamed
    exact ⟨label, hlabel, (mem_defined_rename_iff r lines i label).mp hdefined⟩
  · rintro ⟨label, hlabel, hdefined⟩
    exact ⟨r label, by rw [hlabel]; rfl, (mem_defined_rename_iff r lines i label).mpr hdefined⟩

theorem FirstClash.rename {lines : List Line} {i : Nat} {label : String} (h : FirstClash lines i label) :
    FirstClash (lines.map (Line.rename r)) i (r label) where
  carried := by
    rw [carried_rename, h.carried]
    rfl
  defined := (mem_defined_rename_iff r lines i label).mpr h.defined
  earliest := fun k hk hclash => h.earliest k hk ((clashesAt_rename_iff r lines k).mp hclash)

end Source

namespace LabelTable

/-- The labels of a table under their new names. Different labels stay different, and none becomes empty. -/
def rename (r : Renaming) (table : LabelTable) : LabelTable where
  entries := table.entries.map fun e => (r e.1, e.2)
  nodup := by
    rw [List.map_map]
    exact List.pairwise_map.mpr
      ((List.pairwise_map.mp table.nodup).imp fun hne heq => hne (r.name_injective heq))
  named := by
    rw [List.map_map, List.mem_map]
    rintro ⟨e, he, hempty⟩
    have hname : e.1 = "" := r.name_injective (hempty.trans r.name_empty.symm)
    exact table.named (hname ▸ List.mem_map_of_mem he)

theorem indexOf?_rename (r : Renaming) (table : LabelTable) (name : String) :
    (table.rename r).indexOf? (r name) = table.indexOf? name := by
  have hsame : ((fun e : String × Nat => e.1 == r name) ∘ fun e : String × Nat => (r e.1, e.2)) =
      fun e => e.1 == name := by
    funext e
    rw [Function.comp_apply, Bool.eq_iff_iff, beq_iff_eq, beq_iff_eq]
    exact ⟨fun heq => r.name_injective heq, congrArg r⟩
  unfold indexOf? rename
  rw [List.find?_map, hsame, Option.map_map]
  rfl

end LabelTable

def Program.rename (r : Renaming) (program : Program) : Program := program.map (Instruction.rename r)

namespace Assembly

def rename (r : Renaming) (assembly : Assembly) : Assembly where
  labels := assembly.labels.rename r
  program := assembly.program.rename r
  degradations := assembly.degradations

theorem Holds.rename (r : Renaming) {assembly : Assembly} {lines : List Line} (h : Holds assembly lines) :
    Holds (assembly.rename r) (lines.map (Line.rename r)) where
  program := by
    rw [Source.filterMap_rename r (Line.instruction?_rename r), ← h.program]
    exact Array.toList_map
  labels := by
    rw [Source.definitions_rename, ← h.labels]
    rfl
  degradations := by
    rw [Source.degradationsFrom_rename, ← h.degradations]
    rfl

theorem ofSource_rename_of_ok (r : Renaming) {source : String} {assembly : Assembly}
    (h : ofSource source = .ok assembly) : ofSource (r.source source) = .ok (assembly.rename r) := by
  obtain ⟨hfree, hholds⟩ := ofSource_eq_ok_iff.mp h
  rw [ofSource_eq_ok_iff, Source.readings_source]
  exact ⟨fun i hclash => hfree i ((Source.clashesAt_rename_iff r _ i).mp hclash), hholds.rename r⟩

theorem ofSource_rename_of_error (r : Renaming) {source : String} {error : Error}
    (h : ofSource source = .error error) : ∃ label line, error = .duplicateLabel label line ∧
      ofSource (r.source source) = .error (.duplicateLabel (r label) line) := by
  obtain ⟨i, label, -, hfirst, -, rfl, -⟩ := first_clash_of_ofSource_eq_error h
  refine ⟨label, i + 1, rfl, ofSource_of_firstClash ?_⟩
  rw [Source.readings_source]
  exact hfirst.rename r

end Assembly

/-! ### Runs under new names -/

section

variable (r : Renaming) {program : Program} {pc : Nat} {i : Instruction}

theorem Program.fetch_rename (fetch : program[pc]? = some i) : (program.rename r)[pc]? = some (i.rename r) := by
  rw [Program.rename, Array.getElem?_map, fetch]
  rfl

theorem Program.size_rename (program : Program) : (program.rename r).size = program.size := Array.size_map ..

end

/-- The results of two runs, the second with renamed labels, that stopped at this instruction. They are the same,
but for the names in an error. -/
inductive Renaming.SameResult (r : Renaming) (i? : Option Instruction) : Except Error Nat → Except Error Nat → Prop
    where
  | ok (steps : Nat) : SameResult r i? (.ok steps) (.ok steps)
  | division {i : Instruction} (stopped : i? = some i) :
      SameResult r i? (.error (.divisionByZero i.describe)) (.error (.divisionByZero (i.rename r).describe))
  | target {i : Instruction} {target : String} (stopped : i? = some i) (branch : i.operation.target? = some target) :
      SameResult r i? (.error (.unresolvedTarget target)) (.error (.unresolvedTarget (r target)))

theorem Renaming.SameResult.eq_of_division {r : Renaming} {i : Instruction} {text : String}
    {result : Except Error Nat} (h : r.SameResult (some i) (.error (.divisionByZero text)) result) :
    result = .error (.divisionByZero (i.rename r).describe) := by
  cases h with
  | division stopped =>
      cases stopped
      rfl

/-- Two runs, the second with renamed labels, that have come to the same. -/
structure Renaming.SameRun (r : Renaming) (run run' : Run) : Prop where
  pc : run'.machine.pc = run.machine.pc
  output : run'.machine.output = run.machine.output
  registers : run'.machine.registers = run.machine.registers
  result : r.SameResult run.machine.program[run.machine.pc]? run.result run'.result

namespace Configuration

variable (r : Renaming) {labels : LabelTable} {program : Program} {c c' : Configuration} {error : Error}

theorem Step.rename (h : Step labels program c c') : Step (labels.rename r) (program.rename r) c c' := by
  cases h with
  | add fetch => exact .add (program.fetch_rename r fetch)
  | sub fetch => exact .sub (program.fetch_rename r fetch)
  | mul fetch => exact .mul (program.fetch_rename r fetch)
  | div fetch divisor => exact .div (program.fetch_rename r fetch) divisor
  | lin fetch => exact .lin (program.fetch_rename r fetch)
  | out fetch => exact .out (program.fetch_rename r fetch)
  | pass fetch zero => exact .pass (program.fetch_rename r fetch) zero
  | jump fetch nonzero known =>
      exact .jump (program.fetch_rename r fetch) nonzero ((labels.indexOf?_rename r _).trans known)

theorem Fault.rename (h : Fault labels program c error) : ∃ error',
    Fault (labels.rename r) (program.rename r) c error' ∧
      r.SameResult program[c.pc]? (.error error) (.error error') := by
  cases h with
  | division fetch divisor => exact ⟨_, .division (program.fetch_rename r fetch) divisor, .division fetch⟩
  | target fetch nonzero unknown =>
      exact ⟨_, .target (program.fetch_rename r fetch) nonzero ((labels.indexOf?_rename r _).trans unknown),
        .target fetch rfl⟩

end Configuration

namespace Machine

variable (r : Renaming)

def rename (m : Machine) : Machine := { m with labels := m.labels.rename r, program := m.program.rename r }

theorem turns_rename (m : Machine) (c : Configuration) (fetched : Array Nat) (limit : Nat) :
    Option.Rel r.SameRun ((m.during c).turns fetched limit) (((m.rename r).during c).turns fetched limit) := by
  -- The old program has ended, fails or steps, and the renamed one follows it in each of these cases; that way
  -- no step of the renamed program has to be traced back.
  induction limit generalizing c fetched with
  | zero => exact .none
  | succ limit ih =>
      rw [turns, turns]
      rcases Configuration.progress m.labels m.program c with houtside | ⟨error, hfault⟩ | ⟨c', hstep⟩
      · have houtside' : (m.rename r).program.size ≤ c.pc := by
          rwa [← m.program.size_rename r] at houtside
        rw [turn_of_size_le houtside, turn_of_size_le houtside']
        exact .some ⟨rfl, rfl, rfl, .ok _⟩
      · obtain ⟨error', hfault', hsame⟩ := hfault.rename r
        rw [turn_of_fault hfault, turn_of_fault (m := m.rename r) hfault']
        exact .some ⟨rfl, rfl, rfl, hsame⟩
      · rw [turn_of_step hstep, turn_of_step (m := m.rename r) (hstep.rename r)]
        exact ih c' (fetched.push c.pc)

theorem run?_rename (m : Machine) (limit : Nat) :
    Option.Rel r.SameRun (m.run? limit) ((m.rename r).run? limit) := by
  unfold run?
  rw [start_eq_during, start_eq_during]
  exact turns_rename r m { registers := m.inputs } #[] limit

theorem EndsIn.rename {m : Machine} {run : Run} (h : m.EndsIn run) :
    ∃ run', (m.rename r).EndsIn run' ∧ r.SameRun run run' := by
  obtain ⟨limit, hrun⟩ := h
  have hrel := run?_rename r m limit
  rw [hrun] at hrel
  generalize hrun' : (m.rename r).run? limit = renamed at hrel
  cases hrel with
  | some hsame => exact ⟨_, ⟨limit, hrun'⟩, hsame⟩

theorem EndsIn.of_rename {m : Machine} {run' : Run} (h : (m.rename r).EndsIn run') :
    ∃ run, m.EndsIn run ∧ r.SameRun run run' := by
  obtain ⟨limit, hrun'⟩ := h
  have hrel := run?_rename r m limit
  rw [hrun'] at hrel
  generalize hrun : m.run? limit = old at hrel
  cases hrel with
  | some hsame => exact ⟨_, ⟨limit, hrun⟩, hsame⟩

end Machine

/-- Names of labels do not matter. A source with renamed labels and branch targets fails where the source does, on
the label under its new name. If the source is assembled, then so is the renamed one, to the same instructions and
labels at the same places under their new names, with the same degradations; and from any inputs the two programs
end together, at the same place, with the same output and registers, after the same number of instructions or by
the error that the renamed instruction makes. -/
theorem Renaming.source_assembles_and_runs_alike (r : Renaming) (source : String) :
    (∀ error, Assembly.ofSource source = .error error → ∃ label line, error = .duplicateLabel label line ∧
      Assembly.ofSource (r.source source) = .error (.duplicateLabel (r label) line)) ∧
    ∀ assembly, Assembly.ofSource source = .ok assembly → ∃ renamed,
      Assembly.ofSource (r.source source) = .ok renamed ∧
      renamed.program = assembly.program.map (Instruction.rename r) ∧
      renamed.labels.entries = assembly.labels.entries.map (fun e => (r e.1, e.2)) ∧
      renamed.degradations = assembly.degradations ∧
      ∀ inputs : Registers,
        ((∃ run, ((Machine.ofAssembly assembly).withInputs inputs).EndsIn run) ↔
          ∃ run', ((Machine.ofAssembly renamed).withInputs inputs).EndsIn run') ∧
        ∀ run run', ((Machine.ofAssembly assembly).withInputs inputs).EndsIn run →
          ((Machine.ofAssembly renamed).withInputs inputs).EndsIn run' → r.SameRun run run' := by
  refine ⟨fun error herror => Assembly.ofSource_rename_of_error r herror, fun assembly hassembly => ?_⟩
  refine ⟨assembly.rename r, Assembly.ofSource_rename_of_ok r hassembly, rfl, rfl, rfl, fun inputs => ⟨⟨?_, ?_⟩, ?_⟩⟩
  · rintro ⟨run, hends⟩
    obtain ⟨run', hends', -⟩ := hends.rename r
    exact ⟨run', hends'⟩
  · rintro ⟨run', hends'⟩
    obtain ⟨run, hends, -⟩ := Machine.EndsIn.of_rename (m := (Machine.ofAssembly assembly).withInputs inputs) r hends'
    exact ⟨run, hends⟩
  · intro run run' hends hends'
    obtain ⟨other, hother, hsame⟩ := hends.rename r
    rwa [hends'.unique hother]

/-- Two words exchange their names, and no other word gets a new one. -/
def Renaming.swap (first second : String) (hfirst : IsWord first ∧ Opcode.ofToken? first = none)
    (hsecond : IsWord second ∧ Opcode.ofToken? second = none) : Renaming where
  toFun word := ⟨if word.1 = first then second else if word.1 = second then first else word.1, by
    split
    · exact hsecond.1
    · split
      · exact hfirst.1
      · exact word.2⟩
  injective := by
    rintro ⟨word, hword⟩ ⟨other, hother⟩ heq
    apply Subtype.ext
    have hnames := Subtype.mk.inj heq
    clear heq
    dsimp only at hnames ⊢
    split at hnames <;> split at hnames
    all_goals grind
  opcode := by
    intro word hop
    have hne : word.1 ≠ first := fun heq => hop (heq ▸ hfirst.2)
    have hne' : word.1 ≠ second := fun heq => hop (heq ▸ hsecond.2)
    exact Subtype.ext ((if_neg hne).trans (if_neg hne'))
  other := by
    intro word hop
    dsimp only
    split
    · exact hsecond.2
    · split
      · exact hfirst.2
      · exact hop

/-- Two labels exchange their names. The second of them is part of the instruction that fails, so the error of the
renamed program names the other label; the label on the third line is an opcode and stays. -/
theorem Renaming.source_assembles_and_runs_alike_of_swap : ∃ (r : Renaming) (assembly renamed : Assembly)
    (run run' : Run), r.source "a\r\n\tbnz 0  a\nout mov a\nb div 2 1 0" =
      "b\r\n\tbnz 0  b\nout mov a\na div 2 1 0" ∧
    Assembly.ofSource "a\r\n\tbnz 0  a\nout mov a\nb div 2 1 0" = .ok assembly ∧
    Assembly.ofSource "b\r\n\tbnz 0  b\nout mov a\na div 2 1 0" = .ok renamed ∧
    renamed.labels.entries = [("b", 0), ("a", 1)] ∧
    ((Machine.ofAssembly assembly).withInputs ∅).EndsIn run ∧
    ((Machine.ofAssembly renamed).withInputs ∅).EndsIn run' ∧
    run.result = .error (.divisionByZero "b: div 1 / 0 output to register 2") ∧
    run'.result = .error (.divisionByZero "a: div 1 / 0 output to register 2") := by
  let r : Renaming := .swap "a" "b" (by decide +kernel) (by decide +kernel)
  have hsource : r.source "a\r\n\tbnz 0  a\nout mov a\nb div 2 1 0" =
      "b\r\n\tbnz 0  b\nout mov a\na div 2 1 0" := by decide +kernel
  have hpass : (Assembly.pass "a\r\n\tbnz 0  a\nout mov a\nb div 2 1 0").error? = none ∧
      (Assembly.pass "a\r\n\tbnz 0  a\nout mov a\nb div 2 1 0").assembly.labels.entries =
        [("a", 0), ("b", 1)] := by decide +kernel
  have hassembly := Assembly.ofSource_of_pass _ hpass.1
  obtain ⟨renamed, hrenamed, -, hentries, -, hruns⟩ := (r.source_assembles_and_runs_alike _).2 _ hassembly
  obtain ⟨hiff, hsame⟩ := hruns ∅
  have hended : (((Machine.ofAssembly (Assembly.pass "a\r\n\tbnz 0  a\nout mov a\nb div 2 1 0").assembly).withInputs
      ∅).run? 2).map (fun run => (run.error?, run.machine.program[run.machine.pc]?)) =
      some (some (.divisionByZero "b: div 1 / 0 output to register 2"), some ⟨some "b", .div 2 1 0⟩) := by
    decide +kernel
  obtain ⟨run, hrun, hparts⟩ := Option.map_eq_some_iff.mp hended
  obtain ⟨herror, hfetch⟩ := Prod.mk.inj hparts
  have hresult := Run.result_eq_error_iff.mpr herror
  obtain ⟨run', hends'⟩ := hiff.mp ⟨run, 2, hrun⟩
  have hresults := (hsame run run' ⟨2, hrun⟩ hends').result
  rw [hfetch, hresult] at hresults
  rw [hsource] at hrenamed
  rw [hpass.2] at hentries
  refine ⟨r, _, renamed, run, run', hsource, hassembly, hrenamed, hentries.trans (by decide +kernel), ⟨2, hrun⟩,
    hends', hresult, ?_⟩
  have hdescribe : (Instruction.rename r ⟨some "b", .div 2 1 0⟩).describe = "a: div 1 / 0 output to register 2" := by
    decide +kernel
  rw [hresults.eq_of_division, hdescribe]

end RegAsm
