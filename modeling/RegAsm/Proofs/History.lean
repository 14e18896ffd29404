import RegAsm.Proofs.StepRelation

/-! Runs do not depend on the past of a machine. Whatever was done with it before, the next run is that of a new
machine with the same program, labels and inputs, with its values behind those that were emitted already. For a
run starts from the inputs, and the steps that make it up read nothing else of the machine that an act can
change. -/

namespace RegAsm

/-- The run as it is on a machine that has emitted values before. -/
def Run.behind (run : Run) (before : Array Int32) : Run :=
  { run with machine := { run.machine with output := before ++ run.machine.output } }

namespace Machine

/-- What can be done with a machine. -/
inductive Act where
  | run
  | execute (i : Instruction)
  | withInputs (inputs : Registers)

/-- The inputs after an act. -/
def Act.inputs (inputs : Registers) : Act → Registers
  | .withInputs inputs => inputs
  | .run | .execute _ => inputs

/-- The machine after an instruction outside a run. One that fails leaves the machine as it is. -/
def executed (m : Machine) (i : Instruction) : Machine :=
  match m.execute i with
  | .ok m' => m'
  | .error _ => m

inductive Does (m : Machine) : Act → Machine → Prop where
  | run {run : Run} (ends : m.EndsIn run) : Does m .run run.machine
  | execute (i : Instruction) : Does m (.execute i) (m.executed i)
  | withInputs (inputs : Registers) : Does m (.withInputs inputs) (m.withInputs inputs)

/-- Acts one after another, each run of which ends. -/
inductive History : Machine → List Act → Machine → Prop where
  | nil {m : Machine} : History m [] m
  | cons {m next later : Machine} {act : Act} {acts : List Act} (does : m.Does act next)
      (rest : History next acts later) : History m (act :: acts) later

/-- Runs of the machine with nothing between them. -/
inductive Reruns : Machine → List Run → Prop where
  | nil {m : Machine} : Reruns m []
  | cons {m : Machine} {run : Run} {runs : List Run} (ends : m.EndsIn run)
      (rest : Reruns run.machine runs) : Reruns m (run :: runs)

/-- A new machine with the same program and labels. -/
def renewed (m : Machine) (inputs : Registers) : Machine :=
  withInputs { labels := m.labels, program := m.program } inputs

variable {m later : Machine} {act : Act} {acts : List Act} {run first : Run} {runs : List Run}

/-! ### What acts keep -/

/-- The parts of a machine that acts keep, and its output, which they only add to. -/
structure Keeps (m later : Machine) : Prop where
  labels : later.labels = m.labels
  program : later.program = m.program
  output : m.output.toList <+: later.output.toList

theorem Keeps.trans {last : Machine} (h : m.Keeps later) (h' : later.Keeps last) : m.Keeps last where
  labels := h'.labels.trans h.labels
  program := h'.program.trans h.program
  output := h.output.trans h'.output

theorem keeps_during (m : Machine) (c : Configuration) : m.Keeps (m.during c) where
  labels := rfl
  program := rfl
  output := by
    rw [during, Array.toList_append]
    exact List.prefix_append _ _

theorem EndsIn.exists_during (h : m.EndsIn run) : ∃ c, run.machine = m.during c := by
  obtain ⟨fetched, c, -, hstops⟩ := endsIn_iff.mp h
  cases hstops <;> exact ⟨c, rfl⟩

/-- An instruction outside a run changes registers, output and pending branch at most. -/
theorem keeps_executed (m : Machine) (i : Instruction) :
    m.Keeps (m.executed i) ∧ (m.executed i).pc = m.pc ∧ (m.executed i).inputs = m.inputs := by
  unfold executed
  cases hexecute : m.execute i with
  | error error => exact ⟨⟨rfl, rfl, List.prefix_rfl⟩, rfl, rfl⟩
  | ok after =>
      rcases execute_cases hexecute with ⟨_, _, rfl⟩ | ⟨value, rfl⟩ | rfl | ⟨_, rfl⟩
      · exact ⟨⟨rfl, rfl, List.prefix_rfl⟩, rfl, rfl⟩
      · refine ⟨⟨rfl, rfl, ?_⟩, rfl, rfl⟩
        show m.output.toList <+: (m.output.push value).toList
        rw [Array.toList_push]
        exact List.prefix_append _ _
      · exact ⟨⟨rfl, rfl, List.prefix_rfl⟩, rfl, rfl⟩
      · exact ⟨⟨rfl, rfl, List.prefix_rfl⟩, rfl, rfl⟩

theorem Does.keeps (h : m.Does act later) : m.Keeps later ∧ later.inputs = act.inputs m.inputs := by
  cases h with
  | run ends =>
      obtain ⟨c, hmachine⟩ := ends.exists_during
      rw [hmachine]
      exact ⟨keeps_during m c, rfl⟩
  | execute i => exact ⟨(keeps_executed m i).1, (keeps_executed m i).2.2⟩
  | withInputs inputs => exact ⟨⟨rfl, rfl, List.prefix_rfl⟩, rfl⟩

theorem History.keeps (h : m.History acts later) :
    m.Keeps later ∧ later.inputs = acts.foldl Act.inputs m.inputs := by
  induction h with
  | nil => exact ⟨⟨rfl, rfl, List.prefix_rfl⟩, rfl⟩
  | cons does rest ih =>
      obtain ⟨hkeeps, hinputs⟩ := does.keeps
      rw [List.foldl_cons, ← hinputs]
      exact ⟨hkeeps.trans ih.1, ih.2⟩

/-! ### Runs of a new machine -/

theorem during_renewed (m : Machine) (c : Configuration) :
    m.during c = { (m.renewed m.inputs).during c with
      output := m.output ++ ((m.renewed m.inputs).during c).output } := by
  simp only [during, renewed, withInputs, Array.empty_append]

theorem stops_iff_renewed {fetched : Array Nat} {c : Configuration} : m.Stops fetched c run ↔
    ∃ first, (m.renewed m.inputs).Stops fetched c first ∧ run = first.behind m.output := by
  constructor
  · intro h
    cases h with
    | halt outside => exact ⟨_, .halt outside, by rw [Run.behind, ← during_renewed]⟩
    | fault fault => exact ⟨_, .fault fault, by rw [Run.behind, ← during_renewed]⟩
  · rintro ⟨first, hstops, rfl⟩
    cases hstops with
    | halt outside =>
        rw [Run.behind, ← during_renewed]
        exact .halt outside
    | fault fault =>
        rw [Run.behind, ← during_renewed]
        exact .fault fault

/-- The run of a machine is that of a new one. -/
theorem endsIn_iff_renewed : m.EndsIn run ↔
    ∃ first, (m.renewed m.inputs).EndsIn first ∧ run = first.behind m.output := by
  simp only [endsIn_iff, stops_iff_renewed (m := m)]
  constructor
  · rintro ⟨fetched, c, hsteps, first, hstops, hrun⟩
    exact ⟨first, ⟨fetched, c, hsteps, hstops⟩, hrun⟩
  · rintro ⟨first, ⟨fetched, c, hsteps, hstops⟩, hrun⟩
    exact ⟨fetched, c, hsteps, first, hstops, hrun⟩

theorem EndsIn.eq_behind (h : m.EndsIn run) (hfirst : (m.renewed m.inputs).EndsIn first) :
    run = first.behind m.output := by
  obtain ⟨other, hother, hrun⟩ := endsIn_iff_renewed.mp h
  rw [hrun, hother.unique hfirst]

theorem EndsIn.renewed_machine (h : m.EndsIn run) :
    run.machine.renewed run.machine.inputs = m.renewed m.inputs := by
  obtain ⟨c, hmachine⟩ := h.exists_during
  rw [hmachine]
  rfl

theorem Reruns.eq_behind (h : m.Reruns runs) (hfirst : (m.renewed m.inputs).EndsIn first) {k : Nat}
    (hrun : runs[k]? = some run) :
    run = first.behind (m.output ++ (List.replicate k first.machine.output.toList).flatten.toArray) := by
  induction h generalizing k with
  | nil => cases hrun
  | @cons m before runs ends rest ih =>
      have hbefore := ends.eq_behind hfirst
      cases k with
      | zero =>
          obtain rfl := Option.some.inj hrun
          rw [hbefore]
          simp
      | succ k =>
          -- The first run leaves a machine that is the same when it is renewed.
          have hrenewed : (before.machine.renewed before.machine.inputs).EndsIn first := by
            rw [ends.renewed_machine]
            exact hfirst
          have houtput : before.machine.output = m.output ++ first.machine.output := by
            rw [hbefore]
            rfl
          calc
            run = first.behind (before.machine.output ++
                (List.replicate k first.machine.output.toList).flatten.toArray) := ih hrenewed hrun
            _ = first.behind (m.output ++ first.machine.output ++
                (List.replicate k first.machine.output.toList).flatten.toArray) := by rw [houtput]
            _ = _ := by
                rw [List.replicate_succ, List.flatten_cons]
                congr 1
                apply Array.ext'
                simp

theorem exists_reruns (hfirst : (m.renewed m.inputs).EndsIn first) (count : Nat) :
    ∃ runs, runs.length = count ∧ m.Reruns runs := by
  induction count generalizing m with
  | zero => exact ⟨[], rfl, .nil⟩
  | succ count ih =>
      have hends : m.EndsIn (first.behind m.output) := endsIn_iff_renewed.mpr ⟨first, hfirst, rfl⟩
      obtain ⟨runs, hlength, hruns⟩ := ih (hends.renewed_machine ▸ hfirst)
      exact ⟨first.behind m.output :: runs, by rw [List.length_cons, hlength], .cons hends hruns⟩

/-- After any acts a machine runs as a new one with the inputs that were set last: the run ends if that of the new
machine does, and then in the same way, with its values behind those of the past. Output is never taken back.
Run again and again, the machine repeats the run each time. An instruction outside a run keeps the program counter,
the program, the labels and the inputs. -/
theorem runs_isolated_from_history (h : m.History acts later) :
    (∀ run, later.EndsIn run ↔
      ∃ first, (m.renewed (acts.foldl Act.inputs m.inputs)).EndsIn first ∧ run = first.behind later.output) ∧
    m.output.toList <+: later.output.toList ∧
    (∀ first, (m.renewed (acts.foldl Act.inputs m.inputs)).EndsIn first →
      (∀ count, ∃ runs, runs.length = count ∧ later.Reruns runs) ∧
      ∀ runs, later.Reruns runs → ∀ k run, runs[k]? = some run → run =
        first.behind (later.output ++ (List.replicate k first.machine.output.toList).flatten.toArray)) ∧
    ∀ i, (later.executed i).pc = later.pc ∧ (later.executed i).program = later.program ∧
      (later.executed i).labels = later.labels ∧ (later.executed i).inputs = later.inputs := by
  obtain ⟨hkeeps, hinputs⟩ := h.keeps
  have hrenewed : m.renewed (acts.foldl Act.inputs m.inputs) = later.renewed later.inputs := by
    unfold renewed
    rw [hkeeps.labels, hkeeps.program, hinputs]
  rw [hrenewed]
  refine ⟨fun run => endsIn_iff_renewed, hkeeps.output, fun first hfirst => ⟨?_, ?_⟩, fun i => ?_⟩
  · exact exists_reruns hfirst
  · intro runs hruns k run hrun
    exact hruns.eq_behind hfirst hrun
  · obtain ⟨hexecuted, hpc, hkept⟩ := keeps_executed later i
    exact ⟨hpc, hexecuted.program, hexecuted.labels, hkept⟩

/-- A run that fails, a branch that stays pending and new inputs: the next run is that of a new machine. -/
theorem runs_isolated_from_fault : ∃ later first,
    worn.History [.run, .execute ⟨none, .lin 1 5⟩, .execute ⟨none, .bnz 1 "again"⟩,
      .withInputs (.ofList [(1, 1), (3, -1)])] later ∧
    (worn.renewed (.ofList [(1, 1), (3, -1)])).EndsIn first ∧ first.machine.output = #[0] ∧
    later.EndsIn (first.behind later.output) := by
  obtain ⟨run, hrun⟩ := Option.isSome_iff_exists.mp (show (worn.run? 7).isSome = true by decide +kernel)
  obtain ⟨first, hfirst, houtput⟩ := Option.map_eq_some_iff.mp
    (show ((worn.renewed (.ofList [(1, 1), (3, -1)])).run? 4).map (·.machine.output) = some #[0] by
      decide +kernel)
  have hhistory := History.cons (.run ⟨7, hrun⟩) (.cons (.execute ⟨none, .lin 1 5⟩)
    (.cons (.execute ⟨none, .bnz 1 "again"⟩) (.cons (.withInputs (.ofList [(1, 1), (3, -1)])) .nil)))
  have hends := (runs_isolated_from_history hhistory).1
  exact ⟨_, first, hhistory, ⟨4, hfirst⟩, houtput, (hends _).mpr ⟨first, ⟨4, hfirst⟩, rfl⟩⟩

end Machine

end RegAsm
