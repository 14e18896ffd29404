import Mathlib.Logic.Relation
import RegAsm.Command.Report
import RegAsm.Machine.Load
import RegAsm.Proofs.Guarantees
import RegAsm.Proofs.StepRelation

/-! Where the program counter can be. It moves to the next instruction or to the index of a label, and only from
inside the program, so it never exceeds what bounds the program and its labels. An assembly has no label beyond
the end of its program: its runs end right behind the last instruction, or at a fault inside. -/

namespace RegAsm

open RegAsm.Configuration (Step Steps Fault)

namespace Configuration

variable {labels : LabelTable} {program : Program} {first c c' : Configuration} {fetched : Array Nat}
  {bound : Nat}

theorem Step.pc_cases (h : Step labels program c c') :
    c.pc < program.size ∧ (c'.pc = c.pc + 1 ∨ ∃ target, labels.indexOf? target = some c'.pc) := by
  cases h with
  | add fetch | sub fetch | mul fetch | div fetch _ | lin fetch | out fetch | pass fetch _ =>
      exact ⟨(Array.getElem?_eq_some_iff.mp fetch).1, Or.inl rfl⟩
  | @jump label? register target index fetch _ known =>
      exact ⟨(Array.getElem?_eq_some_iff.mp fetch).1, Or.inr ⟨target, known⟩⟩

theorem Step.pc_le (h : Step labels program c c') (hsize : program.size ≤ bound)
    (hlabels : ∀ e ∈ labels.entries, e.2 ≤ bound) : c'.pc ≤ bound := by
  obtain ⟨hlt, hnext | ⟨target, hknown⟩⟩ := h.pc_cases
  · omega
  · exact hlabels _ ((LabelTable.indexOf?_eq_some_iff labels target c'.pc).mp hknown)

theorem Steps.pc_le (h : Steps labels program first fetched c) (hfirst : first.pc ≤ bound)
    (hsize : program.size ≤ bound) (hlabels : ∀ e ∈ labels.entries, e.2 ≤ bound) : c.pc ≤ bound := by
  -- The last step decides: it started inside the program, however the run came there.
  cases h with
  | refl => exact hfirst
  | tail _ step => exact step.pc_le hsize hlabels

theorem Steps.fetched_lt (h : Steps labels program first fetched c) : ∀ pc ∈ fetched, pc < program.size := by
  induction h with
  | refl => simp
  | tail _ step ih =>
      intro pc hpc
      rcases Array.mem_push.mp hpc with hpc | rfl
      · exact ih pc hpc
      · exact step.pc_cases.1

end Configuration

namespace Machine

variable {m point : Machine} {c : Configuration} {fetched : Array Nat} {run : Run}

/-- The run of the machine passes through this state. -/
def Visits (m point : Machine) : Prop := Relation.ReflTransGen (fun a b => a.turn = .next b) m.start point

/-- A run passes through nothing but configurations that steps lead to. -/
theorem Visits.steps (h : m.Visits point) : ∃ fetched c,
    Steps m.labels m.program { registers := m.inputs } fetched c ∧ point = m.during c := by
  unfold Visits at h
  rw [start_eq_during] at h
  induction h with
  | refl => exact ⟨#[], _, .refl, rfl⟩
  | tail _ hturn ih =>
      obtain ⟨fetched, c, hsteps, rfl⟩ := ih
      rcases Configuration.progress m.labels m.program c with houtside | ⟨error, hfault⟩ | ⟨c', hstep⟩
      · rw [turn_of_size_le houtside] at hturn
        cases hturn
      · rw [turn_of_fault hfault] at hturn
        cases hturn
      · rw [turn_of_step hstep] at hturn
        cases hturn
        exact ⟨fetched.push c.pc, c', hsteps.tail hstep, rfl⟩

theorem Visits.pc_le {bound : Nat} (h : m.Visits point) (hsize : m.program.size ≤ bound)
    (hlabels : ∀ e ∈ m.labels.entries, e.2 ≤ bound) : point.pc ≤ bound := by
  obtain ⟨fetched, c, hsteps, rfl⟩ := h.steps
  exact hsteps.pc_le (Nat.zero_le bound) hsize hlabels

/-- Where an instruction was executed the program counter is still at it. -/
theorem Visits.pc_lt_of_execute {i : Instruction} {after : Machine} (h : m.Visits point)
    (hfetch : point.program[point.pc]? = some i) (hexecute : point.execute i = .ok after) :
    after.pc < m.program.size := by
  obtain ⟨fetched, c, -, rfl⟩ := h.steps
  have hpc : after.pc = (m.during c).pc := by
    rcases execute_cases hexecute with ⟨_, _, rfl⟩ | ⟨_, rfl⟩ | rfl | ⟨_, rfl⟩ <;> rfl
  rw [hpc]
  exact (Array.getElem?_eq_some_iff.mp hfetch).1

theorem EndsIn.pc_eq_of_ok {steps : Nat} (h : m.EndsIn run) (hresult : run.result = .ok steps)
    (hlabels : ∀ e ∈ m.labels.entries, e.2 ≤ m.program.size) : run.machine.pc = m.program.size := by
  obtain ⟨fetched, c, hsteps, houtside, -, rfl⟩ := endsIn_ok_iff.mp ⟨h, hresult⟩
  have hle : c.pc ≤ m.program.size := hsteps.pc_le (Nat.zero_le _) (Nat.le_refl _) hlabels
  exact Nat.le_antisymm hle houtside

theorem EndsIn.exists_fault {error : Error} (h : m.EndsIn run) (hresult : run.result = .error error) :
    run.machine.program = m.program ∧ ∃ c, run.machine.pc = c.pc ∧ Fault m.labels m.program c error := by
  obtain ⟨fetched, c, -, hfault, rfl⟩ := endsIn_error_iff.mp ⟨h, hresult⟩
  exact ⟨rfl, c, rfl, hfault⟩

end Machine

theorem Configuration.Fault.endsAssembly_eq_false {labels : LabelTable} {program : Program} {c : Configuration}
    {error : Error} (h : Fault labels program c error) : error.endsAssembly = false := by
  obtain ⟨instruction, rfl⟩ | ⟨target, rfl⟩ := h.error_cases <;> rfl

/-- The message that locates a fault is there when there is an instruction to be shown. The error itself has not been
reported before if it did not end an assembly. -/
theorem Command.endMessages_of_fault {m : Machine} {i : Instruction} {error : Error}
    (hfetch : m.program[m.pc]? = some i) (herror : error.endsAssembly = false) :
    Command.endMessages m (.error error) =
      [⟨.error, "fault at instruction " ++ Nat.repr m.pc ++ ": " ++ i.describe⟩,
        ⟨.error, error.message⟩] := by
  simp only [Command.endMessages, hfetch, Command.errorMessages, herror]
  rfl

/-- A run of what was assembled never has its program counter beyond the end of the program, is right at the end
when it halts, and before it at a fault, so that the instruction to be reported is always found. On any machine
the program counter is increased only inside the program, so it does not overflow, and it fits into a word if the
labels do. -/
theorem pc_stays_within_program :
    (∀ (source : String) (assembly : Assembly) (m : Machine), Assembly.ofSource source = .ok assembly →
      m.labels = assembly.labels → m.program = assembly.program →
      (∀ point, m.Visits point → point.pc ≤ assembly.program.size) ∧
      ∀ run, m.EndsIn run →
        (∀ steps, run.result = .ok steps → run.machine.pc = assembly.program.size) ∧
        ∀ error, run.result = .error error → run.machine.pc < assembly.program.size ∧
          ∃ i, assembly.program[run.machine.pc]? = some i ∧
            Command.endMessages run.machine run.result =
              [⟨.error, "fault at instruction " ++ Nat.repr run.machine.pc ++ ": " ++ i.describe⟩,
                ⟨.error, error.message⟩]) ∧
    ∀ m point : Machine, m.Visits point →
      (∀ i after, point.program[point.pc]? = some i → point.execute i = .ok after →
        after.pc < m.program.size ∧ (m.program.size < UInt64.size → after.pc + 1 < UInt64.size)) ∧
      (m.program.size < UInt64.size → (∀ e ∈ m.labels.entries, e.2 < UInt64.size) →
        point.pc < UInt64.size) := by
  constructor
  · intro source assembly m hsource hlabels hprogram
    have hbounded : ∀ e ∈ m.labels.entries, e.2 ≤ m.program.size := by
      rw [hlabels, hprogram]
      exact (WellFormed.ofSource hsource).bounded
    rw [← hprogram]
    refine ⟨fun point hvisits => hvisits.pc_le (Nat.le_refl _) hbounded, fun run hends => ⟨?_, ?_⟩⟩
    · intro steps hresult
      exact hends.pc_eq_of_ok hresult hbounded
    · intro error hresult
      obtain ⟨hkept, c, hpc, hfault⟩ := hends.exists_fault hresult
      have hlt : run.machine.pc < m.program.size := hpc ▸ hfault.pc_lt
      obtain ⟨i, hfetch⟩ : ∃ i, m.program[run.machine.pc]? = some i := ⟨_, Array.getElem?_eq_getElem hlt⟩
      refine ⟨hlt, i, hfetch, ?_⟩
      rw [hresult]
      exact Command.endMessages_of_fault (hkept ▸ hfetch) hfault.endsAssembly_eq_false
  · intro m point hvisits
    refine ⟨fun i after hfetch hexecute => ?_, fun hsize hlabels => ?_⟩
    · have hlt := hvisits.pc_lt_of_execute hfetch hexecute
      exact ⟨hlt, by omega⟩
    · have hpos : 0 < UInt64.size := by decide
      have hle : point.pc ≤ UInt64.size - 1 :=
        hvisits.pc_le (by omega) fun e he => by
          have := hlabels e he
          omega
      omega

/-- A machine that branches to the largest word. -/
def Machine.branchingFar : Machine where
  labels := ⟨[("far", 18446744073709551615)], by decide, by decide⟩
  program := #[⟨none, .lin 1 1⟩, ⟨none, .bnz 1 "far"⟩]

/-- A branch to the label behind the last instruction halts right there, a fault is located, and the largest word
is no harm as a label. -/
theorem pc_stays_within_program_past_end :
    (∃ assembly run, Assembly.ofSource "lin 1 1\nbnz 1 end\nout 1\nend" = .ok assembly ∧
      (Machine.ofAssembly assembly).EndsIn run ∧ run.result = .ok 2 ∧ assembly.program.size = 3 ∧
      run.machine.pc = assembly.program.size) ∧
    (∃ assembly run, Assembly.ofSource "lin 1 1\nf div 1 1 2" = .ok assembly ∧
      (Machine.ofAssembly assembly).EndsIn run ∧ ∃ i, assembly.program[run.machine.pc]? = some i ∧
        (Command.endMessages run.machine run.result).head? =
          some ⟨.error, "fault at instruction " ++ Nat.repr run.machine.pc ++ ": " ++ i.describe⟩) ∧
    ∃ point, Machine.branchingFar.Visits point ∧ point.pc = 18446744073709551615 ∧ point.pc < UInt64.size := by
  refine ⟨?_, ?_, ?_⟩
  · have hpass : (Assembly.pass "lin 1 1\nbnz 1 end\nout 1\nend").error? = none ∧
        (Assembly.pass "lin 1 1\nbnz 1 end\nout 1\nend").assembly.program.size = 3 ∧
        ((Machine.ofAssembly (Assembly.pass "lin 1 1\nbnz 1 end\nout 1\nend").assembly).run? 3).map
          (fun run => (run.error?, run.fetched.size)) = some (none, 2) := by decide +kernel
    obtain ⟨herror, hsize, hended⟩ := hpass
    have h := Assembly.ofSource_of_pass _ herror
    obtain ⟨run, hrun, hparts⟩ := Option.map_eq_some_iff.mp hended
    have hresult : run.result = .ok 2 := Run.result_eq_ok_iff.mpr (Prod.mk.inj hparts)
    have hends := (pc_stays_within_program.1 _ _ _ h rfl rfl).2 run ⟨3, hrun⟩
    exact ⟨_, run, h, ⟨3, hrun⟩, hresult, hsize, hends.1 2 hresult⟩
  · have hpass : (Assembly.pass "lin 1 1\nf div 1 1 2").error? = none ∧
        ((Machine.ofAssembly (Assembly.pass "lin 1 1\nf div 1 1 2").assembly).run? 2).map Run.error? =
          some (some (.divisionByZero "f: div 1 / 2 output to register 1")) := by decide +kernel
    obtain ⟨herror, hended⟩ := hpass
    have h := Assembly.ofSource_of_pass _ herror
    obtain ⟨run, hrun, hfault⟩ := Option.map_eq_some_iff.mp hended
    have hends := (pc_stays_within_program.1 _ _ _ h rfl rfl).2 run ⟨2, hrun⟩
    obtain ⟨-, i, hfetch, hmessages⟩ := hends.2 _ (Run.result_eq_error_iff.mpr hfault)
    exact ⟨_, run, h, ⟨2, hrun⟩, i, hfetch, by rw [hmessages]; rfl⟩
  · have hvisits : Machine.branchingFar.Visits (Machine.branchingFar.during
        { pc := 18446744073709551615, registers := .ofList [(1, 1)] }) :=
      .tail (.tail .refl rfl) rfl
    refine ⟨_, hvisits, rfl, (pc_stays_within_program.2 _ _ hvisits).2 (by decide) ?_⟩
    simp [Machine.branchingFar, UInt64.size]

end RegAsm
