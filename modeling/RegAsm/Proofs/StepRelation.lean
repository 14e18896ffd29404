import RegAsm.Machine.Run

/-! Runs as sequences of configurations. The rules below say what executing one instruction does to the
program counter, the registers and the emitted values, and where no instruction can be executed. The machine
takes a detour: an instruction only notes where it wants to go, and the loop goes there. All the same, a run of
the machine is a sequence of such steps, and it ends exactly where the sequence leaves the program or a fault
stops it. -/

namespace RegAsm

/-- What a run has come to between two instructions. -/
structure Configuration where
  pc : Nat := 0
  registers : Registers
  /-- What the run has emitted so far, oldest first. -/
  emitted : Array Int32 := #[]
deriving DecidableEq

namespace Configuration

def next (c : Configuration) : Configuration := { c with pc := c.pc + 1 }

def assign (c : Configuration) (index : UInt32) (value : Int32) : Configuration :=
  { c.next with registers := c.registers.set index value }

def emit (c : Configuration) (value : Int32) : Configuration :=
  { c.next with emitted := c.emitted.push value }

variable (labels : LabelTable) (program : Program)

/-- The instruction at the program counter is executed. -/
inductive Step (c : Configuration) : Configuration → Prop where
  | add {label? result op1 op2} (fetch : program[c.pc]? = some ⟨label?, .add result op1 op2⟩) :
      Step c (c.assign result (c.registers.get op1 + c.registers.get op2))
  | sub {label? result op1 op2} (fetch : program[c.pc]? = some ⟨label?, .sub result op1 op2⟩) :
      Step c (c.assign result (c.registers.get op1 - c.registers.get op2))
  | mul {label? result op1 op2} (fetch : program[c.pc]? = some ⟨label?, .mul result op1 op2⟩) :
      Step c (c.assign result (c.registers.get op1 * c.registers.get op2))
  | div {label? result op1 op2} (fetch : program[c.pc]? = some ⟨label?, .div result op1 op2⟩)
      (divisor : c.registers.get op2 ≠ 0) :
      Step c (c.assign result (c.registers.get op1 / c.registers.get op2))
  | lin {label? register value} (fetch : program[c.pc]? = some ⟨label?, .lin register value⟩) :
      Step c (c.assign register value)
  | out {label? register} (fetch : program[c.pc]? = some ⟨label?, .out register⟩) :
      Step c (c.emit (c.registers.get register))
  | pass {label? register target} (fetch : program[c.pc]? = some ⟨label?, .bnz register target⟩)
      (zero : c.registers.get register = 0) : Step c c.next
  | jump {label? register target index} (fetch : program[c.pc]? = some ⟨label?, .bnz register target⟩)
      (nonzero : c.registers.get register ≠ 0) (known : labels.indexOf? target = some index) :
      Step c { c with pc := index }

/-- The instruction at the program counter cannot be executed. -/
inductive Fault (c : Configuration) : Error → Prop where
  | division {label? result op1 op2} (fetch : program[c.pc]? = some ⟨label?, .div result op1 op2⟩)
      (divisor : c.registers.get op2 = 0) :
      Fault c (.divisionByZero (Instruction.describe ⟨label?, .div result op1 op2⟩))
  | target {label? register target} (fetch : program[c.pc]? = some ⟨label?, .bnz register target⟩)
      (nonzero : c.registers.get register ≠ 0) (unknown : labels.indexOf? target = none) :
      Fault c (.unresolvedTarget target)

/-- Steps in a row, with the indices of the executed instructions. -/
inductive Steps (first : Configuration) : Array Nat → Configuration → Prop where
  | refl : Steps first #[] first
  | tail {fetched c c'} (steps : Steps first fetched c) (step : Step labels program c c') :
      Steps first (fetched.push c.pc) c'

variable {labels program} {c c' : Configuration} {error : Error}

/-- Inside the program an instruction is executed or fails. -/
theorem progress (labels : LabelTable) (program : Program) (c : Configuration) :
    program.size ≤ c.pc ∨ (∃ error, Fault labels program c error) ∨ ∃ c', Step labels program c c' := by
  cases hfetch : program[c.pc]? with
  | none => exact Or.inl (Array.getElem?_eq_none_iff.mp hfetch)
  | some i =>
      obtain ⟨label?, operation⟩ := i
      refine Or.inr ?_
      cases operation with
      | add result op1 op2 => exact Or.inr ⟨_, .add hfetch⟩
      | sub result op1 op2 => exact Or.inr ⟨_, .sub hfetch⟩
      | mul result op1 op2 => exact Or.inr ⟨_, .mul hfetch⟩
      | div result op1 op2 =>
          by_cases hzero : c.registers.get op2 = 0
          · exact Or.inl ⟨_, .division hfetch hzero⟩
          · exact Or.inr ⟨_, .div hfetch hzero⟩
      | lin register value => exact Or.inr ⟨_, .lin hfetch⟩
      | out register => exact Or.inr ⟨_, .out hfetch⟩
      | bnz register target =>
          by_cases hzero : c.registers.get register = 0
          · exact Or.inr ⟨_, .pass hfetch hzero⟩
          · cases hindex : labels.indexOf? target with
            | none => exact Or.inl ⟨_, .target hfetch hzero hindex⟩
            | some index => exact Or.inr ⟨_, .jump hfetch hzero hindex⟩

theorem Fault.pc_lt (h : Fault labels program c error) : c.pc < program.size := by
  cases h with
  | division fetch _ | target fetch _ _ => exact (Array.getElem?_eq_some_iff.mp fetch).1

theorem Fault.error_cases (h : Fault labels program c error) :
    (∃ instruction, error = .divisionByZero instruction) ∨ ∃ target, error = .unresolvedTarget target := by
  cases h with
  | division fetch divisor => exact Or.inl ⟨_, rfl⟩
  | target fetch nonzero unknown => exact Or.inr ⟨_, rfl⟩

end Configuration

open RegAsm.Configuration (Step Steps Fault)

namespace Machine

variable {m : Machine} {c c' : Configuration} {error : Error} {fetched : Array Nat} {run : Run}

/-- The machine when its run has come to a configuration. -/
def during (m : Machine) (c : Configuration) : Machine :=
  { m with registers := c.registers, pc := c.pc, pending := none, output := m.output ++ c.emitted }

theorem start_eq_during (m : Machine) : m.start = m.during { registers := m.inputs } := by
  rw [start, during, Array.append_empty]

/-! ### One turn -/

theorem turn_during_of_ok {i : Instruction} {m' : Machine} (hfetch : m.program[c.pc]? = some i)
    (hexecute : (m.during c).execute i = .ok m') (hadvance : m'.advance = m.during c') :
    (m.during c).turn = .next (m.during c') := by
  have hfetch : (m.during c).program[(m.during c).pc]? = some i := hfetch
  rw [turn, hfetch, ← hadvance]
  simp only [hexecute]

theorem turn_during_of_error {i : Instruction} (hfetch : m.program[c.pc]? = some i)
    (hexecute : (m.during c).execute i = .error error) : (m.during c).turn = .fault error := by
  have hfetch : (m.during c).program[(m.during c).pc]? = some i := hfetch
  rw [turn, hfetch]
  simp only [hexecute]

theorem advance_emit_during (m : Machine) (c : Configuration) (value : Int32) :
    ((m.during c).emit value).advance = m.during (c.emit value) := by
  unfold emit advance during Configuration.emit Configuration.next
  simp only [Array.append_push, Option.getD_none]

/-- The machine follows every rule: what the instruction prepares and the loop completes is the step. -/
theorem turn_of_step (h : Step m.labels m.program c c') : (m.during c).turn = .next (m.during c') := by
  cases h with
  | add fetch | sub fetch | mul fetch | lin fetch => exact turn_during_of_ok fetch rfl rfl
  | div fetch divisor => exact turn_during_of_ok fetch (if_neg divisor) rfl
  | out fetch => exact turn_during_of_ok fetch rfl (advance_emit_during m c _)
  | pass fetch zero => exact turn_during_of_ok fetch (if_pos zero) rfl
  | @jump label? register target index fetch nonzero known =>
      have hbranch : (m.during c).branch target = .ok { m.during c with pending := some index } := by
        unfold branch during
        rw [known]
      exact turn_during_of_ok fetch ((if_neg nonzero).trans hbranch) rfl

theorem turn_of_fault (h : Fault m.labels m.program c error) : (m.during c).turn = .fault error := by
  cases h with
  | division fetch divisor => exact turn_during_of_error fetch (if_pos divisor)
  | @target label? register target fetch nonzero unknown =>
      have hbranch : (m.during c).branch target = .error (.unresolvedTarget target) := by
        unfold branch during
        rw [unknown]
      exact turn_during_of_error fetch ((if_neg nonzero).trans hbranch)

theorem turn_of_size_le (h : m.program.size ≤ c.pc) : (m.during c).turn = .halt := by
  have hfetch : (m.during c).program[(m.during c).pc]? = none := Array.getElem?_eq_none h
  rw [turn, hfetch]

/-! ### Whole runs -/

/-- The run of the machine ends, and this is what it comes to. -/
def EndsIn (m : Machine) (run : Run) : Prop := ∃ limit, m.run? limit = some run

/-- What a run is when it stops at a configuration, behind the given instructions. -/
inductive Stops (m : Machine) (fetched : Array Nat) (c : Configuration) : Run → Prop where
  | halt (outside : m.program.size ≤ c.pc) :
      Stops m fetched c { machine := m.during c, fetched, error? := none }
  | fault {error : Error} (fault : Fault m.labels m.program c error) :
      Stops m fetched c { machine := m.during c, fetched := fetched.push c.pc, error? := some error }

theorem steps_of_turns {first : Configuration} {limit : Nat} (hsteps : Steps m.labels m.program first fetched c)
    (h : (m.during c).turns fetched limit = some run) :
    ∃ fetched' last, Steps m.labels m.program first fetched' last ∧ m.Stops fetched' last run := by
  -- The steps that lead to where the turns begin grow as the number of turns shrinks.
  induction limit generalizing c fetched with
  | zero => exact absurd h (by simp [turns])
  | succ limit ih =>
      rw [turns] at h
      rcases Configuration.progress m.labels m.program c with houtside | ⟨error, hfault⟩ | ⟨c', hstep⟩
      · rw [turn_of_size_le houtside] at h
        obtain rfl := Option.some.inj h
        exact ⟨fetched, c, hsteps, .halt houtside⟩
      · rw [turn_of_fault hfault] at h
        obtain rfl := Option.some.inj h
        exact ⟨fetched, c, hsteps, .fault hfault⟩
      · rw [turn_of_step hstep] at h
        exact ih (hsteps.tail hstep) h

theorem Stops.turns_one (h : m.Stops fetched c run) : (m.during c).turns fetched 1 = some run := by
  cases h with
  | halt outside => rw [turns, turn_of_size_le outside]
  | fault fault =>
      rw [turns, turn_of_fault fault]
      rfl

theorem turns_of_steps {first : Configuration} {limit : Nat} (hsteps : Steps m.labels m.program first fetched c)
    (h : (m.during c).turns fetched limit = some run) :
    (m.during first).turns #[] (fetched.size + limit) = some run := by
  -- The last of the steps is one more turn in front of those that are left.
  induction hsteps generalizing limit with
  | refl => simpa using h
  | @tail fetched mid last steps step ih =>
      have hmid : (m.during mid).turns fetched (limit + 1) = some run := by
        rw [turns, turn_of_step step]
        exact h
      have hfirst := ih hmid
      rwa [show (fetched.push mid.pc).size + limit = fetched.size + (limit + 1) by
        rw [Array.size_push]; omega]

/-- A run ends exactly as a sequence of steps from the inputs does that cannot go on. -/
theorem endsIn_iff : m.EndsIn run ↔
    ∃ fetched c, Steps m.labels m.program { registers := m.inputs } fetched c ∧ m.Stops fetched c run := by
  unfold EndsIn run?
  rw [start_eq_during]
  constructor
  · rintro ⟨limit, h⟩
    exact steps_of_turns .refl h
  · rintro ⟨fetched, c, hsteps, hstops⟩
    exact ⟨fetched.size + 1, turns_of_steps hsteps hstops.turns_one⟩

theorem EndsIn.unique {other : Run} (h : m.EndsIn run) (h' : m.EndsIn other) : run = other := by
  obtain ⟨limit, h⟩ := h
  obtain ⟨limit', h'⟩ := h'
  exact run?_unique h h'

end Machine

theorem Run.result_eq_error_iff {run : Run} {error : Error} :
    run.result = .error error ↔ run.error? = some error := by
  unfold Run.result
  cases run.error? <;> simp

theorem Run.result_eq_ok_iff {run : Run} {steps : Nat} :
    run.result = .ok steps ↔ run.error? = none ∧ run.fetched.size = steps := by
  unfold Run.result
  cases run.error? <;> simp

namespace Machine

variable {m : Machine} {error : Error} {run : Run}

theorem endsIn_ok_iff {steps : Nat} : m.EndsIn run ∧ run.result = .ok steps ↔
    ∃ fetched c, Steps m.labels m.program { registers := m.inputs } fetched c ∧ m.program.size ≤ c.pc ∧
      steps = fetched.size ∧ run = { machine := m.during c, fetched, error? := none } := by
  rw [Run.result_eq_ok_iff, endsIn_iff]
  constructor
  · rintro ⟨⟨fetched, c, hsteps, hstops⟩, hresult, hsize⟩
    cases hstops with
    | halt outside => exact ⟨fetched, c, hsteps, outside, hsize.symm, rfl⟩
    | fault fault => cases hresult
  · rintro ⟨fetched, c, hsteps, houtside, rfl, rfl⟩
    exact ⟨⟨fetched, c, hsteps, .halt houtside⟩, rfl, rfl⟩

theorem endsIn_error_iff : m.EndsIn run ∧ run.result = .error error ↔
    ∃ fetched c, Steps m.labels m.program { registers := m.inputs } fetched c ∧
      Fault m.labels m.program c error ∧
      run = { machine := m.during c, fetched := fetched.push c.pc, error? := some error } := by
  rw [Run.result_eq_error_iff, endsIn_iff]
  constructor
  · rintro ⟨⟨fetched, c, hsteps, hstops⟩, hresult⟩
    cases hstops with
    | halt outside => cases hresult
    | fault fault =>
        obtain rfl := Option.some.inj hresult
        exact ⟨fetched, c, hsteps, fault, rfl⟩
  · rintro ⟨fetched, c, hsteps, hfault, rfl⟩
    exact ⟨⟨fetched, c, hsteps, .fault hfault⟩, rfl⟩

/-- A run returns a number of instructions exactly when that many steps lead from the inputs out of the program,
and an error exactly when steps lead to an instruction that fails with it. The machine is then as the last
configuration says: nothing of a failed instruction is seen, and program, labels and inputs are kept. A run
fails in no other way. -/
theorem run_follows_steps (m : Machine) (run : Run) :
    (∀ steps, m.EndsIn run ∧ run.result = .ok steps ↔
      ∃ fetched c, Steps m.labels m.program { registers := m.inputs } fetched c ∧ m.program.size ≤ c.pc ∧
        steps = fetched.size ∧ run = { machine := m.during c, fetched, error? := none }) ∧
    (∀ error, m.EndsIn run ∧ run.result = .error error ↔
      ∃ fetched c, Steps m.labels m.program { registers := m.inputs } fetched c ∧
        Fault m.labels m.program c error ∧
        run = { machine := m.during c, fetched := fetched.push c.pc, error? := some error }) ∧
    (m.EndsIn run → ∀ error, run.result = .error error →
      (∃ instruction, error = .divisionByZero instruction) ∨ ∃ target, error = .unresolvedTarget target) := by
  refine ⟨fun steps => endsIn_ok_iff, fun error => endsIn_error_iff, fun hends error hresult => ?_⟩
  obtain ⟨fetched, c, -, hfault, -⟩ := endsIn_error_iff.mp ⟨hends, hresult⟩
  exact hfault.error_cases

/-- A machine with leftovers of earlier executions: registers, a program counter beyond its program, a pending
branch and a value that was emitted. -/
def worn : Machine where
  labels := ⟨[("again", 0)], by decide, by decide⟩
  program := #[⟨none, .add 1 1 3⟩, ⟨none, .out 1⟩, ⟨none, .bnz 1 "again"⟩, ⟨none, .div 2 1 1⟩]
  inputs := .ofList [(1, 2), (3, -1)]
  registers := .ofList [(1, 7)]
  pc := 5
  pending := some 2
  output := #[9]

/-- The run branches back once and then divides by zero. -/
theorem run_follows_steps_to_division : ∃ run c, worn.EndsIn run ∧
    run.result = .error (.divisionByZero "div 1 / 1 output to register 2") ∧
    Steps worn.labels worn.program { registers := worn.inputs } #[0, 1, 2, 0, 1, 2] c ∧
    run.machine = worn.during c ∧ c.pc = 3 ∧ run.machine.output = #[9, 1, 0] := by
  have hends : (worn.run? 7).map (fun run => (run.machine.output, run.fetched, run.error?)) =
      some (#[9, 1, 0], #[0, 1, 2, 0, 1, 2, 3],
        some (.divisionByZero "div 1 / 1 output to register 2")) := by decide +kernel
  obtain ⟨run, hrun, hparts⟩ := Option.map_eq_some_iff.mp hends
  simp only [Prod.mk.injEq] at hparts
  obtain ⟨houtput, hfetched, herror⟩ := hparts
  have hresult : run.result = .error (.divisionByZero "div 1 / 1 output to register 2") :=
    Run.result_eq_error_iff.mpr herror
  obtain ⟨fetched, c, hsteps, -, rfl⟩ := ((run_follows_steps worn run).2.1 _).mp ⟨⟨7, hrun⟩, hresult⟩
  obtain ⟨hpc, rfl⟩ := Array.push_eq_push.mp
    (show fetched.push c.pc = #[0, 1, 2, 0, 1, 2].push 3 from hfetched)
  exact ⟨_, c, ⟨7, hrun⟩, hresult, hsteps, rfl, hpc, houtput⟩

end Machine

end RegAsm
