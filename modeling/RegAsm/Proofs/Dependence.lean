import RegAsm.Proofs.StepRelation

/-! What a run takes from its inputs. It looks at the registers that the instructions of the program read and at
no others: from inputs that agree on these, two runs go through the same instructions, side by side, emit the
same values and fail in the same way, and whatever one of them writes the other writes too. A register that no
instruction writes keeps its entry. -/

namespace RegAsm

open RegAsm.Configuration (Step Steps Fault)

def Operation.reads : Operation → List UInt32
  | .add _ op1 op2 | .sub _ op1 op2 | .mul _ op1 op2 | .div _ op1 op2 => [op1, op2]
  | .out register | .bnz register _ => [register]
  | .lin .. => []

/-- The register that an operation writes, if it is executed. -/
def Operation.destination? : Operation → Option UInt32
  | .add result _ _ | .sub result _ _ | .mul result _ _ | .div result _ _ => some result
  | .lin register _ => some register
  | .out _ | .bnz .. => none

namespace Program

/-- Some instruction of the program reads the register. -/
def Reads (program : Program) (index : UInt32) : Prop := ∃ i ∈ program, index ∈ i.operation.reads

/-- Some instruction of the program has the register for its destination. -/
def Writes (program : Program) (index : UInt32) : Prop :=
  ∃ i ∈ program, i.operation.destination? = some index

/-- One of the instructions at these indices has the register for its destination. -/
def WritesAt (program : Program) (executed : Array Nat) (index : UInt32) : Prop :=
  ∃ pc ∈ executed, (program[pc]?.bind (·.operation.destination?)) = some index

variable {program : Program} {pc : Nat} {i : Instruction} {index : UInt32}

theorem reads_of_fetch (fetch : program[pc]? = some i) (h : index ∈ i.operation.reads) :
    program.Reads index :=
  ⟨i, Array.mem_of_getElem? fetch, h⟩

theorem writesAt_push {executed : Array Nat} (fetch : program[pc]? = some i) :
    program.WritesAt (executed.push pc) index ↔
      program.WritesAt executed index ∨ i.operation.destination? = some index := by
  unfold WritesAt
  simp only [Array.mem_push]
  constructor
  · rintro ⟨place, hplace | rfl, hdestination⟩
    · exact Or.inl ⟨place, hplace, hdestination⟩
    · rw [fetch] at hdestination
      exact Or.inr hdestination
  · rintro (⟨place, hplace, hdestination⟩ | hdestination)
    · exact ⟨place, Or.inl hplace, hdestination⟩
    · refine ⟨pc, Or.inr rfl, ?_⟩
      rw [fetch]
      exact hdestination

end Program

/-- The indices of the executed instructions. One that fails is fetched, but not executed. -/
def Run.executed (run : Run) : Array Nat :=
  match run.error? with
  | none => run.fetched
  | some _ => run.fetched.pop

/-- The register was written in the course of the run. -/
def Run.Writes (run : Run) (index : UInt32) : Prop :=
  run.machine.program.WritesAt run.executed index

namespace Configuration

variable {labels : LabelTable} {program : Program} {first first' c c' d d' : Configuration}
  {executed fetched : Array Nat} {error : Error} {i : Instruction}

/-! ### Two runs side by side -/

/-- Nothing that the program reads or that was written on the way tells the configurations apart. -/
structure Alike (program : Program) (executed : Array Nat) (c d : Configuration) : Prop where
  pc : c.pc = d.pc
  emitted : c.emitted = d.emitted
  registers : ∀ index, program.Reads index ∨ program.WritesAt executed index →
    c.registers.get index = d.registers.get index

namespace Alike

theorem fetch (h : Alike program executed c d) (hfetch : program[c.pc]? = some i) :
    program[d.pc]? = some i := by
  rwa [← h.pc]

theorem read (h : Alike program executed c d) {index : UInt32} (hfetch : program[c.pc]? = some i)
    (hreads : index ∈ i.operation.reads) : c.registers.get index = d.registers.get index :=
  h.registers index (Or.inl (Program.reads_of_fetch hfetch hreads))

theorem operands (h : Alike program executed c d) {op1 op2 : UInt32} (hfetch : program[c.pc]? = some i)
    (hreads : i.operation.reads = [op1, op2]) :
    c.registers.get op1 = d.registers.get op1 ∧ c.registers.get op2 = d.registers.get op2 := by
  constructor
  · exact h.read hfetch (by simp [hreads])
  · exact h.read hfetch (by simp [hreads])

/-- One more instruction on both sides: its destination joins the registers on which they agree, provided they
write the same value to it and leave all others alone. -/
theorem push (h : Alike program executed c d) (hfetch : program[c.pc]? = some i) (hpc : c'.pc = d'.pc)
    (hemitted : c'.emitted = d'.emitted)
    (hwritten : ∀ index, i.operation.destination? = some index →
      c'.registers.get index = d'.registers.get index)
    (hkept : ∀ index, i.operation.destination? ≠ some index →
      c'.registers.get index = c.registers.get index ∧ d'.registers.get index = d.registers.get index) :
    Alike program (executed.push c.pc) c' d' where
  pc := hpc
  emitted := hemitted
  registers := by
    intro index hindex
    by_cases hdestination : i.operation.destination? = some index
    · exact hwritten index hdestination
    · obtain ⟨hc, hd⟩ := hkept index hdestination
      rw [Program.writesAt_push hfetch, or_iff_left hdestination] at hindex
      rw [hc, hd]
      exact h.registers index hindex

theorem assign (h : Alike program executed c d) {destination : UInt32} (value : Int32)
    (hfetch : program[c.pc]? = some i) (hdestination : i.operation.destination? = some destination) :
    Alike program (executed.push c.pc) (c.assign destination value) (d.assign destination value) := by
  apply h.push hfetch
  · exact congrArg (· + 1) h.pc
  · exact h.emitted
  · intro index hindex
    obtain rfl := Option.some.inj (hdestination.symm.trans hindex)
    simp only [Configuration.assign, Registers.get_set, if_true]
  · intro index hindex
    have hne : index ≠ destination := by
      rintro rfl
      exact hindex hdestination
    simp only [Configuration.assign, Registers.get_set, if_neg hne, and_self]

/-- An instruction without a destination. -/
theorem keep (h : Alike program executed c d) (hfetch : program[c.pc]? = some i)
    (hdestination : i.operation.destination? = none) (hpc : c'.pc = d'.pc) (hemitted : c'.emitted = d'.emitted)
    (hc : c'.registers = c.registers) (hd : d'.registers = d.registers) :
    Alike program (executed.push c.pc) c' d' := by
  apply h.push hfetch hpc hemitted
  · intro index hindex
    rw [hdestination] at hindex
    cases hindex
  · intro index _
    rw [hc, hd]
    exact ⟨rfl, rfl⟩

theorem step (h : Alike program executed c d) (hstep : Step labels program c c') :
    ∃ d', Step labels program d d' ∧ Alike program (executed.push c.pc) c' d' := by
  cases hstep with
  | @add label? result op1 op2 fetch =>
      obtain ⟨hop1, hop2⟩ := h.operands fetch rfl
      rw [hop1, hop2]
      exact ⟨_, .add (h.fetch fetch), h.assign _ fetch rfl⟩
  | @sub label? result op1 op2 fetch =>
      obtain ⟨hop1, hop2⟩ := h.operands fetch rfl
      rw [hop1, hop2]
      exact ⟨_, .sub (h.fetch fetch), h.assign _ fetch rfl⟩
  | @mul label? result op1 op2 fetch =>
      obtain ⟨hop1, hop2⟩ := h.operands fetch rfl
      rw [hop1, hop2]
      exact ⟨_, .mul (h.fetch fetch), h.assign _ fetch rfl⟩
  | @div label? result op1 op2 fetch divisor =>
      obtain ⟨hop1, hop2⟩ := h.operands fetch rfl
      rw [hop2] at divisor
      rw [hop1, hop2]
      exact ⟨_, .div (h.fetch fetch) divisor, h.assign _ fetch rfl⟩
  | lin fetch => exact ⟨_, .lin (h.fetch fetch), h.assign _ fetch rfl⟩
  | @out label? register fetch =>
      have hvalue : c.registers.get register = d.registers.get register :=
        h.read fetch (by simp [Operation.reads])
      refine ⟨_, .out (h.fetch fetch), h.keep fetch rfl (congrArg (· + 1) h.pc) ?_ rfl rfl⟩
      show c.emitted.push (c.registers.get register) = d.emitted.push (d.registers.get register)
      rw [h.emitted, hvalue]
  | @pass label? register target fetch zero =>
      rw [h.read fetch (by simp [Operation.reads])] at zero
      exact ⟨_, .pass (h.fetch fetch) zero, h.keep fetch rfl (congrArg (· + 1) h.pc) h.emitted rfl rfl⟩
  | @jump label? register target index fetch nonzero known =>
      rw [h.read fetch (by simp [Operation.reads])] at nonzero
      exact ⟨_, .jump (h.fetch fetch) nonzero known, h.keep fetch rfl rfl h.emitted rfl rfl⟩

theorem fault (h : Alike program executed c d) (hfault : Fault labels program c error) :
    Fault labels program d error := by
  cases hfault with
  | @division label? result op1 op2 fetch divisor =>
      rw [h.read fetch (by simp [Operation.reads])] at divisor
      exact .division (h.fetch fetch) divisor
  | @target label? register target fetch nonzero unknown =>
      rw [h.read fetch (by simp [Operation.reads])] at nonzero
      exact .target (h.fetch fetch) nonzero unknown

/-- The second run has a step for every step of the first. -/
theorem steps (h : Alike program #[] first first') (hsteps : Steps labels program first fetched c) :
    ∃ d, Steps labels program first' fetched d ∧ Alike program fetched c d := by
  induction hsteps with
  | refl => exact ⟨first', .refl, h⟩
  | tail steps step ih =>
      obtain ⟨d, hsteps, halike⟩ := ih
      obtain ⟨d', hstep, halike'⟩ := halike.step step
      refine ⟨d', ?_, halike'⟩
      rw [halike.pc]
      exact hsteps.tail hstep

end Alike

/-! ### Registers that are not written -/

theorem Step.get?_of_not_writes (h : Step labels program c c') {index : UInt32}
    (hindex : ¬ program.Writes index) : c'.registers.get? index = c.registers.get? index := by
  have hassign : ∀ {i : Instruction} {destination : UInt32} (value : Int32), program[c.pc]? = some i →
      i.operation.destination? = some destination →
      (c.assign destination value).registers.get? index = c.registers.get? index := by
    intro i destination value hfetch hdestination
    have hne : index ≠ destination := by
      rintro rfl
      exact hindex ⟨i, Array.mem_of_getElem? hfetch, hdestination⟩
    show (c.registers.set destination value).get? index = c.registers.get? index
    rw [Registers.get?_set, if_neg hne]
  cases h with
  | add fetch | sub fetch | mul fetch | div fetch _ | lin fetch => exact hassign _ fetch rfl
  | out _ | pass _ _ | jump _ _ _ => rfl

theorem Steps.get?_of_not_writes (h : Steps labels program first fetched c) {index : UInt32}
    (hindex : ¬ program.Writes index) : c.registers.get? index = first.registers.get? index := by
  induction h with
  | refl => rfl
  | tail _ step ih => exact (step.get?_of_not_writes hindex).trans ih

end Configuration

namespace Machine

open RegAsm.Configuration (Alike)

variable {m : Machine} {inputs other : Registers} {run run' : Run} {fetched : Array Nat}
  {c d : Configuration}

theorem Stops.executed (h : m.Stops fetched c run) :
    run.executed = fetched ∧ run.machine = m.during c := by
  cases h with
  | halt _ => exact ⟨rfl, rfl⟩
  | fault _ => exact ⟨Array.pop_push, rfl⟩

/-- Where one run stops the other does, in the same way. -/
theorem Stops.alike (h : (m.withInputs inputs).Stops fetched c run) (halike : Alike m.program fetched c d)
    (other : Registers) :
    ∃ run', (m.withInputs other).Stops fetched d run' ∧ run'.result = run.result := by
  cases h with
  | halt outside =>
      rw [halike.pc] at outside
      exact ⟨_, .halt outside, rfl⟩
  | fault fault => exact ⟨_, .fault (halike.fault fault), rfl⟩

/-- A run that ends has a counterpart from any inputs that agree on what the program reads. -/
theorem EndsIn.alike (h : (m.withInputs inputs).EndsIn run)
    (hagree : ∀ index, m.program.Reads index → inputs.get index = other.get index) :
    ∃ run', (m.withInputs other).EndsIn run' ∧ run'.result = run.result ∧
      run'.machine.pc = run.machine.pc ∧ run'.machine.output = run.machine.output ∧
      ∀ index, m.program.Reads index ∨ run.Writes index →
        run'.machine.registers.get index = run.machine.registers.get index := by
  obtain ⟨fetched, c, hsteps, hstops⟩ := endsIn_iff.mp h
  have hstart : Alike m.program #[] { registers := inputs } { registers := other } := by
    refine ⟨rfl, rfl, ?_⟩
    rintro index (hreads | ⟨pc, hpc, -⟩)
    · exact hagree index hreads
    · exact absurd hpc (Array.not_mem_empty pc)
  obtain ⟨d, hsteps', halike⟩ := hstart.steps hsteps
  obtain ⟨run', hstops', hresult⟩ := hstops.alike halike other
  obtain ⟨hexecuted, hmachine⟩ := hstops.executed
  obtain ⟨-, hmachine'⟩ := hstops'.executed
  refine ⟨run', endsIn_iff.mpr ⟨fetched, d, hsteps', hstops'⟩, hresult, ?_, ?_, ?_⟩
  · rw [hmachine, hmachine']
    exact halike.pc.symm
  · rw [hmachine, hmachine']
    exact congrArg (m.output ++ ·) halike.emitted.symm
  · intro index hindex
    unfold Run.Writes at hindex
    rw [hexecuted, hmachine] at hindex
    rw [hmachine, hmachine']
    exact (halike.registers index hindex).symm

/-- Runs from inputs that agree on the registers which the program reads end together, with the same number of
instructions or the same error, at the same place and with the same values emitted; their registers agree where
the program reads them or the run has written them. In any run a register that is no destination in the program
keeps its entry, or its lack of one. -/
theorem run_depends_on_registers_read (m : Machine) :
    (∀ inputs other : Registers,
      (∀ index, m.program.Reads index → inputs.get index = other.get index) →
      ((∃ run, (m.withInputs inputs).EndsIn run) ↔ ∃ run, (m.withInputs other).EndsIn run) ∧
      ∀ run run', (m.withInputs inputs).EndsIn run → (m.withInputs other).EndsIn run' →
        run'.result = run.result ∧ run'.machine.pc = run.machine.pc ∧
        run'.machine.output = run.machine.output ∧
        ∀ index, m.program.Reads index ∨ run.Writes index →
          run'.machine.registers.get index = run.machine.registers.get index) ∧
    ∀ run, m.EndsIn run → ∀ index, ¬ m.program.Writes index →
      run.machine.registers.get? index = m.inputs.get? index := by
  refine ⟨fun inputs other hagree => ⟨⟨?_, ?_⟩, ?_⟩, ?_⟩
  · rintro ⟨run, hends⟩
    obtain ⟨run', hends', -⟩ := hends.alike hagree
    exact ⟨run', hends'⟩
  · rintro ⟨run, hends⟩
    obtain ⟨run', hends', -⟩ := hends.alike fun index hreads => (hagree index hreads).symm
    exact ⟨run', hends'⟩
  · intro run run' hends hends'
    obtain ⟨twin, htwin, halike⟩ := hends.alike hagree
    obtain rfl := hends'.unique htwin
    exact halike
  · intro run hends index hindex
    obtain ⟨fetched, c, hsteps, hstops⟩ := endsIn_iff.mp hends
    rw [hstops.executed.2]
    exact hsteps.get?_of_not_writes hindex

/-- A register that holds zero counts as one that was never written: two runs fail at the same division. Its
destination, which was not written, may still differ. -/
theorem run_depends_on_registers_read_of_zero : ∃ run run',
    (worn.withInputs (.ofList [(1, 0), (3, 0)])).EndsIn run ∧
    (worn.withInputs (.ofList [(2, 7), (9, 4)])).EndsIn run' ∧
    run.result = .error (.divisionByZero "div 1 / 1 output to register 2") ∧
    run'.result = run.result ∧ run'.machine.output = #[9, 0] ∧
    run'.machine.registers.get 1 = run.machine.registers.get 1 ∧
    run'.machine.registers.get? 9 = some 4 := by
  have hagree : ∀ index, worn.program.Reads index →
      (Registers.ofList [(1, 0), (3, 0)]).get index = (Registers.ofList [(2, 7), (9, 4)]).get index := by
    have hread : worn.program.toList.flatMap (·.operation.reads) = [1, 3, 1, 1, 1, 1] := rfl
    rintro index ⟨i, hi, hindex⟩
    have hmem : index ∈ [1, 3, 1, 1, 1, 1] := hread ▸ List.mem_flatMap.mpr ⟨i, hi.val, hindex⟩
    obtain rfl | rfl : index = 1 ∨ index = 3 := by grind
    · rfl
    · rfl
  have hreads : worn.program.Reads 1 :=
    Program.reads_of_fetch (show worn.program[1]? = some ⟨none, .out 1⟩ from rfl) (by decide)
  have hended : ((worn.withInputs (.ofList [(1, 0), (3, 0)])).run? 4).map
      (fun run => (run.error?, run.machine.output)) =
      some (some (.divisionByZero "div 1 / 1 output to register 2"), #[9, 0]) := by decide +kernel
  obtain ⟨run, hrun, hparts⟩ := Option.map_eq_some_iff.mp hended
  obtain ⟨herror, houtput⟩ := Prod.mk.inj hparts
  obtain ⟨hiff, hsame⟩ := (run_depends_on_registers_read worn).1 _ _ hagree
  obtain ⟨run', hends'⟩ := hiff.mp ⟨run, 4, hrun⟩
  obtain ⟨hresult, -, hemitted, hregisters⟩ := hsame run run' ⟨4, hrun⟩ hends'
  refine ⟨run, run', ⟨4, hrun⟩, hends', Run.result_eq_error_iff.mpr herror, hresult,
    hemitted.trans houtput, hregisters 1 (Or.inl hreads), ?_⟩
  have hkept := (run_depends_on_registers_read (worn.withInputs (.ofList [(2, 7), (9, 4)]))).2 run' hends' 9
  rw [hkept (by
    rintro ⟨i, hi, hdestination⟩
    exact (show ∀ i ∈ worn.program, i.operation.destination? ≠ some 9 by decide) i hi hdestination)]
  rfl

end Machine

end RegAsm
