import Mathlib.Data.List.Perm.Subperm
import RegAsm.Proofs.ProgramCounter

/-! Programs whose branches go forward. A step of such a program increases the program counter, whether it goes on to
the next instruction or branches, so the distance to the end shrinks until the run halts or fails, and no instruction
is fetched twice. A label may lie far behind the program: a branch to it only ends the run sooner. -/

namespace RegAsm

open RegAsm.Configuration (Step Steps Fault)

/-- Every branch to a known label leads to a greater index than its own. -/
def BranchesForward (labels : LabelTable) (program : Program) : Prop :=
  ∀ index < program.size, ∀ i ∈ program[index]?, ∀ target ∈ i.operation.target?,
    ∀ goal ∈ labels.indexOf? target, index < goal

instance (labels : LabelTable) (program : Program) : Decidable (BranchesForward labels program) :=
  inferInstanceAs (Decidable (∀ index < program.size, ∀ i ∈ program[index]?, ∀ target ∈ i.operation.target?,
    ∀ goal ∈ labels.indexOf? target, index < goal))

namespace Configuration

variable {labels : LabelTable} {program : Program} {first c c' : Configuration} {fetched : Array Nat}

theorem Step.pc_lt (hforward : BranchesForward labels program) (h : Step labels program c c') : c.pc < c'.pc := by
  cases h with
  | add | sub | mul | div | lin | out | pass => exact Nat.lt_succ_self c.pc
  | @jump label? register target index fetch nonzero known =>
      exact hforward c.pc (Array.getElem?_eq_some_iff.mp fetch).1 _ fetch target rfl index known

/-- One more index behind all the others keeps them ascending. -/
theorem ascending_push {pc : Nat} (h : fetched.toList.Pairwise (· < ·))
    (hbehind : ∀ index ∈ fetched, index < pc) : (fetched.push pc).toList.Pairwise (· < ·) := by
  rw [Array.toList_push, List.pairwise_append]
  refine ⟨h, List.pairwise_singleton _ _, fun index hindex last hlast => ?_⟩
  rw [List.mem_singleton.mp hlast]
  exact hbehind index (Array.mem_toList_iff.mp hindex)

/-- The fetched instructions follow one another in the order of the program, up to where the steps have led. -/
theorem Steps.ascending (hforward : BranchesForward labels program) (h : Steps labels program first fetched c) :
    fetched.toList.Pairwise (· < ·) ∧ ∀ index ∈ fetched, index < c.pc := by
  induction h with
  | refl => simp
  | @tail fetched c c' steps step ih =>
      obtain ⟨hascending, hbehind⟩ := ih
      have hlt : c.pc < c'.pc := step.pc_lt hforward
      refine ⟨ascending_push hascending hbehind, fun index hindex => ?_⟩
      rcases Array.mem_push.mp hindex with hindex | rfl
      · exact Nat.lt_trans (hbehind index hindex) hlt
      · exact hlt

/-- Without divisions and unknown targets there is nothing that could fail. -/
theorem not_fault (hdivision : ∀ i ∈ program, i.opcode ≠ .div)
    (htargets : ∀ i ∈ program, ∀ target ∈ i.operation.target?, target ∈ labels.names) (error : Error) :
    ¬ Fault labels program c error := by
  intro h
  cases h with
  | division fetch divisor => exact hdivision _ (Array.mem_of_getElem? fetch) rfl
  | @target label? register target fetch nonzero unknown =>
      exact (labels.indexOf?_eq_none_iff target).mp unknown (htargets _ (Array.mem_of_getElem? fetch) target rfl)

end Configuration

namespace Machine

variable {m : Machine} {c : Configuration} {fetched : Array Nat} {run : Run}

/-- The distance to the end of the program bounds the turns that are left. -/
theorem exists_turns (hforward : BranchesForward m.labels m.program) {limit : Nat}
    (hlimit : m.program.size - c.pc < limit) : ∃ run, (m.during c).turns fetched limit = some run := by
  induction limit generalizing c fetched with
  | zero => omega
  | succ limit ih =>
      rw [turns]
      rcases Configuration.progress m.labels m.program c with houtside | ⟨error, hfault⟩ | ⟨c', hstep⟩
      · rw [turn_of_size_le houtside]
        exact ⟨_, rfl⟩
      · rw [turn_of_fault hfault]
        exact ⟨_, rfl⟩
      · have hinside : c.pc < m.program.size := hstep.pc_cases.1
        have hlt : c.pc < c'.pc := hstep.pc_lt hforward
        rw [turn_of_step hstep]
        exact ih (by omega)

theorem EndsIn.ascending (hforward : BranchesForward m.labels m.program) (h : m.EndsIn run) :
    run.fetched.toList.Pairwise (· < ·) ∧ ∀ index ∈ run.fetched, index < m.program.size := by
  obtain ⟨fetched, c, hsteps, hstops⟩ := endsIn_iff.mp h
  obtain ⟨hascending, hbehind⟩ := hsteps.ascending hforward
  cases hstops with
  | halt outside => exact ⟨hascending, hsteps.fetched_lt⟩
  | fault fault =>
      refine ⟨Configuration.ascending_push hascending hbehind, fun index hindex => ?_⟩
      rcases Array.mem_push.mp hindex with hindex | rfl
      · exact hsteps.fetched_lt index hindex
      · exact fault.pc_lt

/-- When every branch to a known label goes forward, each run ends, at the latest when every instruction has had its
turn. No instruction is executed twice, so a run that halts has executed no more instructions than there are. If there
is no division and every target is known, the run halts. -/
theorem forward_branches_end (h : BranchesForward m.labels m.program) :
    ∃ run, m.run? (m.program.size + 1) = some run ∧ run.fetched.toList.Nodup ∧
      (∀ steps, run.result = .ok steps → steps ≤ m.program.size) ∧
      ((∀ i ∈ m.program, i.opcode ≠ .div) →
        (∀ i ∈ m.program, ∀ target ∈ i.operation.target?, target ∈ m.labels.names) →
        ∃ steps, run.result = .ok steps) := by
  obtain ⟨run, hrun⟩ : ∃ run, m.run? (m.program.size + 1) = some run := by
    rw [run?, start_eq_during]
    exact exists_turns h (Nat.lt_succ_self m.program.size)
  have hends : m.EndsIn run := ⟨_, hrun⟩
  obtain ⟨hascending, hinside⟩ := hends.ascending h
  have hnodup : run.fetched.toList.Nodup := hascending.imp Nat.ne_of_lt
  refine ⟨run, hrun, hnodup, fun steps hresult => ?_, fun hdivision htargets => ?_⟩
  · have hrange : run.fetched.toList ⊆ List.range m.program.size := fun index hindex =>
      List.mem_range.mpr (hinside index (Array.mem_toList_iff.mp hindex))
    have hlength := (hnodup.subperm hrange).length_le
    rw [List.length_range, Array.length_toList] at hlength
    rwa [← (Run.result_eq_ok_iff.mp hresult).2]
  · cases hresult : run.result with
    | ok steps => exact ⟨steps, rfl⟩
    | error error =>
        obtain ⟨-, c, -, hfault, -⟩ := endsIn_error_iff.mp ⟨hends, hresult⟩
        exact absurd hfault (Configuration.not_fault hdivision htargets error)

/-- A machine that skips a division and a value, the latter by a branch to the largest word. The target that is not
known is never branched to. -/
def skipping : Machine where
  labels := ⟨[("over", 3), ("far", 18446744073709551615)], by decide, by decide⟩
  program := #[⟨none, .lin 1 5⟩, ⟨none, .bnz 1 "over"⟩, ⟨none, .div 2 1 0⟩, ⟨some "over", .bnz 2 "nowhere"⟩,
    ⟨none, .bnz 1 "far"⟩, ⟨none, .out 1⟩]

/-- The run of one machine skips what it cannot execute; another one has neither divisions nor unknown targets. -/
theorem forward_branches_end_beyond_program :
    (∃ run, skipping.run? 7 = some run ∧ run.fetched = #[0, 1, 3, 4] ∧ run.fetched.toList.Nodup ∧
      run.result = .ok 4 ∧ 4 ≤ skipping.program.size) ∧
    ∃ run steps, branchingFar.run? 3 = some run ∧ run.result = .ok steps ∧ steps ≤ 2 := by
  constructor
  · obtain ⟨run, hrun, hnodup, hsteps, -⟩ := forward_branches_end (m := skipping) (by decide +kernel)
    have hparts : (skipping.run? 7).map (fun run => (run.fetched, run.error?)) = some (#[0, 1, 3, 4], none) := by
      decide +kernel
    have hrun : skipping.run? 7 = some run := hrun
    rw [hrun, Option.map_some, Option.some.injEq, Prod.mk.injEq] at hparts
    have hresult : run.result = .ok 4 := Run.result_eq_ok_iff.mpr ⟨hparts.2, by rw [hparts.1]; rfl⟩
    exact ⟨run, hrun, hparts.1, hnodup, hresult, hsteps 4 hresult⟩
  · obtain ⟨run, hrun, -, hsteps, hok⟩ := forward_branches_end (m := branchingFar) (by decide +kernel)
    obtain ⟨steps, hresult⟩ := hok (by decide) (by decide)
    exact ⟨run, steps, hrun, hresult, hsteps steps hresult⟩

end Machine

end RegAsm
