import Mathlib.Data.List.Forall2
import RegAsm.Proofs.Effect

/-! Programs without divisions and branches, on numbers of any size. Words wrap around at every instruction, and what
has wrapped goes into later products and out to the reader; numbers never wrap. All the same a word and its number only
ever differ by a multiple of `2 ^ 32`: this is kept by every instruction, register by register and value by value, so
that wrapping at each of them comes to the same as wrapping once at the end. -/

namespace RegAsm

open RegAsm.Configuration (Step Steps)

/-! ### Sums, differences and products of numbers with their words -/

section

variable {a b : Int} {x y : Int32}

theorem Wraps.add (ha : Wraps a x) (hb : Wraps b y) : Wraps (a + b) (x + y) :=
  calc
    (x + y).toInt ≡ x.toInt + y.toInt [ZMOD 2 ^ 32] := wraps_add x y
    _ ≡ a + b [ZMOD 2 ^ 32] := Int.ModEq.add ha hb

theorem Wraps.sub (ha : Wraps a x) (hb : Wraps b y) : Wraps (a - b) (x - y) :=
  calc
    (x - y).toInt ≡ x.toInt - y.toInt [ZMOD 2 ^ 32] := wraps_sub x y
    _ ≡ a - b [ZMOD 2 ^ 32] := Int.ModEq.sub ha hb

theorem Wraps.mul (ha : Wraps a x) (hb : Wraps b y) : Wraps (a * b) (x * y) :=
  calc
    (x * y).toInt ≡ x.toInt * y.toInt [ZMOD 2 ^ 32] := wraps_mul x y
    _ ≡ a * b [ZMOD 2 ^ 32] := Int.ModEq.mul ha hb

theorem wraps_toInt (word : Int32) : Wraps word.toInt word := Int.ModEq.refl _

end

/-! ### Numbers in place of words -/

/-- What a program has come to on numbers of any size. -/
structure Exact where
  /-- The number last written to a register, if it was written at all. -/
  registers : UInt32 → Option Int
  /-- What was emitted, oldest first. -/
  emitted : List Int := []

namespace Exact

def ofRegisters (registers : Registers) : Exact where
  registers index := (registers.get? index).map Int32.toInt

def read (exact : Exact) (index : UInt32) : Int := (exact.registers index).getD 0

def write (exact : Exact) (index : UInt32) (number : Int) : Exact :=
  { exact with registers := fun other => if other = index then some number else exact.registers other }

theorem registers_write (exact : Exact) (index other : UInt32) (number : Int) :
    (exact.write index number).registers other = if other = index then some number else exact.registers other := rfl

def emit (exact : Exact) (number : Int) : Exact := { exact with emitted := exact.emitted ++ [number] }

/-- Carries out an operation, unless it is a division or a branch. -/
def execute? (exact : Exact) : Operation → Option Exact
  | .add result op1 op2 => some (exact.write result (exact.read op1 + exact.read op2))
  | .sub result op1 op2 => some (exact.write result (exact.read op1 - exact.read op2))
  | .mul result op1 op2 => some (exact.write result (exact.read op1 * exact.read op2))
  | .lin register value => some (exact.write register value.toInt)
  | .out register => some (exact.emit (exact.read register))
  | .div .. | .bnz .. => none

/-- Carries out instructions one after another. -/
def executeAll? (exact : Exact) (instructions : List Instruction) : Option Exact :=
  instructions.foldlM (fun exact i => exact.execute? i.operation) exact

/-- Runs a program from inputs. -/
def run? (program : Program) (inputs : Registers) : Option Exact :=
  (ofRegisters inputs).executeAll? program.toList

/-- The words of a configuration are those of the numbers. The same registers are written. -/
structure Wrapped (exact : Exact) (c : Configuration) : Prop where
  registers : ∀ index, Option.Rel Wraps (exact.registers index) (c.registers.get? index)
  emitted : List.Forall₂ Wraps exact.emitted c.emitted.toList

variable {exact : Exact} {c : Configuration}

theorem wrapped_ofRegisters (registers : Registers) : (ofRegisters registers).Wrapped { registers } where
  registers := by
    intro index
    change Option.Rel Wraps ((registers.get? index).map Int32.toInt) (registers.get? index)
    cases registers.get? index with
    | none => exact .none
    | some word => exact .some (wraps_toInt word)
  emitted := .nil

namespace Wrapped

theorem read (h : exact.Wrapped c) (index : UInt32) : Wraps (exact.read index) (c.registers.get index) := by
  have hindex := h.registers index
  rw [Exact.read, Registers.get]
  generalize exact.registers index = number?, c.registers.get? index = word? at hindex ⊢
  cases hindex with
  | none => exact wraps_toInt 0
  | some hword => exact hword

theorem assign (h : exact.Wrapped c) (index : UInt32) {number : Int} {word : Int32} (hword : Wraps number word) :
    (exact.write index number).Wrapped (c.assign index word) where
  registers := by
    intro other
    rw [registers_write, Configuration.assign, Registers.get?_set]
    by_cases hother : other = index
    · rw [if_pos hother, if_pos hother]
      exact .some hword
    · rw [if_neg hother, if_neg hother]
      exact h.registers other
  emitted := h.emitted

theorem emit (h : exact.Wrapped c) {number : Int} {word : Int32} (hword : Wraps number word) :
    (exact.emit number).Wrapped (c.emit word) where
  registers := h.registers
  emitted := by
    rw [Exact.emit, Configuration.emit, Array.toList_push]
    exact List.rel_append h.emitted (.cons hword .nil)

/-- One instruction, on numbers and on words. -/
theorem step (h : exact.Wrapped c) (labels : LabelTable) {program : Program} {i : Instruction}
    (fetch : program[c.pc]? = some i) (hopcode : i.opcode ∈ [.add, .sub, .mul, .lin, .out]) :
    ∃ exact' c', exact.execute? i.operation = some exact' ∧ Step labels program c c' ∧ c'.pc = c.pc + 1 ∧
      exact'.Wrapped c' := by
  obtain ⟨label?, operation⟩ := i
  cases operation with
  | add result op1 op2 => exact ⟨_, _, rfl, .add fetch, rfl, h.assign result ((h.read op1).add (h.read op2))⟩
  | sub result op1 op2 => exact ⟨_, _, rfl, .sub fetch, rfl, h.assign result ((h.read op1).sub (h.read op2))⟩
  | mul result op1 op2 => exact ⟨_, _, rfl, .mul fetch, rfl, h.assign result ((h.read op1).mul (h.read op2))⟩
  | lin register value => exact ⟨_, _, rfl, .lin fetch, rfl, h.assign register (wraps_toInt value)⟩
  | out register => exact ⟨_, _, rfl, .out fetch, rfl, h.emit (h.read register)⟩
  | div | bnz => exact absurd hopcode (by simp [Instruction.opcode, Operation.opcode])

end Wrapped

theorem executeAll?_take_succ {instructions : List Instruction} {count : Nat} {i : Instruction}
    (h : instructions[count]? = some i) (exact : Exact) :
    exact.executeAll? (instructions.take (count + 1)) =
      (exact.executeAll? (instructions.take count)).bind (·.execute? i.operation) := by
  rw [executeAll?, List.take_add_one, h, List.foldlM_append]
  simp only [Option.toList_some, List.foldlM_cons, List.foldlM_nil, bind_pure]
  rfl

/-- As far as the program goes, the steps of the machine and the numbers stay together. -/
theorem exists_wrapped (labels : LabelTable) {program : Program}
    (h : ∀ i ∈ program, i.opcode ∈ [.add, .sub, .mul, .lin, .out]) (inputs : Registers) {count : Nat}
    (hcount : count ≤ program.size) :
    ∃ exact fetched c, (ofRegisters inputs).executeAll? (program.toList.take count) = some exact ∧
      Steps labels program { registers := inputs } fetched c ∧ fetched.size = count ∧ c.pc = count ∧
      exact.Wrapped c := by
  induction count with
  | zero => exact ⟨_, #[], _, rfl, .refl, rfl, rfl, wrapped_ofRegisters inputs⟩
  | succ count ih =>
      obtain ⟨exact, fetched, c, hexact, hsteps, hsize, hpc, hwrapped⟩ := ih (by omega)
      obtain ⟨i, hfetch⟩ : ∃ i, program[count]? = some i := ⟨_, Array.getElem?_eq_getElem (by omega)⟩
      obtain ⟨exact', c', hexecute, hstep, hnext, hwrapped'⟩ :=
        hwrapped.step labels (hpc ▸ hfetch) (h i (Array.mem_of_getElem? hfetch))
      refine ⟨exact', fetched.push c.pc, c', ?_, hsteps.tail hstep, ?_, by omega, hwrapped'⟩
      · rw [executeAll?_take_succ (by rwa [Array.getElem?_toList]), hexact]
        exact hexecute
      · rw [Array.size_push, hsize]

end Exact

namespace Machine

/-- A program without divisions and branches runs to its end, one turn for each instruction. What it leaves in every
register and all that it emits are the words of the numbers that the same instructions give on numbers of any size, and
there is only one such word for each number. -/
theorem run_wraps_exact_run (m : Machine) (h : ∀ i ∈ m.program, i.opcode ∈ [.add, .sub, .mul, .lin, .out]) :
    ∃ run exact emitted, m.run? (m.program.size + 1) = some run ∧ run.result = .ok m.program.size ∧
      Exact.run? m.program m.inputs = some exact ∧
      (∀ index, Option.Rel Wraps (exact.registers index) (run.machine.registers.get? index)) ∧
      (∀ index, Wraps (exact.read index) (run.machine.registers.get index)) ∧
      run.machine.output = m.output ++ emitted ∧ List.Forall₂ Wraps exact.emitted emitted.toList ∧
      ∀ n, ∃! word, Wraps n word := by
  obtain ⟨exact, fetched, c, hexact, hsteps, hsize, hpc, hwrapped⟩ :=
    Exact.exists_wrapped m.labels h m.inputs (Nat.le_refl m.program.size)
  have hrun : m.run? (m.program.size + 1) = some { machine := m.during c, fetched, error? := none } := by
    rw [run?, start_eq_during, ← hsize]
    apply turns_of_steps hsteps
    exact (Stops.halt (by omega)).turns_one
  have hnumbers : Exact.run? m.program m.inputs = some exact := by
    rw [Exact.run?, ← hexact, ← Array.length_toList, List.take_length]
  refine ⟨_, exact, c.emitted, hrun, ?_, hnumbers, hwrapped.registers, hwrapped.read, rfl, hwrapped.emitted,
    existsUnique_wraps⟩
  rw [Run.result_eq_ok_iff]
  exact ⟨rfl, hsize⟩

/-- A machine that squares what has wrapped, writes over its own operands and emits in between. -/
def squaring : Machine where
  labels := ∅
  program := #[⟨none, .add 1 1 1⟩, ⟨none, .mul 2 1 1⟩, ⟨none, .out 2⟩, ⟨none, .mul 2 2 1⟩, ⟨none, .lin 3 (-1)⟩,
    ⟨none, .sub 3 3 2⟩, ⟨none, .out 3⟩]
  inputs := .ofList [(1, 2147483647)]
  output := #[9]

/-- The numbers grow beyond ninety bits, and the words that are emitted are small. -/
theorem run_wraps_exact_run_of_squaring : ∃ run exact, squaring.run? 8 = some run ∧ run.result = .ok 7 ∧
    Exact.run? squaring.program squaring.inputs = some exact ∧
    exact.emitted = [18446744056529682436, -79228162403583873202826248185] ∧
    run.machine.output = #[9, 4, 7] ∧ run.machine.registers.get 2 = -8 := by
  obtain ⟨run, exact, emitted, hrun, hresult, hexact, -, hread, houtput, hemitted, -⟩ :=
    run_wraps_exact_run squaring (by decide)
  have hnumbers : (Exact.run? squaring.program squaring.inputs).map (fun exact => (exact.emitted, exact.read 2)) =
      some ([18446744056529682436, -79228162403583873202826248185], 79228162403583873202826248184) := by
    decide +kernel
  rw [hexact, Option.map_some, Option.some.injEq, Prod.mk.injEq] at hnumbers
  refine ⟨run, exact, hrun, hresult, hexact, hnumbers.1, ?_, ?_⟩
  · rw [hnumbers.1] at hemitted
    obtain ⟨first, rest, hfirst, hrest, hlist⟩ := List.forall₂_cons_left_iff.mp hemitted
    obtain ⟨second, rest, hsecond, hnil, rfl⟩ := List.forall₂_cons_left_iff.mp hrest
    obtain rfl := List.forall₂_nil_left_iff.mp hnil
    rw [wraps_iff.mp hfirst, wraps_iff.mp hsecond] at hlist
    rw [houtput, ← Array.toList_inj, Array.toList_append, hlist]
    decide
  · rw [wraps_iff.mp (hread 2), hnumbers.2]
    decide

end Machine

end RegAsm
