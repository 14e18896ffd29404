import RegAsm.Error
import RegAsm.LabelTable
import RegAsm.Program
import RegAsm.Registers

/-! The register machine and the effect of a single instruction on it. Arithmetic is that of signed words: it
wraps around, and division goes toward zero. -/

namespace RegAsm

structure Machine where
  labels : LabelTable
  program : Program
  /-- The register file that every run starts from. -/
  inputs : Registers := ∅
  registers : Registers := ∅
  /-- The index of the next instruction. -/
  pc : Nat := 0
  /-- Where the last instruction wants to go, if not to the one behind it. -/
  pending : Option Nat := none
  /-- All that was ever emitted, oldest first. -/
  output : Array Int32 := #[]
deriving DecidableEq, Repr

namespace Machine

/-- Sets the register file that later runs start from. -/
def withInputs (m : Machine) (inputs : Registers) : Machine := { m with inputs }

def read (m : Machine) (index : UInt32) : Int32 := m.registers.get index

def write (m : Machine) (index : UInt32) (value : Int32) : Machine :=
  { m with registers := m.registers.set index value }

def emit (m : Machine) (value : Int32) : Machine :=
  { m with output := m.output.push value }

/-- Prepares a branch to a label. -/
def branch (m : Machine) (target : String) : Except Error Machine :=
  match m.labels.indexOf? target with
  | some index => .ok { m with pending := some index }
  | none => .error (.unresolvedTarget target)

/-- Executes one instruction. The program counter stays where it is: a taken branch is only prepared. -/
def execute (m : Machine) (i : Instruction) : Except Error Machine :=
  match i.operation with
  | .add result op1 op2 => .ok (m.write result (m.read op1 + m.read op2))
  | .sub result op1 op2 => .ok (m.write result (m.read op1 - m.read op2))
  | .mul result op1 op2 => .ok (m.write result (m.read op1 * m.read op2))
  | .div result op1 op2 =>
    if m.read op2 = 0 then .error (.divisionByZero i.describe)
    else .ok (m.write result (m.read op1 / m.read op2))
  | .lin register value => .ok (m.write register value)
  | .out register => .ok (m.emit (m.read register))
  | .bnz register target => if m.read register = 0 then .ok m else m.branch target

/-- All that an instruction can do: write a register, emit a value, nothing, or prepare a branch. -/
theorem execute_cases {m m' : Machine} {i : Instruction} (h : m.execute i = .ok m') :
    (∃ index value, m' = m.write index value) ∨ (∃ value, m' = m.emit value) ∨ m' = m ∨
      ∃ index, m' = { m with pending := some index } := by
  obtain ⟨label?, operation⟩ := i
  cases operation with
  | add | sub | mul | lin => exact .inl ⟨_, _, (Except.ok.inj h).symm⟩
  | div =>
    simp only [execute] at h
    split at h
    · cases h
    · exact .inl ⟨_, _, (Except.ok.inj h).symm⟩
  | out => exact .inr (.inl ⟨_, (Except.ok.inj h).symm⟩)
  | bnz =>
    simp only [execute] at h
    split at h
    · exact .inr (.inr (.inl (Except.ok.inj h).symm))
    · rw [branch] at h
      split at h
      · exact .inr (.inr (.inr ⟨_, (Except.ok.inj h).symm⟩))
      · cases h

/-- Goes on to the next instruction, which a pending branch decides. -/
def advance (m : Machine) : Machine :=
  { m with pc := m.pending.getD (m.pc + 1), pending := none }

def start (m : Machine) : Machine :=
  { m with registers := m.inputs, pc := 0, pending := none }

end Machine

end RegAsm
