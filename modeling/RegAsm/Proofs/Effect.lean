import Mathlib.Data.Int.ModEq
import RegAsm.Proofs.History

/-! The exact effect of every instruction. The rules below are about numbers: a sum, a difference or a product becomes
the word that differs from it by a multiple of `2 ^ 32`, and a quotient is cut off toward zero. They say what becomes of
each register and of every other part of the machine, whichever of the registers of an instruction are the same. -/

namespace RegAsm

/-! ### Words that stand for numbers -/

/-- The word and the number differ by a multiple of `2 ^ 32`. -/
def Wraps (n : Int) (word : Int32) : Prop := word.toInt ≡ n [ZMOD 2 ^ 32]

theorem wraps_iff {n : Int} {word : Int32} : Wraps n word ↔ word = Int32.ofInt n := by
  rw [eq_comm, Int32.ofInt_eq_iff_bmod_eq_toInt]
  constructor
  · intro h
    have hresidue : n % ((2 ^ 32 : Nat) : Int) = word.toInt % ((2 ^ 32 : Nat) : Int) := h.symm
    calc
      n.bmod (2 ^ 32) = (n % ((2 ^ 32 : Nat) : Int)).bmod (2 ^ 32) := (Int.emod_bmod n _).symm
      _ = word.toInt.bmod (2 ^ 32) := by rw [hresidue, Int.emod_bmod]
      _ = word.toInt := word.toInt_bmod_size
  · intro h
    rw [Wraps, ← h]
    exact Int.bmod_emod

/-- Every number has exactly one such word. -/
theorem existsUnique_wraps (n : Int) : ∃! word : Int32, Wraps n word :=
  ⟨Int32.ofInt n, wraps_iff.mpr rfl, fun _ h => wraps_iff.mp h⟩

theorem Wraps.unique {n : Int} {word other : Int32} (h : Wraps n word) (h' : Wraps n other) : word = other :=
  (wraps_iff.mp h).trans (wraps_iff.mp h').symm

section

variable (a b : Int32)

theorem wraps_add : Wraps (a.toInt + b.toInt) (a + b) := by
  rw [wraps_iff, Int32.ofInt_add, Int32.ofInt_toInt, Int32.ofInt_toInt]

theorem wraps_sub : Wraps (a.toInt - b.toInt) (a - b) := by
  rw [wraps_iff, Int32.ofInt_sub, Int32.ofInt_toInt, Int32.ofInt_toInt]

theorem wraps_mul : Wraps (a.toInt * b.toInt) (a * b) := by
  rw [wraps_iff, Int32.ofInt_mul, Int32.ofInt_toInt, Int32.ofInt_toInt]

/-- A quotient fits into a word, but for that of the smallest word and minus one. -/
theorem toInt_div_cases : (a / b).toInt =
    if a.toInt = -2 ^ 31 ∧ b.toInt = -1 then -2 ^ 31 else a.toInt.tdiv b.toInt := by
  by_cases ha : a = Int32.minValue
  · by_cases hb : b = -1
    · subst ha hb
      decide
    · rw [Int32.toInt_div_of_ne_right a b hb, if_neg fun h => hb (Int32.toInt_inj.mp h.2)]
  · rw [Int32.toInt_div_of_ne_left a b ha, if_neg fun h => ha (Int32.toInt_inj.mp h.1)]

end

namespace Machine

/-! ### The rules -/

/-- The register gets the value. Every other register keeps its entry, and every other part of the machine stays. -/
structure Assigns (m : Machine) (index : UInt32) (value : Int32) (m' : Machine) : Prop where
  written : m'.registers.get? index = some value
  kept : ∀ other, other ≠ index → m'.registers.get? other = m.registers.get? other
  output : m'.output = m.output
  pc : m'.pc = m.pc
  inputs : m'.inputs = m.inputs
  labels : m'.labels = m.labels
  program : m'.program = m.program
  pending : m'.pending = m.pending

/-- What an operation does to a machine. -/
inductive Effect (m : Machine) : Operation → Machine → Prop where
  | add {result op1 op2 value m'} (sum : Wraps ((m.read op1).toInt + (m.read op2).toInt) value)
      (assigns : m.Assigns result value m') : Effect m (.add result op1 op2) m'
  | sub {result op1 op2 value m'} (difference : Wraps ((m.read op1).toInt - (m.read op2).toInt) value)
      (assigns : m.Assigns result value m') : Effect m (.sub result op1 op2) m'
  | mul {result op1 op2 value m'} (product : Wraps ((m.read op1).toInt * (m.read op2).toInt) value)
      (assigns : m.Assigns result value m') : Effect m (.mul result op1 op2) m'
  | div {result op1 op2 value m'} (divisor : m.read op2 ≠ 0)
      (quotient : value.toInt = if (m.read op1).toInt = -2 ^ 31 ∧ (m.read op2).toInt = -1 then -2 ^ 31
        else (m.read op1).toInt.tdiv (m.read op2).toInt)
      (assigns : m.Assigns result value m') : Effect m (.div result op1 op2) m'
  | lin {register value m'} (assigns : m.Assigns register value m') : Effect m (.lin register value) m'
  | out {register} : Effect m (.out register) { m with output := m.output.push (m.read register) }
  | pass {register target} (zero : m.read register = 0) : Effect m (.bnz register target) m
  | branch {register target index} (nonzero : m.read register ≠ 0)
      (known : m.labels.indexOf? target = some index) :
      Effect m (.bnz register target) { m with pending := some index }

/-- Why an instruction cannot be executed. -/
inductive Failure (m : Machine) : Instruction → Error → Prop where
  | division {label? result op1 op2} (divisor : m.read op2 = 0) :
      Failure m ⟨label?, .div result op1 op2⟩ (.divisionByZero (Instruction.describe ⟨label?, .div result op1 op2⟩))
  | target {label? register target} (nonzero : m.read register ≠ 0) (unknown : m.labels.indexOf? target = none) :
      Failure m ⟨label?, .bnz register target⟩ (.unresolvedTarget target)

variable {m m' : Machine} {i : Instruction} {error : Error}

theorem assigns_iff {index : UInt32} {value : Int32} : m.Assigns index value m' ↔ m' = m.write index value := by
  constructor
  · intro h
    have hregisters : m'.registers = m.registers.set index value := by
      apply Registers.ext_get?
      intro other
      rw [Registers.get?_set]
      split
      · next heq => rw [heq, h.written]
      · next hne => exact h.kept other hne
    obtain ⟨labels, program, inputs, registers, pc, pending, output⟩ := m'
    rw [write, ← hregisters, ← h.output, ← h.pc, ← h.inputs, ← h.labels, ← h.program, ← h.pending]
  · rintro rfl
    exact {
      written := by rw [write, Registers.get?_set, if_pos rfl]
      kept := fun other hne => by rw [write, Registers.get?_set, if_neg hne]
      output := rfl
      pc := rfl
      inputs := rfl
      labels := rfl
      program := rfl
      pending := rfl }

/-! ### What execution does -/

theorem branch_eq_ok_iff {target : String} : m.branch target = .ok m' ↔
    ∃ index, m.labels.indexOf? target = some index ∧ m' = { m with pending := some index } := by
  unfold branch
  cases m.labels.indexOf? target <;> simp [eq_comm]

theorem branch_eq_error_iff {target : String} : m.branch target = .error error ↔
    m.labels.indexOf? target = none ∧ error = .unresolvedTarget target := by
  unfold branch
  cases m.labels.indexOf? target <;> simp [eq_comm]

theorem effect_of_execute (h : m.execute i = .ok m') : m.Effect i.operation m' := by
  obtain ⟨label?, operation⟩ := i
  cases operation with
  | add result op1 op2 => exact .add (wraps_add _ _) (assigns_iff.mpr (Except.ok.inj h).symm)
  | sub result op1 op2 => exact .sub (wraps_sub _ _) (assigns_iff.mpr (Except.ok.inj h).symm)
  | mul result op1 op2 => exact .mul (wraps_mul _ _) (assigns_iff.mpr (Except.ok.inj h).symm)
  | div result op1 op2 =>
      simp only [execute] at h
      split at h
      · cases h
      · next hdivisor => exact .div hdivisor (toInt_div_cases _ _) (assigns_iff.mpr (Except.ok.inj h).symm)
  | lin register value => exact .lin (assigns_iff.mpr (Except.ok.inj h).symm)
  | out register =>
      obtain rfl := Except.ok.inj h
      exact .out
  | bnz register target =>
      simp only [execute] at h
      split at h
      · next hzero =>
          obtain rfl := Except.ok.inj h
          exact .pass hzero
      · next hnonzero =>
          obtain ⟨index, hknown, rfl⟩ := branch_eq_ok_iff.mp h
          exact .branch hnonzero hknown

theorem execute_of_effect (h : m.Effect i.operation m') : m.execute i = .ok m' := by
  obtain ⟨label?, operation⟩ := i
  cases h with
  | add sum assigns => rw [assigns_iff.mp assigns, sum.unique (wraps_add _ _), execute]
  | sub difference assigns => rw [assigns_iff.mp assigns, difference.unique (wraps_sub _ _), execute]
  | mul product assigns => rw [assigns_iff.mp assigns, product.unique (wraps_mul _ _), execute]
  | div divisor quotient assigns =>
      rw [← toInt_div_cases] at quotient
      rw [assigns_iff.mp assigns, Int32.toInt_inj.mp quotient]
      exact if_neg divisor
  | lin assigns => rw [assigns_iff.mp assigns, execute]
  | out => rfl
  | pass zero => exact if_pos zero
  | branch nonzero known => exact (if_neg nonzero).trans (branch_eq_ok_iff.mpr ⟨_, known, rfl⟩)

theorem execute_eq_error_iff : m.execute i = .error error ↔ m.Failure i error := by
  constructor
  · intro h
    obtain ⟨label?, operation⟩ := i
    cases operation with
    | add | sub | mul | lin | out => cases h
    | div result op1 op2 =>
        simp only [execute] at h
        split at h
        · next hdivisor =>
            obtain rfl := Except.error.inj h
            exact .division hdivisor
        · cases h
    | bnz register target =>
        simp only [execute] at h
        split at h
        · cases h
        · next hnonzero =>
            obtain ⟨hunknown, rfl⟩ := branch_eq_error_iff.mp h
            exact .target hnonzero hunknown
  · intro h
    cases h with
    | division divisor => exact if_pos divisor
    | target nonzero unknown => exact (if_neg nonzero).trans (branch_eq_error_iff.mpr ⟨unknown, rfl⟩)

theorem executed_of_error (h : m.execute i = .error error) : m.executed i = m := by
  rw [executed, h]

theorem turns_of_error (hfetch : m.program[m.pc]? = some i) (h : m.execute i = .error error) (fetched : Array Nat)
    (limit : Nat) : m.turns fetched (limit + 1) =
      some { machine := m, fetched := fetched.push m.pc, error? := some error } := by
  rw [turns, turn, hfetch]
  simp only [h]

/-- An instruction is executed exactly as the rules say, and fails exactly for the reasons that they name. A failed
instruction leaves all of the machine as it was, in a run as well as outside of one. The word that a sum, a difference
or a product wraps to is the only one of its kind. -/
theorem execute_follows_rules (m : Machine) (i : Instruction) :
    (∀ m', m.execute i = .ok m' ↔ m.Effect i.operation m') ∧
    (∀ error, m.execute i = .error error ↔ m.Failure i error) ∧
    (∀ error, m.execute i = .error error → m.executed i = m ∧
      ∀ fetched limit, m.program[m.pc]? = some i → m.turns fetched (limit + 1) =
        some { machine := m, fetched := fetched.push m.pc, error? := some error }) ∧
    ∀ n, ∃! word, Wraps n word := by
  refine ⟨fun m' => ⟨effect_of_execute, execute_of_effect⟩, fun error => execute_eq_error_iff,
    fun error h => ⟨executed_of_error h, fun fetched limit hfetch => ?_⟩, existsUnique_wraps⟩
  exact turns_of_error hfetch h fetched limit

/-- A machine with the smallest word in a register, a pending branch and a value that was emitted. It is about to
divide by a register that was never written. -/
def atBounds : Machine where
  labels := ⟨[("back", 0)], by decide, by decide⟩
  program := #[⟨none, .div 1 1 4⟩]
  registers := .ofList [(1, -2147483648), (2, -1)]
  pending := some 2
  output := #[9]

/-- The quotient that no word can hold, written over its own dividend; a square that wraps to zero, written over the
divisor; and the division by zero. -/
theorem execute_follows_rules_at_bounds :
    (∃ m', atBounds.execute ⟨none, .div 1 1 2⟩ = .ok m' ∧ m'.registers.get? 1 = some (-2147483648) ∧
      m'.registers.get? 2 = some (-1) ∧ m'.pending = some 2) ∧
    (∃ m', atBounds.execute ⟨none, .mul 2 1 1⟩ = .ok m' ∧ m'.registers.get? 2 = some 0 ∧ m'.output = #[9]) ∧
    atBounds.execute ⟨none, .div 1 1 4⟩ = .error (.divisionByZero "div 1 / 4 output to register 1") ∧
    atBounds.executed ⟨none, .div 1 1 4⟩ = atBounds ∧
    atBounds.turns #[] 1 = some { machine := atBounds, fetched := #[0], error? := some (
      .divisionByZero "div 1 / 4 output to register 1") } := by
  refine ⟨?_, ?_, ?_⟩
  · obtain ⟨m', hexecute⟩ : ∃ m', atBounds.execute ⟨none, .div 1 1 2⟩ = .ok m' := ⟨_, rfl⟩
    cases ((execute_follows_rules atBounds _).1 m').mp hexecute with
    | @div _ _ _ value _ divisor quotient assigns =>
        have hvalue : value = -2147483648 := Int32.toInt_inj.mp (quotient.trans (by decide))
        refine ⟨m', hexecute, hvalue ▸ assigns.written, ?_, assigns.pending⟩
        rw [assigns.kept 2 (by decide)]
        decide
  · obtain ⟨m', hexecute⟩ : ∃ m', atBounds.execute ⟨none, .mul 2 1 1⟩ = .ok m' := ⟨_, rfl⟩
    cases ((execute_follows_rules atBounds _).1 m').mp hexecute with
    | @mul _ _ _ value _ product assigns =>
        have hvalue : value = 0 := product.unique (by decide : (0 : Int32).toInt % 2 ^ 32 = _ % 2 ^ 32)
        exact ⟨m', hexecute, hvalue ▸ assigns.written, assigns.output⟩
  · have herror := ((execute_follows_rules atBounds ⟨none, .div 1 1 4⟩).2.1 _).mpr (.division (by decide))
    obtain ⟨hsame, hturns⟩ := (execute_follows_rules atBounds _).2.2.1 _ herror
    exact ⟨herror, hsame, hturns #[] 0 rfl⟩

end Machine

end RegAsm
