import RegAsm.Machine.Basic

/-! Runs. There is no instruction to stop the machine: a run ends when the program counter leaves the program
or an instruction fails. A program may run forever, so a run is given a number of turns, and says nothing if
they do not suffice. -/

namespace RegAsm

namespace Machine

/-- What one turn of the machine comes to. -/
inductive Turn where
  | halt
  | fault (error : Error)
  | next (m : Machine)
deriving DecidableEq, Repr

/-- Fetches an instruction, executes it and goes on. -/
def turn (m : Machine) : Turn :=
  match m.program[m.pc]? with
  | none => .halt
  | some i =>
    match m.execute i with
    | .ok m => .next m.advance
    | .error error => .fault error

end Machine

/-- A run that has ended. -/
structure Run where
  /-- The machine as the run left it. After a fault its program counter is at the failed instruction. -/
  machine : Machine
  /-- The indices of the fetched instructions, in order. -/
  fetched : Array Nat
  error? : Option Error
deriving DecidableEq, Repr

namespace Run

/-- The number of executed instructions, or the error that ended the run. -/
def result (run : Run) : Except Error Nat :=
  match run.error? with
  | some error => .error error
  | none => .ok run.fetched.size

end Run

namespace Machine

/-- Takes turns until the machine halts or fails, at most as many as given. -/
def turns (m : Machine) (fetched : Array Nat) : (limit : Nat) → Option Run
  | 0 => none
  | limit + 1 =>
    match m.turn with
    | .halt => some { machine := m, fetched, error? := none }
    | .fault error => some { machine := m, fetched := fetched.push m.pc, error? := some error }
    | .next m' => turns m' (fetched.push m.pc) limit

/-- More turns do not change a run that has ended. -/
theorem turns_mono {m : Machine} {fetched : Array Nat} {limit larger : Nat} {run : Run}
    (h : m.turns fetched limit = some run) (hle : limit ≤ larger) :
    m.turns fetched larger = some run := by
  induction limit generalizing m fetched larger with
  | zero => simp [turns] at h
  | succ limit ih =>
    obtain ⟨larger, rfl⟩ : ∃ n, larger = n + 1 := ⟨larger - 1, by omega⟩
    rw [turns] at h ⊢
    cases hturn : m.turn with
    | halt => simpa only [hturn] using h
    | fault error => simpa only [hturn] using h
    | next m' =>
      simp only [hturn] at h ⊢
      exact ih h (by omega)

/-- Runs the program from its first instruction and the inputs. -/
def run? (m : Machine) (limit : Nat) : Option Run := m.start.turns #[] limit

/-- Two runs that have ended are the same, whatever their numbers of turns. -/
theorem run?_unique {m : Machine} {limit limit' : Nat} {run run' : Run} (h : m.run? limit = some run)
    (h' : m.run? limit' = some run') : run = run' := by
  rcases Nat.le_total limit limit' with hle | hle
  · exact Option.some.inj ((turns_mono h hle).symm.trans h')
  · exact Option.some.inj (h.symm.trans (turns_mono h' hle))

end Machine

end RegAsm
