import RegAsm.Machine.Load
import RegAsm.Machine.Run
import RegAsm.Proofs.Pass

/-! Assembling preserves meaning. A walk executes the lines of a source where they stand: it passes over lines
without an instruction and branches to the line that registers the target. The machine runs the assembled
program instead, where those lines are gone and labels are indices. Both come to the same outcome, because
the program counter is always the number of instructions in front of the current line. -/

namespace RegAsm

open Source (Line readings instructionCount definitions)

/-- What an execution that has ended shows: the number of executed instructions or the error, the emitted
values and the registers. -/
structure Outcome where
  result : Except Error Nat
  output : Array Int32
  registers : Registers

def Run.outcome (run : Run) : Outcome where
  result := run.result
  output := run.machine.output
  registers := run.machine.registers

/-- An execution of source lines that has come to a line, counted from zero. -/
structure Walk where
  place : Nat := 0
  registers : Registers
  output : Array Int32 := #[]
  /-- The number of instructions executed so far. -/
  executed : Nat := 0

namespace Walk

/-- What one step of a walk comes to. -/
inductive Step where
  | ended
  | failed (error : Error)
  | on (walk : Walk)

/-- The place of the line that registers a label. -/
def placeOf? (lines : List Line) (label : String) : Option Nat :=
  lines.findIdx? (·.defined? == some label)

def skip (walk : Walk) : Walk := { walk with place := walk.place + 1 }

/-- The walk on the next line, behind an instruction that was executed. -/
def next (walk : Walk) : Walk := { walk.skip with executed := walk.executed + 1 }

/-- Executes an instruction on the registers and the output. -/
def perform (lines : List Line) (walk : Walk) (i : Instruction) : Step :=
  let value := walk.registers.get
  let assign index value := Step.on { walk.next with registers := walk.registers.set index value }
  match i.operation with
  | .add result op1 op2 => assign result (value op1 + value op2)
  | .sub result op1 op2 => assign result (value op1 - value op2)
  | .mul result op1 op2 => assign result (value op1 * value op2)
  | .div result op1 op2 =>
      if value op2 = 0 then .failed (.divisionByZero i.describe) else assign result (value op1 / value op2)
  | .lin register literal => assign register literal
  | .out register => .on { walk.next with output := walk.output.push (value register) }
  | .bnz register target =>
      if value register = 0 then .on walk.next
      else
        match placeOf? lines target with
        | some place => .on { walk.next with place }
        | none => .failed (.unresolvedTarget target)

/-- Executes the line that the walk has come to. -/
def step (lines : List Line) (walk : Walk) : Step :=
  match lines[walk.place]? with
  | none => .ended
  | some (.instruction i _) => walk.perform lines i
  | some .blank | some (.label _) | some (.unknown ..) => .on walk.skip

/-- What the walk shows when it ends as it stands. -/
def outcome (walk : Walk) (result : Except Error Nat) : Outcome where
  result
  output := walk.output
  registers := walk.registers

/-- Takes steps until the walk ends or fails, at most as many as given. -/
def walk? (lines : List Line) (walk : Walk) : (limit : Nat) → Option Outcome
  | 0 => none
  | limit + 1 =>
      match walk.step lines with
      | .ended => some (walk.outcome (.ok walk.executed))
      | .failed error => some (walk.outcome (.error error))
      | .on next => walk? lines next limit

end Walk

/-! ### Places and indices -/

theorem instructionCount_take_succ {lines : List Line} {place : Nat} {line : Line}
    (h : lines[place]? = some line) : instructionCount (lines.take (place + 1)) =
      instructionCount (lines.take place) + instructionCount [line] := by
  rw [List.take_add_one, h, Source.instructionCount_append]
  rfl

/-- The instruction of a line stands in the program behind the instructions of the lines before it. -/
theorem getElem?_filterMap_instruction {lines : List Line} {place : Nat} {line : Line} {i : Instruction}
    (h : lines[place]? = some line) (hi : line.instruction? = some i) :
    (lines.filterMap Line.instruction?)[instructionCount (lines.take place)]? = some i := by
  induction lines generalizing place with
  | nil => exact absurd h (by simp)
  | cons first rest ih =>
      cases place with
      | zero =>
          obtain rfl : first = line := by simpa using h
          simp [instructionCount, hi]
      | succ place =>
          have hrest := ih (show rest[place]? = some line by simpa using h)
          rw [instructionCount] at hrest ⊢
          cases hfirst : first.instruction? <;> simpa [hfirst] using hrest

/-- Looking up a label gives the number of instructions in front of the line that registers it. -/
theorem find?_definitions (index : Nat) (lines : List Line) (label : String) :
    ((definitions index lines).find? (·.1 == label)).map (·.2) =
      (Walk.placeOf? lines label).map fun place => index + instructionCount (lines.take place) := by
  induction lines generalizing index with
  | nil => rfl
  | cons line rest ih =>
      have hcount : ∀ place, instructionCount ((line :: rest).take (place + 1)) =
          instructionCount [line] + instructionCount (rest.take place) := fun place =>
        Source.instructionCount_append [line] (rest.take place)
      have hrest : ((Walk.placeOf? rest label).map (· + 1)).map
          (fun place => index + instructionCount ((line :: rest).take place)) =
          ((definitions (index + instructionCount [line]) rest).find? (·.1 == label)).map (·.2) := by
        rw [ih, Option.map_map]
        congr 1
        funext place
        simp only [Function.comp, hcount, Nat.add_assoc]
      rw [definitions, Walk.placeOf?, List.findIdx?_cons, ← Walk.placeOf?]
      cases hdefined : line.defined? with
      | none => simpa using hrest.symm
      | some name =>
          by_cases hname : name = label
          · simp [hname, instructionCount]
          · simpa [hname] using hrest.symm

/-! ### One step -/

/-- The machine runs the program of the lines and is where the walk is. The fetched instructions are those
that the walk has executed. -/
structure Agrees (lines : List Line) (walk : Walk) (m : Machine) (fetched : Array Nat) : Prop where
  program : m.program.toList = lines.filterMap Line.instruction?
  labels : m.labels.entries = definitions 0 lines
  pending : m.pending = none
  pc : m.pc = instructionCount (lines.take walk.place)
  registers : m.registers = walk.registers
  output : m.output = walk.output
  executed : fetched.size = walk.executed

namespace Agrees

variable {lines : List Line} {walk : Walk} {m : Machine} {fetched : Array Nat}

theorem skip (h : Agrees lines walk m fetched) {line : Line} (hline : lines[walk.place]? = some line)
    (hnone : line.instruction? = none) : Agrees lines walk.skip m fetched where
  program := h.program
  labels := h.labels
  pending := h.pending
  pc := by
    rw [h.pc, Walk.skip, instructionCount_take_succ hline]
    simp [instructionCount, hnone]
  registers := h.registers
  output := h.output
  executed := h.executed

theorem turn_of_passed (h : Agrees lines walk m fetched) (hpassed : lines.length ≤ walk.place) :
    m.turn = .halt := by
  have hsize : m.program.size ≤ m.pc := by
    rw [h.pc, List.take_of_length_le hpassed, ← Array.length_toList, h.program]
    exact Nat.le_refl _
  rw [Machine.turn, Array.getElem?_eq_none hsize]

theorem fetch (h : Agrees lines walk m fetched) {line : Line} {i : Instruction}
    (hline : lines[walk.place]? = some line) (hi : line.instruction? = some i) :
    m.program[m.pc]? = some i := by
  rw [← Array.getElem?_toList, h.program, h.pc]
  exact getElem?_filterMap_instruction hline hi

/-- An instruction that does not branch may change the registers and the output alone, and both sides go on
to what stands behind it. -/
theorem next (h : Agrees lines walk m fetched) {line : Line} {i : Instruction}
    (hline : lines[walk.place]? = some line) (hi : line.instruction? = some i) (registers : Registers)
    (output : Array Int32) :
    Agrees lines { walk.next with registers, output } (Machine.advance { m with registers, output })
      (fetched.push m.pc) where
  program := h.program
  labels := h.labels
  pending := rfl
  pc := by
    have hpc : (Machine.advance { m with registers, output }).pc = m.pc + 1 := by
      simp [Machine.advance, h.pending]
    have hone : instructionCount [line] = 1 := by simp [instructionCount, hi]
    show _ = instructionCount (lines.take (walk.place + 1))
    rw [hpc, h.pc, instructionCount_take_succ hline, hone]
  registers := rfl
  output := rfl
  executed := by simp [Walk.next, h.executed]

/-- A branch goes to a line on one side and to the index of its label on the other. -/
theorem branch (h : Agrees lines walk m fetched) (place : Nat) :
    Agrees lines { walk.next with place }
      (Machine.advance { m with pending := some (instructionCount (lines.take place)) })
      (fetched.push m.pc) where
  program := h.program
  labels := h.labels
  pending := rfl
  pc := rfl
  registers := h.registers
  output := h.output
  executed := by simp [Walk.next, h.executed]

theorem indexOf? (h : Agrees lines walk m fetched) (label : String) :
    m.labels.indexOf? label =
      (Walk.placeOf? lines label).map fun place => instructionCount (lines.take place) := by
  rw [LabelTable.indexOf?, h.labels, find?_definitions]
  simp only [Nat.zero_add]

theorem assign (h : Agrees lines walk m fetched) {line : Line} {i : Instruction}
    (hline : lines[walk.place]? = some line) (hi : line.instruction? = some i) (index : UInt32)
    (value : Int32) :
    Agrees lines { walk.next with registers := walk.registers.set index value }
      (m.write index value).advance (fetched.push m.pc) := by
  have hwrite : m.write index value =
      { m with registers := walk.registers.set index value, output := walk.output } := by
    rw [Machine.write, h.registers, ← h.output]
  rw [hwrite]
  exact h.next hline hi (walk.registers.set index value) walk.output

theorem emit (h : Agrees lines walk m fetched) {line : Line} {i : Instruction}
    (hline : lines[walk.place]? = some line) (hi : line.instruction? = some i) (value : Int32) :
    Agrees lines { walk.next with output := walk.output.push value } (m.emit value).advance
      (fetched.push m.pc) := by
  have hemit : m.emit value =
      { m with registers := walk.registers, output := walk.output.push value } := by
    rw [Machine.emit, h.output, ← h.registers]
  rw [hemit]
  exact h.next hline hi walk.registers (walk.output.push value)

theorem fallThrough (h : Agrees lines walk m fetched) {line : Line} {i : Instruction}
    (hline : lines[walk.place]? = some line) (hi : line.instruction? = some i) :
    Agrees lines walk.next m.advance (fetched.push m.pc) := by
  have hsame : m = { m with registers := walk.registers, output := walk.output } := by
    rw [← h.registers, ← h.output]
  rw [hsame]
  exact h.next hline hi walk.registers walk.output

/-- An instruction fails on both sides with the same error, or both go on in agreement. -/
theorem perform_cases (h : Agrees lines walk m fetched) {i : Instruction} {malformed : List Field}
    (hline : lines[walk.place]? = some (.instruction i malformed)) :
    (∃ error, walk.perform lines i = .failed error ∧ m.turn = .fault error) ∨
    ∃ walk' m', walk.perform lines i = .on walk' ∧ m.turn = .next m' ∧
      Agrees lines walk' m' (fetched.push m.pc) := by
  have hread : m.read = walk.registers.get := by
    funext index
    rw [Machine.read, h.registers]
  have hok : ∀ m', m.execute i = .ok m' → m.turn = .next m'.advance := by
    intro m' hexecute
    simp only [Machine.turn, h.fetch hline rfl, hexecute]
  have herror : ∀ error, m.execute i = .error error → m.turn = .fault error := by
    intro error hexecute
    simp only [Machine.turn, h.fetch hline rfl, hexecute]
  -- The arithmetic operations and `lin` differ only in the value that they assign.
  have hassign : ∀ index value, m.execute i = .ok (m.write index value) →
      walk.perform lines i = .on { walk.next with registers := walk.registers.set index value } →
      ∃ walk' m', walk.perform lines i = .on walk' ∧ m.turn = .next m' ∧
        Agrees lines walk' m' (fetched.push m.pc) := by
    intro index value hexecute hperform
    exact ⟨_, _, hperform, hok _ hexecute, h.assign hline rfl index value⟩
  cases hop : i.operation with
  | add result op1 op2 | sub result op1 op2 | mul result op1 op2 =>
      right
      exact hassign result _ (by simp only [Machine.execute, hop, hread]; rfl)
        (by simp only [Walk.perform, hop])
  | div result op1 op2 =>
      by_cases hzero : walk.registers.get op2 = 0
      · left
        exact ⟨.divisionByZero i.describe, by simp only [Walk.perform, hop, hzero, if_true],
          herror _ (by simp only [Machine.execute, hop, hread, hzero, if_true])⟩
      · right
        exact hassign result _ (by simp only [Machine.execute, hop, hread, hzero, if_false]; rfl)
          (by simp only [Walk.perform, hop, hzero, if_false])
  | lin register literal =>
      right
      exact hassign register literal (by simp only [Machine.execute, hop]) (by simp only [Walk.perform, hop])
  | out register =>
      right
      exact ⟨_, _, by simp only [Walk.perform, hop],
        hok (m.emit (walk.registers.get register)) (by simp only [Machine.execute, hop, hread]),
        h.emit hline rfl _⟩
  | bnz register target =>
      by_cases hzero : walk.registers.get register = 0
      · right
        exact ⟨walk.next, m.advance, by simp only [Walk.perform, hop, hzero, if_true],
          hok m (by simp only [Machine.execute, hop, hread, hzero, if_true]), h.fallThrough hline rfl⟩
      · have hexecute : m.execute i = m.branch target := by
          simp only [Machine.execute, hop, hread, hzero, if_false]
        rw [Machine.branch, h.indexOf?] at hexecute
        cases hplace : Walk.placeOf? lines target with
        | none =>
            left
            rw [hplace] at hexecute
            exact ⟨.unresolvedTarget target, by simp only [Walk.perform, hop, hzero, if_false, hplace],
              herror _ hexecute⟩
        | some place =>
            right
            rw [hplace] at hexecute
            exact ⟨{ walk.next with place }, _,
              by simp only [Walk.perform, hop, hzero, if_false, hplace], hok _ hexecute, h.branch place⟩

/-- All that a step of a walk and a turn of the machine can come to. On a line without an instruction the
walk steps alone, toward the last line. -/
theorem step_cases (h : Agrees lines walk m fetched) :
    (walk.step lines = .ended ∧ m.turn = .halt) ∨
    (∃ error, walk.step lines = .failed error ∧ m.turn = .fault error) ∨
    (∃ walk' m', walk.step lines = .on walk' ∧ m.turn = .next m' ∧
      Agrees lines walk' m' (fetched.push m.pc)) ∨
    (walk.step lines = .on walk.skip ∧ walk.place < lines.length ∧ Agrees lines walk.skip m fetched) := by
  rw [Walk.step]
  cases hline : lines[walk.place]? with
  | none => exact Or.inl ⟨rfl, h.turn_of_passed (List.getElem?_eq_none_iff.mp hline)⟩
  | some line =>
      have hlt : walk.place < lines.length := (List.getElem?_eq_some_iff.mp hline).1
      cases line with
      | instruction i malformed =>
          rcases h.perform_cases hline with hfailed | hnext
          · exact Or.inr (Or.inl hfailed)
          · exact Or.inr (Or.inr (Or.inl hnext))
      | blank | label name | unknown name token =>
          exact Or.inr (Or.inr (Or.inr ⟨rfl, hlt, h.skip hline rfl⟩))

/-! ### Whole executions -/

theorem outcome_halt (h : Agrees lines walk m fetched) :
    Run.outcome { machine := m, fetched, error? := none } = walk.outcome (.ok walk.executed) := by
  rw [Run.outcome, Run.result, Walk.outcome, h.executed, h.output, h.registers]

theorem outcome_fault (h : Agrees lines walk m fetched) (error : Error) :
    Run.outcome { machine := m, fetched := fetched.push m.pc, error? := some error } =
      walk.outcome (.error error) := by
  rw [Run.outcome, Run.result, Walk.outcome, h.output, h.registers]

theorem turns_of_walk? (h : Agrees lines walk m fetched) {limit : Nat} {outcome : Outcome}
    (hwalk : walk.walk? lines limit = some outcome) :
    ∃ limit run, m.turns fetched limit = some run ∧ run.outcome = outcome := by
  induction limit generalizing walk m fetched with
  | zero => exact absurd hwalk (by simp [Walk.walk?])
  | succ limit ih =>
      rw [Walk.walk?] at hwalk
      rcases h.step_cases with ⟨hstep, hturn⟩ | ⟨error, hstep, hturn⟩ | ⟨walk', m', hstep, hturn, hagrees⟩ |
        ⟨hstep, -, hagrees⟩
      · rw [hstep] at hwalk
        exact ⟨1, _, by rw [Machine.turns, hturn], h.outcome_halt.trans (Option.some.inj hwalk)⟩
      · rw [hstep] at hwalk
        exact ⟨1, _, by rw [Machine.turns, hturn], (h.outcome_fault error).trans (Option.some.inj hwalk)⟩
      · rw [hstep] at hwalk
        obtain ⟨limit', run, hrun, houtcome⟩ := ih hagrees hwalk
        exact ⟨limit' + 1, run, by rw [Machine.turns, hturn]; exact hrun, houtcome⟩
      · rw [hstep] at hwalk
        exact ih hagrees hwalk

/-- The walk ends when the machine does. Inside one turn of the machine the walk may pass over many lines;
the number of lines that are left bounds them. -/
theorem walk?_of_turns (h : Agrees lines walk m fetched) {limit : Nat} {run : Run}
    (hrun : m.turns fetched limit = some run) :
    ∃ limit, walk.walk? lines limit = some run.outcome := by
  induction limit generalizing walk m fetched with
  | zero => exact absurd hrun (by simp [Machine.turns])
  | succ limit ih =>
      have hturns := hrun
      rw [Machine.turns] at hturns
      generalize hleft : lines.length - walk.place = left
      induction left using Nat.strongRecOn generalizing walk with
      | ind left ihleft =>
          rcases h.step_cases with ⟨hstep, hturn⟩ | ⟨error, hstep, hturn⟩ |
            ⟨walk', m', hstep, hturn, hagrees⟩ | ⟨hstep, hlt, hagrees⟩
          · rw [hturn] at hturns
            refine ⟨1, ?_⟩
            rw [Walk.walk?, hstep, ← Option.some.inj hturns, h.outcome_halt]
          · rw [hturn] at hturns
            refine ⟨1, ?_⟩
            rw [Walk.walk?, hstep, ← Option.some.inj hturns, h.outcome_fault]
          · rw [hturn] at hturns
            obtain ⟨limit', hwalk⟩ := ih hagrees hturns
            exact ⟨limit' + 1, by rw [Walk.walk?, hstep]; exact hwalk⟩
          · have hless : lines.length - (walk.place + 1) < left := by omega
            obtain ⟨limit', hwalk⟩ := ihleft _ hless hagrees rfl
            exact ⟨limit' + 1, by rw [Walk.walk?, hstep]; exact hwalk⟩

end Agrees

/-- Before the first step a walk agrees with a machine that is about to run what the lines assemble to. -/
theorem Agrees.start {assembly : Assembly} {lines : List Line} (h : assembly.Holds lines)
    (inputs : Registers) :
    Agrees lines { registers := inputs } ((Machine.ofAssembly assembly).withInputs inputs).start #[] where
  program := h.program
  labels := h.labels
  pending := rfl
  pc := rfl
  registers := rfl
  output := rfl
  executed := rfl

/-- Walking over the lines of a source ends exactly when the run of its assembly ends, and both then come to
the same number of instructions or the same error, the same emitted values and the same registers. -/
theorem walk_ends_iff_run_ends {source : String} {assembly : Assembly}
    (h : Assembly.ofSource source = .ok assembly) (inputs : Registers) :
    ((∃ limit outcome, Walk.walk? (readings source) { registers := inputs } limit = some outcome) ↔
      ∃ limit run, ((Machine.ofAssembly assembly).withInputs inputs).run? limit = some run) ∧
    ∀ walked outcome turned run,
      Walk.walk? (readings source) { registers := inputs } walked = some outcome →
      ((Machine.ofAssembly assembly).withInputs inputs).run? turned = some run → run.outcome = outcome := by
  obtain ⟨-, hholds⟩ := Assembly.ofSource_eq_ok_iff.mp h
  have hstart := Agrees.start hholds inputs
  refine ⟨⟨?_, ?_⟩, ?_⟩
  · rintro ⟨limit, outcome, hwalk⟩
    obtain ⟨limit', run, hrun, -⟩ := hstart.turns_of_walk? hwalk
    exact ⟨limit', run, hrun⟩
  · rintro ⟨limit, run, hrun⟩
    obtain ⟨limit', hwalk⟩ := hstart.walk?_of_turns hrun
    exact ⟨limit', run.outcome, hwalk⟩
  · intro walked outcome turned run hwalk hrun
    obtain ⟨limit, run', hrun', houtcome⟩ := hstart.turns_of_walk? hwalk
    rw [Machine.run?_unique hrun hrun', houtcome]

/-- A walk that branches back over a dropped line and a blank one, then forward to the label behind the last
instruction. -/
theorem walk_ends_behind_last_instruction :
    ∃ assembly limit outcome,
      Assembly.ofSource "loop\nbnz 1 end\nlin 1 5\n\nf1 mov 1\nbnz 1 loop\nout 1\nend" = .ok assembly ∧
      Walk.walk? (readings "loop\nbnz 1 end\nlin 1 5\n\nf1 mov 1\nbnz 1 loop\nout 1\nend")
        { registers := ∅ } limit = some outcome ∧ outcome.result = .ok 4 := by
  have h := Assembly.ofSource_of_pass "loop\nbnz 1 end\nlin 1 5\n\nf1 mov 1\nbnz 1 loop\nout 1\nend"
    (by decide +kernel)
  have hended : (((Machine.ofAssembly (Assembly.pass
      "loop\nbnz 1 end\nlin 1 5\n\nf1 mov 1\nbnz 1 loop\nout 1\nend").assembly).withInputs ∅).run? 5).map
        (fun run => (run.fetched, run.error?)) = some (#[0, 1, 2, 0], none) := by decide +kernel
  obtain ⟨run, hrun, hparts⟩ := Option.map_eq_some_iff.mp hended
  obtain ⟨hiff, hsame⟩ := walk_ends_iff_run_ends h ∅
  obtain ⟨limit, outcome, hwalk⟩ := hiff.mpr ⟨5, run, hrun⟩
  refine ⟨_, limit, outcome, h, hwalk, ?_⟩
  rw [← hsame limit outcome 5 run hwalk hrun, Run.outcome, Run.result, (Prod.mk.inj hparts).2,
    (Prod.mk.inj hparts).1]
  rfl

end RegAsm
