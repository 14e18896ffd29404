import RegAsm.Assembly

/-! A workbench holds one source and what was last assembled from it. Labels and instructions can be added
by hand in between; each assembly starts afresh. -/

namespace RegAsm

/-- Where a source comes from. -/
inductive Origin where
  | file (path : String)
  | text (source : String)
deriving DecidableEq, Repr

abbrev FileReader := String → Except ReadError String

namespace Origin

/-- The name of a source in diagnostics. -/
def name : Origin → String
  | .file path => path
  | .text _ => "<source>"

def load (read : FileReader) : Origin → Except Error String
  | .file path => (read path).mapError (.unreadable path)
  | .text source => .ok source

theorem load_file_of_ok {read : FileReader} {path source : String} (h : read path = .ok source) :
    (file path).load read = .ok source := by
  rw [load, h]
  rfl

theorem load_file_of_error {read : FileReader} {path : String} {cause : ReadError} (h : read path = .error cause) :
    (file path).load read = .error (.unreadable path cause) := by
  rw [load, h]
  rfl

end Origin

structure Workbench where
  origin : Origin
  assembly : Assembly := ∅
deriving DecidableEq, Repr

namespace Workbench

/-- Drops all that was assembled or added by hand. -/
def clear (bench : Workbench) : Workbench :=
  { bench with assembly := { bench.assembly.clear with degradations := [] } }

/-- Assembles the source as it is now. What was on the workbench before is dropped, also if the source cannot be
loaded. -/
def assemble (bench : Workbench) (read : FileReader) : Workbench × Option Error :=
  let bench := bench.clear
  match bench.origin.load read with
  | .error error => (bench, some error)
  | .ok source =>
    let pass := bench.assembly.addSource source
    ({ bench with assembly := pass.assembly }, pass.error?)

theorem assemble_of_load {bench : Workbench} {read : FileReader} {source : String}
    (h : bench.origin.load read = .ok source) :
    bench.assemble read = ({ bench with assembly := (Assembly.pass source).assembly },
      (Assembly.pass source).error?) := by
  have hcleared : bench.clear.origin.load read = .ok source := h
  simp only [assemble, hcleared]
  rfl

theorem assemble_of_load_error {bench : Workbench} {read : FileReader} {error : Error}
    (h : bench.origin.load read = .error error) : bench.assemble read = ({ origin := bench.origin }, some error) := by
  have hcleared : bench.clear.origin.load read = .error error := h
  simp only [assemble, hcleared]
  rfl

/-- Defines a label by hand. -/
def addLabel (bench : Workbench) (name : String) (index : Nat) : Workbench :=
  { bench with assembly.labels := bench.assembly.labels.insert name index }

/-- Appends an instruction by hand. -/
def push (bench : Workbench) (i : Instruction) : Workbench :=
  { bench with assembly.program := bench.assembly.program.push i }

end Workbench

/-- The pass over a source on a new workbench. -/
def Origin.pass (read : FileReader) (origin : Origin) : Pass :=
  let (bench, error?) := Workbench.assemble { origin } read
  { assembly := bench.assembly, error? }

namespace Origin

variable {origin : Origin} {read : FileReader}

theorem pass_of_load {source : String} (h : origin.load read = .ok source) :
    origin.pass read = Assembly.pass source := by
  rw [pass, Workbench.assemble_of_load h]

theorem pass_of_load_error {error : Error} (h : origin.load read = .error error) :
    origin.pass read = { assembly := ∅, error? := some error } := by
  rw [pass, Workbench.assemble_of_load_error h]

theorem result_pass_file {path source : String} (h : read path = .ok source) :
    ((file path).pass read).result = Assembly.ofSource source := by
  rw [pass_of_load (load_file_of_ok h), Assembly.ofSource]

end Origin

end RegAsm
