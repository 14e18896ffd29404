import RegAsm.Error
import RegAsm.LabelTable
import RegAsm.Program
import RegAsm.Source.Degradation
import RegAsm.Text.Lines

/-! Assembling: one pass over the lines of a source collects the program, its labels and the degradations.
Only a label that is defined already stops the pass. -/

namespace RegAsm

open Source (Line Degradation)

/-- What the lines of a source amount to. -/
structure Assembly where
  labels : LabelTable := ∅
  program : Program := #[]
  degradations : List Degradation := []
deriving DecidableEq, Repr

namespace Assembly

def empty : Assembly := {}

instance : EmptyCollection Assembly := ⟨empty⟩

/-- The label of a line that is defined already. -/
def clash? (assembly : Assembly) (line : Line) : Option String :=
  line.label?.filter fun label => (assembly.labels.indexOf? label).isSome

/-- Takes in a line without looking for a clash. A label of the line names the next free index, which is
that of the line's own instruction if it has one. -/
def take (assembly : Assembly) (number : Nat) (line : Line) : Assembly where
  labels :=
    match line.defined? with
    | some label => assembly.labels.insert label assembly.program.size
    | none => assembly.labels
  program :=
    match line.instruction? with
    | some i => assembly.program.push i
    | none => assembly.program
  degradations := assembly.degradations ++ line.degradations number

/-- Drops labels and instructions. -/
def clear (assembly : Assembly) : Assembly :=
  { assembly with labels := ∅, program := #[] }

end Assembly

/-- What a pass over a source leaves behind, and the error that stopped it if one did. -/
structure Pass where
  assembly : Assembly
  error? : Option Error
deriving DecidableEq, Repr

/-- The assembly of a pass that was not stopped. -/
def Pass.result (pass : Pass) : Except Error Assembly :=
  match pass.error? with
  | some error => .error error
  | none => .ok pass.assembly

namespace Assembly

/-- Takes in lines, the first of which has the given number, until one of them clashes. -/
def addLines (assembly : Assembly) (number : Nat) : List Line → Pass
  | [] => { assembly, error? := none }
  | line :: rest =>
    match assembly.clash? line with
    | some label => { assembly, error? := some (.duplicateLabel label number) }
    | none => addLines (assembly.take number line) (number + 1) rest

/-- Takes in the lines of a source. If one of them clashes, labels and instructions are dropped and the
degradations stay. -/
def addSource (assembly : Assembly) (source : String) : Pass :=
  let pass := assembly.addLines 1 ((Text.lines source).map Line.read)
  match pass.error? with
  | some _ => { pass with assembly := pass.assembly.clear }
  | none => pass

def pass (source : String) : Pass := addSource ∅ source

def ofSource (source : String) : Except Error Assembly := (pass source).result

end Assembly

end RegAsm
