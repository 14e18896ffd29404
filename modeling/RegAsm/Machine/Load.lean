import RegAsm.Assembly
import RegAsm.Machine.Basic

/-! Loading an assembly into a machine. -/

namespace RegAsm

/-- The machine that is ready to run an assembly, with no inputs. -/
def Machine.ofAssembly (assembly : Assembly) : Machine :=
  { labels := assembly.labels, program := assembly.program }

end RegAsm
