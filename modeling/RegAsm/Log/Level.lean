/-! The levels of log messages. -/

namespace RegAsm.Log

/-- How much a message matters. -/
inductive Level where
  | debug
  | info
  | warn
  | error
deriving DecidableEq, Repr

/-- A text that names no level. -/
structure UnknownLevel where
  text : String
deriving DecidableEq, Repr

def UnknownLevel.message (unknown : UnknownLevel) : String :=
  "unknown log level '" ++ unknown.text ++ "'"

namespace Level

/-- The place of a level in the order of weight. -/
def rank : Level → Nat
  | .debug => 0
  | .info => 1
  | .warn => 2
  | .error => 3

instance : LE Level := ⟨fun a b => a.rank ≤ b.rank⟩

instance : LT Level := ⟨fun a b => a.rank < b.rank⟩

instance (a b : Level) : Decidable (a ≤ b) := inferInstanceAs (Decidable (a.rank ≤ b.rank))

instance (a b : Level) : Decidable (a < b) := inferInstanceAs (Decidable (a.rank < b.rank))

def name : Level → String
  | .debug => "DEBUG"
  | .info => "INFO"
  | .warn => "WARN"
  | .error => "ERROR"

/-- The level that a text names, whatever the case of its ASCII letters. -/
def parse (text : String) : Except UnknownLevel Level :=
  let lower := text.map Char.toLower
  if lower = "debug" ∨ lower = "trace" then .ok .debug
  else if lower = "info" then .ok .info
  else if lower = "warn" ∨ lower = "warning" then .ok .warn
  else if lower = "error" then .ok .error
  else .error ⟨lower⟩

end Level

end RegAsm.Log
