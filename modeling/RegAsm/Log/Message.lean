import RegAsm.Log.Level

/-! Log messages, the choice of those that are shown, and the lines that show them. -/

namespace RegAsm.Log

structure Message where
  level : Level
  text : String
deriving DecidableEq, Repr

/-- The choice of messages to show: those of the threshold and above. -/
structure Filter where
  threshold : Level := .info
deriving DecidableEq, Repr

def Filter.shows (filter : Filter) (level : Level) : Bool := filter.threshold ≤ level

inductive Colour where
  | cyan
  | green
  | yellow
  | red
deriving DecidableEq, Repr

/-- The look of a text on a terminal. -/
structure Look where
  colour : Colour
  bold : Bool := false
deriving DecidableEq, Repr

/-- The look of a level's tag. The graver levels are bold. -/
def Level.look : Level → Look
  | .debug => { colour := .cyan }
  | .info => { colour := .green }
  | .warn => { colour := .yellow, bold := true }
  | .error => { colour := .red, bold := true }

def Level.tag (level : Level) : String := "[" ++ level.name ++ "]"

/-- What is written to a terminal to put a look on and to take it off again. -/
structure Terminal where
  put : Look → String
  reset : String

/-- The line that shows a message. Only the tag has the look of the level. -/
def Message.render (terminal : Terminal) (message : Message) : String :=
  terminal.put message.level.look ++ message.level.tag ++ terminal.reset ++ " " ++ message.text ++ "\n"

/-- What a filter lets through of a sequence of messages. -/
def render (terminal : Terminal) (filter : Filter) (messages : List Message) : String :=
  String.join ((messages.filter (filter.shows ·.level)).map (·.render terminal))

end RegAsm.Log
