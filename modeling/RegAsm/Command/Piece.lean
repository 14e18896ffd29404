import RegAsm.Log.Message

/-! What the command writes, piece by piece and in order: texts for its standard output and messages for its
log. -/

namespace RegAsm.Command

open Log (Message)

inductive Piece where
  | print (text : String)
  | log (message : Message)
deriving DecidableEq, Repr

namespace Piece

def text? : Piece → Option String
  | .print text => some text
  | .log _ => none

def message? : Piece → Option Message
  | .print _ => none
  | .log message => some message

/-- All that is printed. -/
def stdout (pieces : List Piece) : String := String.join (pieces.filterMap text?)

/-- All that is logged. -/
def messages (pieces : List Piece) : List Message := pieces.filterMap message?

@[simp] theorem stdout_append (pieces more : List Piece) :
    stdout (pieces ++ more) = stdout pieces ++ stdout more := by
  rw [stdout, List.filterMap_append, String.join_append, stdout, stdout]

@[simp] theorem messages_append (pieces more : List Piece) :
    messages (pieces ++ more) = messages pieces ++ messages more := List.filterMap_append

@[simp] theorem stdout_map_log (logged : List Message) : stdout (logged.map .log) = "" := by
  induction logged with
  | nil => rfl
  | cons message rest ih => exact ih

@[simp] theorem messages_map_log (logged : List Message) : messages (logged.map .log) = logged := by
  induction logged with
  | nil => rfl
  | cons message rest ih => exact congrArg (message :: ·) ih

end Piece

end RegAsm.Command
