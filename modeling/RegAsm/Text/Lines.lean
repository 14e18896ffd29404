/-! The lines of a text. A line ends at a line feed or at the end of the text; one carriage return
directly before the line feed belongs to the line end, and the text behind the last line feed is a line
only if it is not empty. -/

namespace RegAsm.Text

/-- The lines of a text, without their ends. -/
def linesOf : List Char → List (List Char)
  | [] => []
  | '\n' :: text => [] :: linesOf text
  | '\r' :: '\n' :: text => [] :: linesOf text
  | c :: text =>
    match linesOf text with
    | [] => [[c]]
    | line :: rest => (c :: line) :: rest

def lines (source : String) : List String :=
  (linesOf source.toList).map String.ofList

/-- A text has no line exactly when it is empty. -/
theorem linesOf_eq_nil_iff (text : List Char) : linesOf text = [] ↔ text = [] := by
  fun_cases linesOf text <;> simp_all

end RegAsm.Text
