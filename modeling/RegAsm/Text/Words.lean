import RegAsm.Text.Blank

/-! The words of a line are its maximal runs of characters that are not blank. `splitWord` takes one
word off a text and `words` takes them all; a word that is not empty always shortens the text, which is
why the second ends. -/

namespace RegAsm.Text

/-- The first word of a text and all that stands behind it. The word is empty when the text holds
blanks only. -/
def splitWord (text : List Char) : List Char × List Char :=
  let body := text.dropWhile isBlank
  (body.takeWhile (!isBlank ·), body.dropWhile (!isBlank ·))

/-- Nothing but the leading blanks is lost. -/
theorem splitWord_append (text : List Char) :
    (splitWord text).1 ++ (splitWord text).2 = text.dropWhile isBlank :=
  List.takeWhile_append_dropWhile

/-- A word has no blank in it. -/
theorem isBlank_of_mem_splitWord {text : List Char} {c : Char} (h : c ∈ (splitWord text).1) :
    isBlank c = false := by
  have hall := List.all_takeWhile (p := (!isBlank ·)) (l := text.dropWhile isBlank)
  simpa using List.all_eq_true.mp hall c h

/-- A word that is not empty leaves less text behind it than there was. -/
theorem length_splitWord_lt {text : List Char} (h : (splitWord text).1 ≠ []) :
    (splitWord text).2.length < text.length := by
  have hparts := congrArg List.length (splitWord_append text)
  have hbody := (List.dropWhile_sublist (p := isBlank) (l := text)).length_le
  have hword := List.length_pos_iff.mpr h
  rw [List.length_append] at hparts
  omega

def wordsOf (text : List Char) : List (List Char) :=
  if _h : (splitWord text).1 = [] then []
  else (splitWord text).1 :: wordsOf (splitWord text).2
termination_by text.length
decreasing_by exact length_splitWord_lt _h

def words (line : String) : List String :=
  (wordsOf line.toList).map String.ofList

end RegAsm.Text
