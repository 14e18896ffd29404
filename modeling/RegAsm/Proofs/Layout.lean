import Mathlib.Data.List.Forall2
import RegAsm.Diagnostic
import RegAsm.Proofs.Pass
import RegAsm.Proofs.Rewriting

/-! Layout. An assembly sees of each line the runs of characters between its blanks and nothing else: not which blanks
there are, nor how many, nor whether they stand in front, behind or in between. A carriage return is a blank too, so it
does not matter whether lines end in one; a diagnostic does not show it either. -/

namespace RegAsm

namespace Text

/-! ### Words as runs between blanks -/

/-- The maximal runs of characters that are not blank: what stands between the blanks of a text, where there is
anything. -/
def runsOf (text : List Char) : List (List Char) := (text.splitOnP isBlank).filter (· ≠ [])

def runs (line : String) : List String := (runsOf line.toList).map String.ofList

theorem runsOf_append_blank_cons {c : Char} (hc : isBlank c = true) (text more : List Char) :
    runsOf (text ++ c :: more) = runsOf text ++ runsOf more := by
  rw [runsOf, List.splitOnP_append_cons text more hc, List.filter_append, runsOf, runsOf]

theorem runsOf_word {word : List Char} (h : ∀ c ∈ word, isBlank c = false) :
    runsOf word = [word].filter (· ≠ []) := by
  rw [runsOf, List.splitOnP_eq_singleton fun c hc => by simpa using h c hc]

/-- Words that are taken off a text one after another are the runs of the text. -/
theorem wordsOf_eq_runsOf (text : List Char) : wordsOf text = runsOf text := by
  induction hlength : text.length using Nat.strongRecOn generalizing text with
  | ind n ih =>
      -- Both sides are split at the first blank; what stands behind it is shorter.
      have hword : ∀ c ∈ text.takeWhile (!isBlank ·), isBlank c = false := by
        intro c hc
        simpa using List.all_eq_true.mp (List.all_takeWhile (p := (!isBlank ·))) c hc
      have htext := List.takeWhile_append_dropWhile (p := (!isBlank ·)) (l := text)
      cases hrest : text.dropWhile (!isBlank ·) with
      | nil =>
          rw [hrest, List.append_nil] at htext
          rw [← htext, wordsOf_word hword, runsOf_word hword]
      | cons c more =>
          have hc : isBlank c = true := by
            have hhead := List.head?_dropWhile_not (!isBlank ·) text
            rw [hrest] at hhead
            simpa using hhead
          have hshorter : more.length < n := by
            have hbehind := (List.dropWhile_sublist (p := (!isBlank ·)) (l := text)).length_le
            rw [hrest, List.length_cons] at hbehind
            omega
          rw [hrest] at htext
          rw [← htext, wordsOf_word_append hword hc, runsOf_append_blank_cons hc, runsOf_word hword,
            ih more.length hshorter more rfl]

theorem words_eq_runs (line : String) : words line = runs line := by
  rw [words, wordsOf_eq_runsOf, runs]

/-- The sources have equally many lines, and each line has the same runs as its counterpart. -/
def SameRuns (source other : String) : Prop :=
  List.Forall₂ (fun line line' => runs line = runs line') (lines source) (lines other)

theorem sameRuns_iff {source other : String} :
    SameRuns source other ↔ (lines source).map words = (lines other).map words := by
  rw [← List.forall₂_eq_eq_eq, List.forall₂_map_left_iff, List.forall₂_map_right_iff, SameRuns]
  simp only [words_eq_runs]

instance (source other : String) : Decidable (SameRuns source other) := decidable_of_iff _ sameRuns_iff.symm

/-! ### Carriage returns at the ends of lines -/

def withReturnsOf (text : List Char) : List Char := text.flatMap fun c => if c = '\n' then ['\r', '\n'] else [c]

/-- The source with a carriage return in front of every line feed. -/
def withReturns (source : String) : String := String.ofList (withReturnsOf source.toList)

theorem withReturnsOf_cons {c : Char} (h : c ≠ '\n') (text : List Char) :
    withReturnsOf (c :: text) = c :: withReturnsOf text := by
  rw [withReturnsOf, List.flatMap_cons, if_neg h, List.singleton_append, withReturnsOf]

theorem head?_withReturnsOf (text : List Char) : (withReturnsOf text).head? ≠ some '\n' := by
  cases text with
  | nil => simp [withReturnsOf]
  | cons c text =>
      by_cases hc : c = '\n'
      · subst hc
        simp [withReturnsOf]
      · rw [withReturnsOf_cons hc]
        simpa using hc

/-- The line as it is when a carriage return was added before its end, if the end is that of a line at all. -/
def Returned (line line' : List Char) : Prop := line' = line ∨ line' = line ++ ['\r']

theorem forall₂_linesOf_withReturnsOf (text : List Char) :
    List.Forall₂ Returned (linesOf text) (linesOf (withReturnsOf text)) := by
  fun_induction linesOf text with
  | case1 => exact .nil
  | case2 text ih => exact .cons (Or.inl rfl) ih
  | case3 text ih => exact .cons (Or.inr rfl) ih
  | case4 c text hfeed hreturn hlines ih =>
      obtain rfl := (linesOf_eq_nil_iff text).mp hlines
      rw [withReturnsOf_cons hfeed, linesOf_cons hfeed fun _ => head?_withReturnsOf []]
      exact .cons (Or.inl rfl) .nil
  | case5 c text hfeed hreturn line rest hlines ih =>
      rw [withReturnsOf_cons hfeed, linesOf_cons hfeed fun _ => head?_withReturnsOf text]
      rw [hlines] at ih
      cases hnew : linesOf (withReturnsOf text) with
      | nil =>
          rw [hnew] at ih
          cases ih
      | cons line' rest' =>
          rw [hnew] at ih
          obtain ⟨hline, hrest⟩ := List.forall₂_cons.mp ih
          refine .cons ?_ hrest
          rcases hline with rfl | rfl
          · exact Or.inl rfl
          · exact Or.inr rfl

/-- What does not see a carriage return at the end of a line does not see whether lines end in one. -/
theorem map_lines_withReturns {α : Type} {view : String → α} (h : ∀ line, view (line ++ "\r") = view line)
    (source : String) : (lines (withReturns source)).map view = (lines source).map view := by
  have hlines := forall₂_linesOf_withReturnsOf source.toList
  rw [lines, withReturns, String.toList_ofList, lines, List.map_map, List.map_map, ← List.forall₂_eq_eq_eq,
    List.forall₂_map_left_iff, List.forall₂_map_right_iff]
  refine hlines.flip.imp fun line' line hline => ?_
  rcases hline with rfl | rfl
  · rfl
  · rw [Function.comp_apply, String.ofList_append]
    exact h (String.ofList line)

theorem words_append_return (line : String) : words (line ++ "\r") = words line := by
  rw [words, String.toList_append, show "\r".toList = ['\r'] from rfl, wordsOf_append_blank_cons (by decide),
    wordsOf_nil, List.append_nil, words]

theorem sameRuns_withReturns (source : String) : SameRuns (withReturns source) source :=
  sameRuns_iff.mpr (map_lines_withReturns words_append_return source)

end Text

namespace Diagnostic

theorem dropReturns_append_return (line : String) : dropReturns (line ++ "\r") = dropReturns line := by
  rw [dropReturns, String.toList_append, show "\r".toList = ['\r'] from rfl, List.reverse_append, dropReturns]
  rfl

/-- An excerpt depends on the line without the carriage returns at its end. -/
theorem excerpt_eq (source : String) (number : Nat) : excerpt source number =
    (((Text.lines source).map dropReturns)[number - 1]?.map fun line =>
      "  |\n" ++ padLeft 4 (Nat.repr number) ++ " | " ++ line ++ "\n  |\n").getD "" := by
  rw [excerpt, List.getElem?_map]
  cases (Text.lines source)[number - 1]? <;> rfl

theorem render_withReturns (name source : String) (error : Error) :
    render name (Text.withReturns source) error = render name source error := by
  have hexcerpt : ∀ number, excerpt (Text.withReturns source) number = excerpt source number := by
    intro number
    rw [excerpt_eq, Text.map_lines_withReturns dropReturns_append_return, excerpt_eq]
  unfold render
  simp only [hexcerpt]

end Diagnostic

namespace Assembly

theorem pass_eq_of_sameRuns {source other : String} (h : Text.SameRuns source other) : pass source = pass other := by
  have hreadings : (Text.lines source).map Source.Line.read = (Text.lines other).map Source.Line.read := by
    have hlines := congrArg (List.map Source.Line.ofWords) (Text.sameRuns_iff.mp h)
    rwa [List.map_map, List.map_map] at hlines
  rw [pass, addSource, hreadings, pass, addSource]

/-- Both sources are assembled, to the same labels, program and degradations, or both fail, with the same label at the
same line. -/
def SameOutcome (source other : String) : Prop :=
  (∃ assembly, ofSource source = .ok assembly ∧ ofSource other = .ok assembly) ∨
    ∃ label line, ofSource source = .error (.duplicateLabel label line) ∧
      ofSource other = .error (.duplicateLabel label line)

theorem sameOutcome_of_sameRuns {source other : String} (h : Text.SameRuns source other) :
    SameOutcome source other := by
  have hresult : ofSource source = ofSource other := by rw [ofSource, pass_eq_of_sameRuns h, ofSource]
  cases hsource : ofSource source with
  | ok assembly => exact Or.inl ⟨assembly, hsource, hresult ▸ hsource⟩
  | error error =>
      obtain ⟨i, label, -, -, -, rfl, -⟩ := first_clash_of_ofSource_eq_error hsource
      exact Or.inr ⟨label, i + 1, hsource, hresult ▸ hsource⟩

/-- Sources whose lines have the same runs of characters between their blanks have the same outcome, and leave the same
degradations when they fail. In particular lines may end in a carriage return or not, and a diagnostic does not tell
which. -/
theorem layout_does_not_matter :
    (∀ source other, Text.SameRuns source other → SameOutcome source other ∧ pass source = pass other) ∧
    ∀ source, SameOutcome (Text.withReturns source) source ∧ pass (Text.withReturns source) = pass source ∧
      ∀ name error, ofSource source = .error error →
        Diagnostic.render name (Text.withReturns source) error = Diagnostic.render name source error := by
  refine ⟨fun source other h => ⟨sameOutcome_of_sameRuns h, pass_eq_of_sameRuns h⟩, fun source => ?_⟩
  have h := Text.sameRuns_withReturns source
  exact ⟨sameOutcome_of_sameRuns h, pass_eq_of_sameRuns h, fun name error _ =>
    Diagnostic.render_withReturns name source error⟩

/-- Two looks of a source that clashes, with wide and narrow blanks and a carriage return here and there, and its
diagnostic when every line ends in a carriage return. -/
theorem layout_does_not_matter_of_wide_blanks :
    Text.SameRuns "f0\tlin 1 5\r\n \nf0 out 1\r\n" "\u3000f0 lin\u00A01  5\n\nf0\u2003out\t1 \r" ∧
    SameOutcome "f0\tlin 1 5\r\n \nf0 out 1\r\n" "\u3000f0 lin\u00A01  5\n\nf0\u2003out\t1 \r" ∧
    ofSource "f0\tlin 1 5\r\n \nf0 out 1\r\n" = .error (.duplicateLabel "f0" 3) ∧
    Diagnostic.render "p" (Text.withReturns "f0\tlin 1 5\r\n \nf0 out 1\r\n") (.duplicateLabel "f0" 3) =
      "error: line 3: duplicate label: f0\n --> p:3\n  |\n   3 | f0 out 1\n  |\n" := by
  have hsame : Text.SameRuns "f0\tlin 1 5\r\n \nf0 out 1\r\n" "\u3000f0 lin\u00A01  5\n\nf0\u2003out\t1 \r" := by
    decide +kernel
  have hpass : (pass "f0\tlin 1 5\r\n \nf0 out 1\r\n").error? = some (.duplicateLabel "f0" 3) := by decide +kernel
  have hfails : ofSource "f0\tlin 1 5\r\n \nf0 out 1\r\n" = .error (.duplicateLabel "f0" 3) := by
    rw [ofSource, Pass.result, hpass]
  obtain ⟨hlayouts, hreturns⟩ := layout_does_not_matter
  refine ⟨hsame, (hlayouts _ _ hsame).1, hfails, ?_⟩
  rw [(hreturns _).2.2 "p" _ hfails]
  decide +kernel

end Assembly

end RegAsm
