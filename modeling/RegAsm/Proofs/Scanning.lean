import Mathlib.Data.List.TakeWhile
import RegAsm.Proofs.Layout

/-! Scanning a line word by word. Each scan takes one word off what is left of the text. The words that come out this
way are the maximal runs of characters that are not blank, each at its turn, and once they are used up every further
scan gives the empty word. A cursor over the words of the line gives the same words, and it shows the next one without
moving. -/

namespace RegAsm

namespace Text

/-! ### What scans leave behind -/

/-- What is left of a text when words were taken off it. -/
def behind : Nat → List Char → List Char
  | 0, text => text
  | count + 1, text => behind count (splitWord text).2

/-- Where there is no word, nothing is left. -/
theorem snd_splitWord_of_fst {text : List Char} (h : (splitWord text).1 = []) : (splitWord text).2 = [] := by
  have hparts := splitWord_append text
  rw [h, List.nil_append] at hparts
  rw [hparts, List.dropWhile_eq_nil_iff]
  exact isBlank_of_splitWord_eq_nil h

theorem wordsOf_snd_splitWord (text : List Char) : wordsOf (splitWord text).2 = (wordsOf text).tail := by
  rw [wordsOf.eq_def text]
  split
  · next hempty => rw [snd_splitWord_of_fst hempty, wordsOf_nil, List.tail_nil]
  · rw [List.tail_cons]

theorem wordsOf_behind (count : Nat) (text : List Char) : wordsOf (behind count text) = (wordsOf text).drop count := by
  induction count generalizing text with
  | zero => rfl
  | succ count ih => rw [behind, ih, wordsOf_snd_splitWord, List.drop_tail]

theorem fst_splitWord (text : List Char) : (splitWord text).1 = (wordsOf text).getD 0 [] := by
  rw [wordsOf]
  split
  · next hempty => exact hempty
  · rfl

theorem fst_splitWord_behind (count : Nat) (text : List Char) :
    (splitWord (behind count text)).1 = (runsOf text).getD count [] := by
  rw [fst_splitWord, wordsOf_behind, wordsOf_eq_runsOf]
  simp [List.getD_eq_getElem?_getD]

/-! ### Maximal runs -/

/-- The text is made up of these three parts, and the one in the middle is a run of characters that are not blank and
cannot be extended to either side. -/
structure MaximalRun (text before run after : List Char) : Prop where
  parts : text = before ++ (run ++ after)
  nonempty : run ≠ []
  letters : ∀ c ∈ run, isBlank c = false
  front : ∀ c ∈ before.getLast?, isBlank c = true
  back : ∀ c ∈ after.head?, isBlank c = true

theorem splitWord_of_parts {blanks word rest : List Char} (hblanks : ∀ c ∈ blanks, isBlank c = true)
    (hne : word ≠ []) (hword : ∀ c ∈ word, isBlank c = false) (hrest : ∀ c ∈ rest.head?, isBlank c = true) :
    splitWord (blanks ++ (word ++ rest)) = (word, rest) := by
  rw [splitWord, List.dropWhile_append_of_pos hblanks]
  exact splitWord_of_word hne hword hrest

/-- A word between blanks is the next word of its line. -/
theorem words_of_parts {blanks word rest : String} (hblanks : ∀ c ∈ blanks.toList, isBlank c = true)
    (hne : word ≠ "") (hword : BlankFree word) (hrest : ∀ c ∈ rest.toList.head?, isBlank c = true) :
    words (blanks ++ (word ++ rest)) = word :: words rest := by
  have hletters : word.toList ≠ [] := by simpa using hne
  have hsplit := splitWord_of_parts hblanks hletters hword hrest
  rw [words, String.toList_append, String.toList_append, wordsOf_of_splitWord hsplit hletters, List.map_cons,
    String.ofList_toList, words]

/-- The words in front of a maximal run are scanned before it. -/
theorem MaximalRun.splitWord_behind {text before run after : List Char} (h : MaximalRun text before run after) :
    splitWord (behind (wordsOf before).length text) = (run, after) := by
  obtain ⟨rfl, hne, hletters, hfront, hback⟩ := h
  fun_induction wordsOf before with
  | case1 before hempty => exact splitWord_of_parts (isBlank_of_splitWord_eq_nil hempty) hne hletters hback
  | case2 before hword ih =>
      have hparts := takeWhile_append_splitWord before
      have hblank := isBlank_head?_splitWord before
      -- A blank stands behind the last word in front, for the run could be extended to it otherwise.
      have hrest : (splitWord before).2 ≠ [] := by
        intro hrest
        rw [hrest, List.append_nil] at hparts
        obtain ⟨c, hc⟩ := Option.ne_none_iff_exists'.mp (mt List.getLast?_eq_none_iff.mp hword)
        have hletter := isBlank_of_mem_splitWord (List.mem_of_getLast? hc)
        rw [hfront c (by rw [← hparts, List.getLast?_append, hc]; rfl)] at hletter
        cases hletter
      have hsplit : splitWord (before ++ (run ++ after)) =
          ((splitWord before).1, (splitWord before).2 ++ (run ++ after)) := by
        have hhead : ∀ c ∈ ((splitWord before).2 ++ (run ++ after)).head?, isBlank c = true := by
          rwa [List.head?_append_of_ne_nil _ hrest]
        calc
          splitWord (before ++ (run ++ after)) = splitWord (before.takeWhile isBlank ++
              ((splitWord before).1 ++ ((splitWord before).2 ++ (run ++ after)))) := by
            rw [← List.append_assoc (splitWord before).1, ← List.append_assoc (before.takeWhile isBlank), hparts]
          _ = ((splitWord before).1, (splitWord before).2 ++ (run ++ after)) :=
            splitWord_of_parts (fun _ => isBlank_of_mem_takeWhile) hword (fun _ => isBlank_of_mem_splitWord) hhead
      rw [List.length_cons, behind, hsplit]
      apply ih
      rwa [← hparts, List.getLast?_append_of_ne_nil _ (List.append_ne_nil_of_right_ne_nil _ hrest),
        List.getLast?_append_of_ne_nil _ hrest] at hfront

theorem MaximalRun.head?_before {text before run after : List Char} (h : MaximalRun text before run after)
    (htext : ∀ c ∈ text.head?, isBlank c = true) : before ≠ [] ∧ ∀ c ∈ before.head?, isBlank c = true := by
  cases before with
  | nil =>
      obtain ⟨c, run, rfl⟩ := List.exists_cons_of_ne_nil h.nonempty
      have hletter := h.letters c List.mem_cons_self
      rw [htext c (by rw [h.parts]; rfl)] at hletter
      cases hletter
  | cons c before =>
      refine ⟨List.cons_ne_nil c before, fun d hd => htext d ?_⟩
      rw [h.parts]
      exact hd

/-- Each word that is scanned is a maximal run, and the words that were scanned before are those in front of it. -/
theorem exists_maximalRun {count : Nat} {text run after : List Char}
    (h : splitWord (behind count text) = (run, after)) (hne : run ≠ []) :
    ∃ before, MaximalRun text before run after ∧ (wordsOf before).length = count := by
  induction count generalizing text with
  | zero =>
      rw [behind] at h
      refine ⟨text.takeWhile isBlank, ⟨?_, hne, ?_, ?_, ?_⟩, ?_⟩
      · have hparts := takeWhile_append_splitWord text
        rw [h] at hparts
        exact hparts.symm
      · intro c hc
        exact @isBlank_of_mem_splitWord text c (by rwa [h])
      · intro c hc
        exact isBlank_of_mem_takeWhile (List.mem_of_getLast? hc)
      · have hblank := isBlank_head?_splitWord text
        rwa [h] at hblank
      · have hwords := wordsOf_blanks_append (@isBlank_of_mem_takeWhile text) []
        rw [List.append_nil, wordsOf_nil] at hwords
        rw [hwords, List.length_nil]
  | succ count ih =>
      obtain ⟨before, hrun, hcount⟩ := ih h
      have hword : (splitWord text).1 ≠ [] := by
        intro hempty
        have hnil := hrun.parts
        rw [snd_splitWord_of_fst hempty] at hnil
        exact hne (List.append_eq_nil_iff.mp (List.append_eq_nil_iff.mp hnil.symm).2).1
      obtain ⟨hbefore, hhead⟩ := hrun.head?_before (isBlank_head?_splitWord text)
      refine ⟨text.takeWhile isBlank ++ ((splitWord text).1 ++ before),
        ⟨?_, hne, hrun.letters, ?_, hrun.back⟩, ?_⟩
      · rw [List.append_assoc, List.append_assoc, ← hrun.parts, takeWhile_append_splitWord]
      · rw [List.getLast?_append_of_ne_nil _ (List.append_ne_nil_of_right_ne_nil _ hbefore),
          List.getLast?_append_of_ne_nil _ hbefore]
        exact hrun.front
      · rw [wordsOf_append (fun _ => isBlank_of_mem_takeWhile) hword (fun _ => isBlank_of_mem_splitWord) hhead,
          List.length_cons, hcount]

/-- What one scan gives and leaves. -/
theorem splitWord_parts {text word rest : List Char} (h : splitWord text = (word, rest)) :
    word ++ rest = text.dropWhile isBlank ∧ (∀ c ∈ word, isBlank c = false) ∧
      (rest = [] ∨ ∃ c more, rest = c :: more ∧ isBlank c = true) ∧ (word ≠ [] → rest.length < text.length) := by
  have happend := splitWord_append text
  have hblank := isBlank_head?_splitWord text
  rw [h] at happend hblank
  refine ⟨happend, fun c hc => @isBlank_of_mem_splitWord text c (by rwa [h]), ?_, fun hne => ?_⟩
  · cases rest with
    | nil => exact Or.inl rfl
    | cons c more => exact Or.inr ⟨c, more, rfl, hblank c rfl⟩
  · have hshorter := @length_splitWord_lt text (by rwa [h])
    rwa [h] at hshorter

end Text

/-! ### Cursors -/

namespace Source.Cursor

/-- A cursor in front of the words of a line. -/
def ofLine (line : String) : Cursor := { words := Text.words line }

/-- The cursor after scans one after another. -/
def scanned : Cursor → Nat → Cursor
  | cursor, 0 => cursor
  | cursor, count + 1 => scanned cursor.scan.2 count

theorem words_scanned (cursor : Cursor) (count : Nat) : (cursor.scanned count).words = cursor.words.drop count := by
  induction count generalizing cursor with
  | zero => rfl
  | succ count ih => rw [scanned, ih, scan, skip, List.drop_tail]

theorem fst_scan_scanned (line : String) (count : Nat) :
    ((ofLine line).scanned count).scan.1 = (Text.runs line).getD count "" := by
  rw [scan, peek, words_scanned, ofLine, Text.words_eq_runs]
  simp [List.getD_eq_getElem?_getD, List.headD_eq_head?_getD]

theorem ofList_splitWord_behind (line : String) (count : Nat) :
    String.ofList (Text.splitWord (Text.behind count line.toList)).1 = (Text.runs line).getD count "" := by
  rw [Text.fst_splitWord_behind, Text.runs, List.getD_eq_getElem?_getD, List.getD_eq_getElem?_getD, List.getElem?_map]
  cases (Text.runsOf line.toList)[count]? <;> rfl

theorem getD_runs_eq_empty_iff (line : String) (count : Nat) :
    (Text.runs line).getD count "" = "" ↔ (Text.runs line).length ≤ count := by
  rw [← List.getElem?_eq_none_iff, List.getD_eq_getElem?_getD]
  cases hrun : (Text.runs line)[count]? with
  | none => simp
  | some run =>
      have hword : run ∈ Text.words line := by
        rw [Text.words_eq_runs]
        exact List.mem_of_getElem? hrun
      simpa using (Text.mem_words hword).1

/-- A line is scanned run by run: the scan behind `count` others gives the run with `count` runs in front of it, on a
cursor over the words as well as on the text itself, and the empty word exactly when there is no such run. A cursor
shows the word that the next scan will give. A word and what is left behind it are the text without the blanks in front;
the word has no blank, what is left begins with one if anything is left, and it is shorter than the text unless the word
is empty. -/
theorem scans_enumerate_runs (line : String) :
    (∀ count,
      ((ofLine line).scanned count).scan.1 = (Text.runs line).getD count "" ∧
      String.ofList (Text.splitWord (Text.behind count line.toList)).1 = (Text.runs line).getD count "" ∧
      (((ofLine line).scanned count).scan.1 = "" ↔ (Text.runs line).length ≤ count) ∧
      ∀ run after, Text.splitWord (Text.behind count line.toList) = (run, after) ∧ run ≠ [] ↔
        ∃ before, Text.MaximalRun line.toList before run after ∧ (Text.runsOf before).length = count) ∧
    (∀ cursor : Cursor, cursor.peek = cursor.scan.1) ∧
    ∀ text word rest, Text.splitWord text = (word, rest) →
      word ++ rest = text.dropWhile Text.isBlank ∧ (∀ c ∈ word, Text.isBlank c = false) ∧
      (rest = [] ∨ ∃ c more, rest = c :: more ∧ Text.isBlank c = true) ∧
      (word ≠ [] → rest.length < text.length) := by
  refine ⟨fun count => ⟨fst_scan_scanned line count, ofList_splitWord_behind line count, ?_, fun run after => ?_⟩,
    fun cursor => rfl, fun text word rest => Text.splitWord_parts⟩
  · rw [fst_scan_scanned, getD_runs_eq_empty_iff]
  · simp only [← Text.wordsOf_eq_runsOf]
    constructor
    · rintro ⟨hsplit, hne⟩
      exact Text.exists_maximalRun hsplit hne
    · rintro ⟨before, hrun, rfl⟩
      exact ⟨hrun.splitWord_behind, hrun.nonempty⟩

/-- A wide blank in front, a tab and a no-break space between the words, and characters of several bytes beside them:
the third word, the scan behind it, and the last scan on the text. -/
theorem scans_enumerate_runs_of_wide_blanks :
    Text.runs "\u3000\u017Fub\t1\u00A0é " = ["\u017Fub", "1", "é"] ∧
    ((ofLine "\u3000\u017Fub\t1\u00A0é ").scanned 2).scan.1 = "é" ∧
    ((ofLine "\u3000\u017Fub\t1\u00A0é ").scanned 3).scan.1 = "" ∧
    Text.splitWord "\u00A0é ".toList = (['é'], [' ']) ∧ [' '].length < "\u00A0é ".toList.length ∧
    ∃ before, Text.MaximalRun "\u3000\u017Fub\t1\u00A0é ".toList before ['é'] [' '] ∧
      (Text.runsOf before).length = 2 := by
  have hruns : Text.runs "\u3000\u017Fub\t1\u00A0é " = ["\u017Fub", "1", "é"] := by decide +kernel
  have hsplit : Text.splitWord "\u00A0é ".toList = (['é'], [' ']) := by decide +kernel
  obtain ⟨hscans, -, hparts⟩ := scans_enumerate_runs "\u3000\u017Fub\t1\u00A0é "
  refine ⟨hruns, ?_, ?_, hsplit, (hparts _ _ _ hsplit).2.2.2 (by decide), ?_⟩
  · rw [(hscans 2).1, hruns]
    rfl
  · rw [(hscans 3).2.2.1, hruns]
    decide
  · exact ((hscans 2).2.2.2 _ _).mp ⟨by decide +kernel, by decide⟩

end Source.Cursor

end RegAsm
