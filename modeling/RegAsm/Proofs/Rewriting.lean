import RegAsm.Proofs.Text

/-! Texts with other words in the places of their own. The blanks between the words and the ends of the lines stay
as they are, so the lines of the new text have the new words and nothing else changes. -/

namespace RegAsm.Text

/-- A text that can be a word of a line. -/
def IsWord (text : String) : Prop := text ≠ "" ∧ BlankFree text

instance (text : String) : Decidable (IsWord text) := inferInstanceAs (Decidable (_ ∧ _))

/-! ### Words and the blanks around them -/

/-- A text is made up of the blanks in front, the first word and what stands behind it. -/
theorem takeWhile_append_splitWord (text : List Char) :
    text.takeWhile isBlank ++ ((splitWord text).1 ++ (splitWord text).2) = text := by
  rw [splitWord_append, List.takeWhile_append_dropWhile]

theorem isBlank_of_mem_takeWhile {text : List Char} {c : Char} (h : c ∈ text.takeWhile isBlank) :
    isBlank c = true :=
  List.all_eq_true.mp List.all_takeWhile c h

theorem isBlank_head?_splitWord (text : List Char) : ∀ c ∈ (splitWord text).2.head?, isBlank c = true := by
  intro c hc
  have hhead := List.head?_dropWhile_not (!isBlank ·) (text.dropWhile isBlank)
  rw [show (text.dropWhile isBlank).dropWhile (!isBlank ·) = (splitWord text).2 from rfl, hc] at hhead
  simpa using hhead

theorem wordsOf_blanks_append {blanks : List Char} (h : ∀ c ∈ blanks, isBlank c = true) (text : List Char) :
    wordsOf (blanks ++ text) = wordsOf text := by
  induction blanks with
  | nil => rfl
  | cons c blanks ih =>
      rw [List.cons_append, wordsOf_cons_blank (h c List.mem_cons_self)]
      exact ih fun c hc => h c (List.mem_cons_of_mem _ hc)

/-- The words of a text that is put together as any text is. -/
theorem wordsOf_append {blanks word rest : List Char} (hblanks : ∀ c ∈ blanks, isBlank c = true)
    (hne : word ≠ []) (hword : ∀ c ∈ word, isBlank c = false) (hrest : ∀ c ∈ rest.head?, isBlank c = true) :
    wordsOf (blanks ++ (word ++ rest)) = word :: wordsOf rest := by
  rw [wordsOf_blanks_append hblanks, wordsOf_of_splitWord (splitWord_of_word hne hword hrest) hne]

theorem isBlank_of_splitWord_eq_nil {text : List Char} (h : (splitWord text).1 = []) :
    ∀ c ∈ text, isBlank c = true := by
  intro c hc
  cases hbody : text.dropWhile isBlank with
  | nil =>
      rw [← List.takeWhile_append_dropWhile (p := isBlank) (l := text), hbody, List.append_nil] at hc
      exact isBlank_of_mem_takeWhile hc
  | cons d body =>
      have hletter : isBlank d = false := by
        have hhead := List.head?_dropWhile_not isBlank text
        rw [hbody] at hhead
        simpa using hhead
      rw [splitWord, hbody, List.takeWhile_cons_of_pos (by simp [hletter])] at h
      cases h

/-- Words are split at every blank. -/
theorem wordsOf_append_blank_cons {c : Char} (hc : isBlank c = true) (text more : List Char) :
    wordsOf (text ++ c :: more) = wordsOf text ++ wordsOf more := by
  fun_induction wordsOf text with
  | case1 text hempty =>
      rw [wordsOf_blanks_append (isBlank_of_splitWord_eq_nil hempty), wordsOf_cons_blank hc, List.nil_append]
  | case2 text hne ih =>
      have hrest : ∀ d ∈ ((splitWord text).2 ++ c :: more).head?, isBlank d = true := by
        have hhead := isBlank_head?_splitWord text
        cases hsplit : (splitWord text).2 with
        | nil => simpa using hc
        | cons d rest =>
            rw [hsplit] at hhead
            simpa using hhead
      calc
        wordsOf (text ++ c :: more) = wordsOf (text.takeWhile isBlank ++
            ((splitWord text).1 ++ ((splitWord text).2 ++ c :: more))) := by
          rw [← List.append_assoc (splitWord text).1, ← List.append_assoc, takeWhile_append_splitWord]
        _ = (splitWord text).1 :: wordsOf ((splitWord text).2 ++ c :: more) :=
          wordsOf_append (fun _ => isBlank_of_mem_takeWhile) hne (fun _ => isBlank_of_mem_splitWord) hrest
        _ = (splitWord text).1 :: wordsOf (splitWord text).2 ++ wordsOf more := by
          rw [ih, List.cons_append]

/-! ### Other words in the same places -/

/-- Replaces the words of a text, each by the word that `f` gives for its place, counted from zero. -/
def mapWordsOf (f : Nat → List Char → List Char) (text : List Char) : List Char :=
  if _h : (splitWord text).1 = [] then text
  else
    text.takeWhile isBlank ++
      (f 0 (splitWord text).1 ++ mapWordsOf (fun place => f (place + 1)) (splitWord text).2)
termination_by text.length
decreasing_by exact length_splitWord_lt _h

/-- A word is replaced by a word, wherever it stands. -/
def KeepsWords (f : Nat → List Char → List Char) : Prop :=
  ∀ place word, word ≠ [] → (∀ c ∈ word, isBlank c = false) →
    f place word ≠ [] ∧ ∀ c ∈ f place word, isBlank c = false

theorem KeepsWords.behind {f : Nat → List Char → List Char} (hf : KeepsWords f) :
    KeepsWords fun place => f (place + 1) :=
  fun place => hf (place + 1)

theorem KeepsWords.splitWord {f : Nat → List Char → List Char} (hf : KeepsWords f) {text : List Char}
    (h : (splitWord text).1 ≠ []) :
    f 0 (splitWord text).1 ≠ [] ∧ ∀ c ∈ f 0 (splitWord text).1, isBlank c = false :=
  hf 0 _ h fun _ => isBlank_of_mem_splitWord

theorem head?_mapWordsOf (f : Nat → List Char → List Char) {text : List Char}
    (h : ∀ c ∈ text.head?, isBlank c = true) : (mapWordsOf f text).head? = text.head? := by
  rw [mapWordsOf]
  split
  · rfl
  · next hne =>
      cases text with
      | nil => exact absurd rfl hne
      | cons c text => simp [h c rfl]

theorem wordsOf_mapWordsOf {f : Nat → List Char → List Char} (hf : KeepsWords f) (text : List Char) :
    wordsOf (mapWordsOf f text) = (wordsOf text).mapIdx f := by
  fun_induction mapWordsOf f text with
  | case1 f text hempty =>
      rw [wordsOf.eq_def text, dif_pos hempty, List.mapIdx_nil]
  | case2 f text hne ih =>
      obtain ⟨hnew, hletters⟩ := hf.splitWord hne
      have hrest : ∀ c ∈ (mapWordsOf (fun place => f (place + 1)) (splitWord text).2).head?,
          isBlank c = true := by
        rw [head?_mapWordsOf _ (isBlank_head?_splitWord text)]
        exact isBlank_head?_splitWord text
      rw [wordsOf_append (fun _ => isBlank_of_mem_takeWhile) hnew hletters hrest, ih hf.behind,
        wordsOf.eq_def text, dif_neg hne, List.mapIdx_cons]

/-- No blank is brought in. -/
theorem mem_of_mem_mapWordsOf {f : Nat → List Char → List Char} (hf : KeepsWords f) {text : List Char}
    {c : Char} (hc : isBlank c = true) (h : c ∈ mapWordsOf f text) : c ∈ text := by
  fun_induction mapWordsOf f text with
  | case1 f text hempty => exact h
  | case2 f text hne ih =>
      rw [← takeWhile_append_splitWord text]
      rcases List.mem_append.mp h with h | h
      · exact List.mem_append_left _ h
      · apply List.mem_append_right
        rcases List.mem_append.mp h with h | h
        · rw [(hf.splitWord hne).2 c h] at hc
          cases hc
        · exact List.mem_append_right _ (ih hf.behind h)

theorem mapWordsOf_eq_nil_iff {f : Nat → List Char → List Char} (hf : KeepsWords f) (text : List Char) :
    mapWordsOf f text = [] ↔ text = [] := by
  rw [mapWordsOf]
  split
  · rfl
  · next hne =>
      have htext : text ≠ [] := by
        rintro rfl
        exact hne rfl
      simp [(hf.splitWord hne).1, htext]

/-- Replaces the words of a line, each by the word that `f` gives for its place. -/
def mapWords (f : Nat → String → String) (line : String) : String :=
  String.ofList (mapWordsOf (fun place word => (f place (String.ofList word)).toList) line.toList)

theorem keepsWords_toList {f : Nat → String → String} (hf : ∀ place word, IsWord word → IsWord (f place word)) :
    KeepsWords fun place word => (f place (String.ofList word)).toList := by
  intro place word hne hword
  obtain ⟨hnew, hfree⟩ := hf place (String.ofList word) ⟨by simpa using hne, by simpa [BlankFree] using hword⟩
  exact ⟨by simpa using hnew, hfree⟩

section

variable {f : Nat → String → String} (hf : ∀ place word, IsWord word → IsWord (f place word))
include hf

theorem words_mapWords (line : String) : words (mapWords f line) = (words line).mapIdx f := by
  rw [words, mapWords, String.toList_ofList, wordsOf_mapWordsOf (keepsWords_toList hf), words]
  apply List.ext_getElem?
  intro place
  simp [Function.comp_def]

theorem mem_of_mem_mapWords {line : String} {c : Char} (hc : isBlank c = true)
    (h : c ∈ (mapWords f line).toList) : c ∈ line.toList := by
  rw [mapWords, String.toList_ofList] at h
  exact mem_of_mem_mapWordsOf (keepsWords_toList hf) hc h

theorem mapWords_eq_empty_iff (line : String) : mapWords f line = "" ↔ line = "" := by
  rw [mapWords, String.ofList_eq_empty_iff, mapWordsOf_eq_nil_iff (keepsWords_toList hf), String.toList_eq_nil_iff]

end

/-! ### Line by line -/

/-- Rewrites a text line by line. A carriage return at the end of a line counts as part of the line. -/
def mapLinesOf (f : List Char → List Char) (text : List Char) : List Char :=
  ['\n'].intercalate ((text.splitOn '\n').map f)

theorem linesOf_of_not_mem {line : List Char} (h : '\n' ∉ line) : linesOf line = [line].filter (· ≠ []) := by
  induction line with
  | nil => rfl
  | cons c line ih =>
      rw [List.mem_cons, not_or] at h
      have hhead : line.head? ≠ some '\n' := fun hhead => h.2 (List.mem_of_head? hhead)
      rw [linesOf_cons (Ne.symm h.1) fun _ => hhead, ih h.2]
      cases line <;> rfl

/-- The text up to a line feed is a line, but for a carriage return at its end. -/
theorem linesOf_append_feed {piece : List Char} (h : '\n' ∉ piece) (text : List Char) :
    ∃ line, linesOf (piece ++ '\n' :: text) = line :: linesOf text ∧
      (piece = line ∨ piece = line ++ ['\r']) := by
  induction piece with
  | nil => exact ⟨[], rfl, Or.inl rfl⟩
  | cons c piece ih =>
      rw [List.mem_cons, not_or] at h
      by_cases hend : c = '\r' ∧ piece = []
      · obtain ⟨rfl, rfl⟩ := hend
        exact ⟨[], rfl, Or.inr rfl⟩
      · obtain ⟨line, hlines, hpiece⟩ := ih h.2
        have hreturn : c = '\r' → (piece ++ '\n' :: text).head? ≠ some '\n' := by
          intro hc hhead
          cases piece with
          | nil => exact hend ⟨hc, rfl⟩
          | cons d piece => exact h.2 (List.mem_of_head? hhead)
        refine ⟨c :: line, ?_, ?_⟩
        · rw [List.cons_append, linesOf_cons (Ne.symm h.1) hreturn, hlines]
          rfl
        · rcases hpiece with rfl | rfl
          · exact Or.inl rfl
          · exact Or.inr rfl

theorem wordsOf_linesOf_append_feed {piece : List Char} (h : '\n' ∉ piece) (text : List Char) :
    (linesOf (piece ++ '\n' :: text)).map wordsOf = wordsOf piece :: (linesOf text).map wordsOf := by
  obtain ⟨line, hlines, rfl | rfl⟩ := linesOf_append_feed h text
  · rw [hlines, List.map_cons]
  · rw [hlines, List.map_cons, wordsOf_append_blank_cons (by decide), wordsOf_nil, List.append_nil]

theorem not_mem_of_mem_splitOn {text piece : List Char} (h : piece ∈ text.splitOn '\n') : '\n' ∉ piece := by
  induction text generalizing piece with
  | nil =>
      rw [List.splitOn_nil, List.mem_singleton] at h
      rw [h]
      exact List.not_mem_nil
  | cons c text ih =>
      rw [List.splitOn_cons_eq_if_modifyHead] at h
      split at h
      · rcases List.mem_cons.mp h with rfl | h
        · exact List.not_mem_nil
        · exact ih h
      · next hc =>
          obtain ⟨first, rest, hsplit⟩ := List.exists_cons_of_ne_nil (List.splitOn_ne_nil '\n' text)
          rw [hsplit, List.modifyHead_cons] at h
          rcases List.mem_cons.mp h with rfl | h
          · intro hmem
            rcases List.mem_cons.mp hmem with hfeed | hmem
            · exact hc (by simp [← hfeed])
            · exact ih (by rw [hsplit]; exact List.mem_cons_self) hmem
          · exact ih (by rw [hsplit]; exact List.mem_cons_of_mem _ h)

/-- The words on the lines of a text that was split at its line feeds. The last piece is a line only if it is not
empty. -/
theorem wordsOf_linesOf_intercalate {pieces : List (List Char)} {last : List Char}
    (hpieces : ∀ piece ∈ pieces, '\n' ∉ piece) (hlast : '\n' ∉ last) :
    (linesOf (['\n'].intercalate (pieces ++ [last]))).map wordsOf =
      pieces.map wordsOf ++ ([last].filter (· ≠ [])).map wordsOf := by
  induction pieces with
  | nil => rw [List.nil_append, List.intercalate_singleton, linesOf_of_not_mem hlast, List.map_nil, List.nil_append]
  | cons piece pieces ih =>
      obtain ⟨next, rest, hrest⟩ := List.exists_cons_of_ne_nil (List.append_ne_nil_of_right_ne_nil pieces
        (List.cons_ne_nil last []))
      have hwords := ih fun piece hmem => hpieces piece (List.mem_cons_of_mem _ hmem)
      rw [hrest] at hwords
      rw [List.cons_append, hrest, List.intercalate_cons_cons, List.append_assoc, List.singleton_append,
        wordsOf_linesOf_append_feed (hpieces piece List.mem_cons_self), hwords, List.map_cons, List.cons_append]

/-- A rewriting that acts on the words of each line acts so on the lines of the text. It must neither bring in line
feeds nor empty a line. -/
theorem wordsOf_linesOf_mapLinesOf {f : List Char → List Char} {g : List (List Char) → List (List Char)}
    (hfeed : ∀ piece, '\n' ∉ piece → '\n' ∉ f piece) (hempty : ∀ piece, f piece = [] ↔ piece = [])
    (hwords : ∀ piece, wordsOf (f piece) = g (wordsOf piece)) (text : List Char) :
    (linesOf (mapLinesOf f text)).map wordsOf = ((linesOf text).map wordsOf).map g := by
  obtain ⟨pieces, last, hsplit⟩ : ∃ pieces last, pieces ++ [last] = text.splitOn '\n' :=
    ⟨_, _, List.dropLast_concat_getLast (List.splitOn_ne_nil '\n' text)⟩
  have hpieces : ∀ piece ∈ pieces, '\n' ∉ piece := fun piece hmem =>
    not_mem_of_mem_splitOn (hsplit ▸ List.mem_append_left _ hmem)
  have hlast : '\n' ∉ last := not_mem_of_mem_splitOn (hsplit ▸ List.mem_append_right _ List.mem_cons_self)
  have htext : (linesOf text).map wordsOf = pieces.map wordsOf ++ ([last].filter (· ≠ [])).map wordsOf := by
    rw [← wordsOf_linesOf_intercalate hpieces hlast, hsplit, List.intercalate_splitOn]
  have hnew : ∀ piece ∈ pieces.map f, '\n' ∉ piece := by
    intro piece hmem
    obtain ⟨old, hold, rfl⟩ := List.mem_map.mp hmem
    exact hfeed old (hpieces old hold)
  rw [mapLinesOf, ← hsplit, List.map_append, List.map_singleton,
    wordsOf_linesOf_intercalate hnew (hfeed last hlast), htext]
  by_cases hnone : last = []
  · simp [hnone, (hempty []).mpr rfl, hwords]
  · simp [hnone, mt (hempty last).mp hnone, hwords]

/-- Rewrites a source line by line, the ends of the lines apart. -/
def mapLines (f : String → String) (source : String) : String :=
  String.ofList (mapLinesOf (fun piece => (f (String.ofList piece)).toList) source.toList)

theorem map_toList_words (line : String) : (words line).map String.toList = wordsOf line.toList := by
  rw [words, List.map_map, show String.toList ∘ String.ofList = id from funext fun _ => String.toList_ofList,
    List.map_id]

theorem map_words_lines_mapLines {f : String → String} {g : List String → List String}
    (hfeed : ∀ line, '\n' ∈ (f line).toList → '\n' ∈ line.toList) (hempty : ∀ line, f line = "" ↔ line = "")
    (hwords : ∀ line, words (f line) = g (words line)) (source : String) :
    (lines (mapLines f source)).map words = ((lines source).map words).map g := by
  have hletters : ∀ piece, wordsOf (f (String.ofList piece)).toList =
      (g ((wordsOf piece).map String.ofList)).map String.toList := by
    intro piece
    rw [← map_toList_words, hwords, words, String.toList_ofList]
  have hlines := wordsOf_linesOf_mapLinesOf (g := fun pieces => (g (pieces.map String.ofList)).map String.toList)
    (fun piece hpiece hmem => hpiece (by simpa using hfeed _ hmem)) (fun piece => by simp [hempty]) hletters
    source.toList
  have hmapped := congrArg (List.map (List.map String.ofList)) hlines
  simpa [lines, mapLines, words, Function.comp_def] using hmapped

end RegAsm.Text
