import RegAsm.Text.Lines
import RegAsm.Text.Words

/-! Words and lines put together again. A text that is printed word by word and line by line is read back
as the same words and the same lines, and the text of the first lines of a source has those lines. -/

namespace RegAsm.Text

/-! ### Words -/

/-- No blank stands in the text. -/
def BlankFree (text : String) : Prop := ∀ c ∈ text.toList, isBlank c = false

instance (text : String) : Decidable (BlankFree text) :=
  decidable_of_iff (text.toList.all (!isBlank ·) = true) (by simp [BlankFree])

theorem BlankFree.append {text more : String} (h : BlankFree text) (h' : BlankFree more) :
    BlankFree (text ++ more) := by
  intro c hc
  rw [String.toList_append] at hc
  rcases List.mem_append.mp hc with hc | hc
  · exact h c hc
  · exact h' c hc

theorem mem_wordsOf {text word : List Char} (h : word ∈ wordsOf text) :
    word ≠ [] ∧ ∀ c ∈ word, isBlank c = false := by
  fun_induction wordsOf text with
  | case1 text hempty => exact absurd h List.not_mem_nil
  | case2 text hne ih =>
      rcases List.mem_cons.mp h with rfl | h
      · exact ⟨hne, fun c hc => isBlank_of_mem_splitWord hc⟩
      · exact ih h

theorem mem_words {line word : String} (h : word ∈ words line) : word ≠ "" ∧ BlankFree word := by
  obtain ⟨letters, hmem, rfl⟩ := List.mem_map.mp h
  obtain ⟨hne, hfree⟩ := mem_wordsOf hmem
  constructor
  · intro hempty
    exact hne (by simpa using congrArg String.toList hempty)
  · simpa [BlankFree] using hfree

/-- A word ends at the first blank behind it. -/
theorem splitWord_of_word {word rest : List Char} (hne : word ≠ []) (hword : ∀ c ∈ word, isBlank c = false)
    (hrest : ∀ c ∈ rest.head?, isBlank c = true) : splitWord (word ++ rest) = (word, rest) := by
  have hbody : (word ++ rest).dropWhile isBlank = word ++ rest := by
    cases word with
    | nil => exact absurd rfl hne
    | cons c word => simp [hword c List.mem_cons_self]
  have htake : rest.takeWhile (!isBlank ·) = [] := by
    cases rest with
    | nil => rfl
    | cons c rest => simp [hrest c rfl]
  have hdrop : rest.dropWhile (!isBlank ·) = rest := by
    cases rest with
    | nil => rfl
    | cons c rest => simp [hrest c rfl]
  have hletters : ∀ c ∈ word, (!isBlank c) = true := fun c hc => by simp [hword c hc]
  simp only [splitWord, hbody, List.takeWhile_append_of_pos hletters, htake, List.append_nil,
    List.dropWhile_append_of_pos hletters, hdrop]

theorem wordsOf_of_splitWord {text word rest : List Char} (h : splitWord text = (word, rest))
    (hne : word ≠ []) : wordsOf text = word :: wordsOf rest := by
  rw [wordsOf, h]
  simp [hne]

theorem wordsOf_nil : wordsOf [] = [] := by
  rw [wordsOf]
  rfl

theorem wordsOf_cons_blank {c : Char} (hc : isBlank c = true) (text : List Char) :
    wordsOf (c :: text) = wordsOf text := by
  have hsplit : splitWord (c :: text) = splitWord text := by
    simp [splitWord, hc]
  rw [wordsOf.eq_def (c :: text), wordsOf.eq_def text, hsplit]

/-- A text without blanks is one word, unless it is empty. -/
theorem wordsOf_word {word : List Char} (hword : ∀ c ∈ word, isBlank c = false) :
    wordsOf word = [word].filter (· ≠ []) := by
  by_cases hne : word = []
  · simp [hne, wordsOf_nil]
  · have hsplit : splitWord (word ++ []) = (word, []) := splitWord_of_word hne hword (by simp)
    rw [List.append_nil] at hsplit
    rw [wordsOf_of_splitWord hsplit hne, wordsOf_nil]
    simp [hne]

theorem wordsOf_word_append {word : List Char} (hword : ∀ c ∈ word, isBlank c = false) {c : Char}
    (hc : isBlank c = true) (text : List Char) :
    wordsOf (word ++ c :: text) = [word].filter (· ≠ []) ++ wordsOf text := by
  by_cases hne : word = []
  · simp [hne, wordsOf_cons_blank hc]
  · have hsplit : splitWord (word ++ c :: text) = (word, c :: text) :=
      splitWord_of_word hne hword (by simpa using hc)
    rw [wordsOf_of_splitWord hsplit hne, wordsOf_cons_blank hc]
    simp [hne]

theorem wordsOf_intercalate {pieces : List (List Char)}
    (h : ∀ piece ∈ pieces, ∀ c ∈ piece, isBlank c = false) :
    wordsOf ([' '].intercalate pieces) = pieces.filter (· ≠ []) := by
  induction pieces with
  | nil => simpa using wordsOf_nil
  | cons piece rest ih =>
      have hpiece := h piece List.mem_cons_self
      cases rest with
      | nil => simpa using wordsOf_word hpiece
      | cons next rest =>
          have hrest := ih fun piece hp => h piece (List.mem_cons_of_mem _ hp)
          rw [List.intercalate_cons_cons, List.append_assoc, List.singleton_append,
            wordsOf_word_append hpiece (by decide), hrest, ← List.filter_append, List.singleton_append]

/-- Pieces without blanks, put side by side with single spaces, are the words of the line; an empty piece
is none. -/
theorem words_intercalate {pieces : List String} (h : ∀ piece ∈ pieces, BlankFree piece) :
    words (" ".intercalate pieces) = pieces.filter (· ≠ "") := by
  have hletters : ∀ letters ∈ pieces.map String.toList, ∀ c ∈ letters, isBlank c = false := by
    intro letters hl
    obtain ⟨piece, hp, rfl⟩ := List.mem_map.mp hl
    exact h piece hp
  rw [words, String.toList_intercalate, show " ".toList = [' '] from rfl, wordsOf_intercalate hletters,
    List.filter_map, List.map_map]
  have hid : (String.ofList ∘ String.toList) = id := by
    funext piece
    simp
  rw [hid, List.map_id]
  congr 1
  funext piece
  simp

theorem mem_intercalate_space {pieces : List String} {c : Char}
    (h : c ∈ (" ".intercalate pieces).toList) : c = ' ' ∨ ∃ piece ∈ pieces, c ∈ piece.toList := by
  induction pieces with
  | nil => exact absurd h (by simp)
  | cons piece rest ih =>
      cases rest with
      | nil => exact Or.inr ⟨piece, List.mem_cons_self, by simpa using h⟩
      | cons next rest =>
          rw [String.intercalate_cons_cons, String.toList_append, String.toList_append, List.mem_append,
            List.mem_append] at h
          rcases h with (h | h) | h
          · exact Or.inr ⟨piece, List.mem_cons_self, h⟩
          · exact Or.inl (by simpa using h)
          · rcases ih h with h | ⟨piece, hmem, h⟩
            · exact Or.inl h
            · exact Or.inr ⟨piece, List.mem_cons_of_mem _ hmem, h⟩

/-- The only blank on a line of pieces without blanks is the space between them. -/
theorem not_mem_intercalate {pieces : List String} (h : ∀ piece ∈ pieces, BlankFree piece) {c : Char}
    (hblank : isBlank c = true) (hspace : c ≠ ' ') : c ∉ (" ".intercalate pieces).toList := by
  intro hmem
  rcases mem_intercalate_space hmem with hc | ⟨piece, hpiece, hc⟩
  · exact hspace hc
  · rw [h piece hpiece c hc] at hblank
    exact absurd hblank (by decide)

/-! ### Lines -/

/-- A character that belongs to no line end is put in front of the first line. -/
theorem linesOf_cons {c : Char} {text : List Char} (hfeed : c ≠ '\n')
    (hreturn : c = '\r' → text.head? ≠ some '\n') :
    linesOf (c :: text) = (c :: (linesOf text).headD []) :: (linesOf text).tail := by
  have hend : ∀ rest, c = '\r' → text = '\n' :: rest → False := by
    intro rest hc htext
    exact hreturn hc (by rw [htext]; rfl)
  rw [linesOf.eq_4 c text hfeed hend]
  cases linesOf text <;> rfl

theorem linesOf_line_append {line : List Char} (hfeed : '\n' ∉ line) (hreturn : '\r' ∉ line)
    (text : List Char) : linesOf (line ++ '\n' :: text) = line :: linesOf text := by
  induction line with
  | nil => rfl
  | cons c line ih =>
      rw [List.mem_cons, not_or] at hfeed hreturn
      rw [List.cons_append, linesOf_cons (Ne.symm hfeed.1) fun hc => absurd hc.symm hreturn.1,
        ih hfeed.2 hreturn.2]
      rfl

/-- A text that ends in a line feed leaves no line open, so what stands behind it is read apart from it. -/
theorem linesOf_append {text : List Char} (h : ∀ c ∈ text.getLast?, c = '\n') (more : List Char) :
    linesOf (text ++ more) = linesOf text ++ linesOf more := by
  have hbehind : ∀ {c : Char} {text : List Char}, (∀ e ∈ (c :: text).getLast?, e = '\n') →
      ∀ e ∈ text.getLast?, e = '\n' := by
    intro c text h e he
    exact h e (by rw [List.getLast?_cons, Option.mem_def.mp he]; rfl)
  fun_induction linesOf text with
  | case1 => rfl
  | case2 text ih => rw [List.cons_append, linesOf, ih (hbehind h), List.cons_append]
  | case3 text ih => rw [List.cons_append, List.cons_append, linesOf, ih (hbehind (hbehind h)), List.cons_append]
  | case4 c text hfeed hreturn hlines ih =>
      obtain rfl := (linesOf_eq_nil_iff text).mp hlines
      exact absurd (h c rfl) hfeed
  | case5 c text hfeed hreturn line rest hlines ih =>
      obtain ⟨d, text, rfl⟩ : ∃ d rest, text = d :: rest := by
        cases text with
        | nil => exact absurd hlines (by simp [linesOf])
        | cons d text => exact ⟨d, text, rfl⟩
      have hhead : c = '\r' → (d :: (text ++ more)).head? ≠ some '\n' := by
        intro hc hd
        exact hreturn text hc (by rw [Option.some.inj hd])
      rw [List.cons_append, List.cons_append, linesOf_cons hfeed hhead, ← List.cons_append, ih (hbehind h), hlines]
      rfl

theorem lines_append {source : String} (h : source = "" ∨ ∃ text, source = text ++ "\n") (more : String) :
    lines (source ++ more) = lines source ++ lines more := by
  have hend : ∀ c ∈ source.toList.getLast?, c = '\n' := by
    rcases h with rfl | ⟨text, rfl⟩
    · simp
    · simp [eq_comm]
  rw [lines, String.toList_append, linesOf_append hend, List.map_append, lines, lines]

/-- Lines without a character of a line end are read back when each of them is ended by a line feed. -/
theorem lines_join {printed : List String}
    (h : ∀ line ∈ printed, '\n' ∉ line.toList ∧ '\r' ∉ line.toList) :
    lines (String.join (printed.map (· ++ "\n"))) = printed := by
  rw [lines, String.toList_join]
  induction printed with
  | nil => rfl
  | cons line rest ih =>
      obtain ⟨hfeed, hreturn⟩ := h line List.mem_cons_self
      rw [List.map_cons, List.flatMap_cons, String.toList_append, List.append_assoc,
        show "\n".toList = ['\n'] from rfl, List.singleton_append, linesOf_line_append hfeed hreturn,
        List.map_cons, ih fun line hl => h line (List.mem_cons_of_mem _ hl), String.ofList_toList]

/-- The text of the first lines, with their ends. -/
def leadingOf : Nat → List Char → List Char
  | 0, _ => []
  | _ + 1, [] => []
  | count + 1, c :: text => c :: if c = '\n' then leadingOf count text else leadingOf (count + 1) text

/-- The part of a source that its first lines make up. -/
def leading (count : Nat) (source : String) : String :=
  String.ofList (leadingOf count source.toList)

theorem head?_leadingOf (count : Nat) (text : List Char) :
    (leadingOf (count + 1) text).head? = text.head? := by
  cases text <;> rfl

theorem linesOf_leadingOf (count : Nat) (text : List Char) :
    linesOf (leadingOf count text) = (linesOf text).take count := by
  fun_induction linesOf text generalizing count with
  | case1 => cases count <;> rfl
  | case2 text ih =>
      cases count with
      | zero => rfl
      | succ count => simp [leadingOf, linesOf, ih]
  | case3 text ih =>
      cases count with
      | zero => rfl
      | succ count => simp [leadingOf, linesOf, ih]
  | case4 c text hfeed hreturn hlines ih =>
      cases count with
      | zero => rfl
      | succ count =>
          obtain rfl := (linesOf_eq_nil_iff text).mp hlines
          rw [leadingOf, if_neg hfeed, leadingOf, linesOf_cons hfeed (by simp)]
          simp [linesOf]
  | case5 c text hfeed hreturn line rest hlines ih =>
      cases count with
      | zero => rfl
      | succ count =>
          have hhead : c = '\r' → (leadingOf (count + 1) text).head? ≠ some '\n' := by
            rw [head?_leadingOf]
            intro hc hhead
            cases text with
            | nil => simp at hhead
            | cons d text => exact hreturn text hc (by simpa using hhead)
          rw [leadingOf, if_neg hfeed, linesOf_cons hfeed hhead, ih, hlines]
          rfl

theorem lines_leading (count : Nat) (source : String) :
    lines (leading count source) = (lines source).take count := by
  rw [lines, leading, String.toList_ofList, linesOf_leadingOf, List.map_take, lines]

end RegAsm.Text
