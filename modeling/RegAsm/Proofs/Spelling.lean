import Mathlib
import RegAsm.Opcode

/-! How opcodes are spelled. The first character of a token is sent through the table of upper case and the others
through the table of lower case. Both tables reach far beyond ASCII, and some of their images are several characters
long. All the same a token names an opcode only if it is the mnemonic in letters of either case, but for one character
more: the upper case of the long s is the letter S, and so the long s can begin a subtraction. -/

namespace RegAsm

namespace Text

/-! ### Case mappings in and out of ASCII -/

theorem isAlpha_ofNat_of_le {code : Nat} (h : 128 ≤ code) : (Char.ofNat code).isAlpha = false := by
  have hcode : (Char.ofNat code).toNat = code ∨ (Char.ofNat code).toNat = 0 := by
    rw [Char.toNat_ofNat]
    split
    · exact Or.inl rfl
    · exact Or.inr rfl
  simp only [Char.isAlpha, Char.isUpper, Char.isLower, Bool.or_eq_false_iff, Bool.and_eq_false_iff,
    decide_eq_false_iff_not, UInt32.le_iff_toNat_le, ge_iff_le, Char.toNat_val, Char.reduceVal, UInt32.reduceToNat]
  omega

theorem isAlpha_of_le_toNat {c : Char} (h : 128 ≤ c.toNat) : c.isAlpha = false := by
  rw [← Char.ofNat_toNat c]
  exact isAlpha_ofNat_of_le h

/-- Where the image of a character comes from: from its own expansion, from a run of characters, or from nowhere. -/
theorem CaseMap.apply_cases (map : CaseMap) (c : Char) :
    (∃ e ∈ map.expansions, map.apply c = e.2.map Char.ofNat) ∨
    (∃ run ∈ map.runs, run.covers c.toNat = true ∧ map.apply c = [Char.ofNat (c.toNat + run.shift).toNat]) ∨
    map.apply c = [c] := by
  unfold CaseMap.apply
  split
  · next code image hfind => exact Or.inl ⟨_, List.mem_of_find?_eq_some hfind, rfl⟩
  · split
    · next run hfind =>
        have hcovers : run.covers c.toNat = true := by simpa using List.find?_some hfind
        exact Or.inr (Or.inl ⟨run, List.mem_of_find?_eq_some hfind, hcovers, rfl⟩)
    · exact Or.inr (Or.inr rfl)

/-- A run that is shifted to code points beyond ASCII. -/
theorem CaseRun.isAlpha_of_covers {run : CaseRun} {code : Nat} (hcovers : run.covers code = true)
    (hshift : 128 ≤ run.first + run.shift) : (Char.ofNat (code + run.shift).toNat).isAlpha = false := by
  simp only [CaseRun.covers, Bool.and_eq_true, decide_eq_true_eq] at hcovers
  exact isAlpha_ofNat_of_le (by omega)

/-- Only the first run of a case mapping has characters of ASCII. -/
theorem CaseMap.apply_of_ascii {map : CaseMap} {letters : CaseRun} {others : List CaseRun}
    (hruns : map.runs = letters :: others) (hexpansions : ∀ e ∈ map.expansions, 128 ≤ e.1)
    (hothers : ∀ run ∈ others, 128 ≤ run.first) {c : Char} (h : c.toNat < 128) :
    map.apply c = if letters.covers c.toNat then [Char.ofNat (c.toNat + letters.shift).toNat] else [c] := by
  have hone : map.expansions.find? (·.1 == c.toNat) = none := by
    rw [List.find?_eq_none]
    intro e he
    have hle := hexpansions e he
    simp only [beq_iff_eq]
    omega
  have hnone : others.find? (·.covers c.toNat) = none := by
    rw [List.find?_eq_none]
    intro run hrun
    have hle := hothers run hrun
    simp only [CaseRun.covers, Bool.and_eq_true, decide_eq_true_eq]
    omega
  rw [CaseMap.apply, hone, hruns, List.find?_cons, hnone]
  cases letters.covers c.toNat <;> rfl

theorem apply_lowerCase_of_ascii {c : Char} (h : c.toNat < 128) : lowerCase.apply c = [c.toLower] := by
  have hcovers : CaseRun.covers ⟨0x41, 0x5A, 1, 32⟩ c.toNat = c.isUpper := by
    simp [CaseRun.covers, Char.isUpper, UInt32.le_iff_toNat_le, Nat.mod_one]
  rw [CaseMap.apply_of_ascii rfl (by decide) (by decide +kernel) h, hcovers]
  by_cases hupper : c.isUpper = true
  · rw [if_pos hupper, Char.toLower_eq_of_isUpper hupper]
    rfl
  · rw [if_neg hupper, Char.toLower_eq_of_not_isUpper hupper]

theorem apply_upperCase_of_ascii {c : Char} (h : c.toNat < 128) : upperCase.apply c = [c.toUpper] := by
  have hcovers : CaseRun.covers ⟨0x61, 0x7A, 1, -32⟩ c.toNat = c.isLower := by
    simp [CaseRun.covers, Char.isLower, UInt32.le_iff_toNat_le, Nat.mod_one]
  rw [CaseMap.apply_of_ascii rfl (by decide) (by decide +kernel) h, hcovers]
  by_cases hlower : c.isLower = true
  · rw [if_pos hlower, Char.toUpper_eq_of_isLower hlower]
    rw [show ((c.toNat : Int) + -32).toNat = c.toNat - 32 by omega]
  · rw [if_neg hlower, Char.toUpper_eq_of_not_isLower hlower]

/-- Outside of ASCII only the lower case of the Kelvin sign is made up of letters of ASCII. -/
theorem apply_lowerCase_of_not_ascii {c : Char} (h : 128 ≤ c.toNat) :
    lowerCase.apply c = ['k'] ∨ (lowerCase.apply c).all Char.isAlpha = false := by
  have hexpansions : ∀ e ∈ lowerCase.expansions, (e.2.map Char.ofNat).all Char.isAlpha = false := by decide +kernel
  have hruns : ∀ run ∈ lowerCase.runs, 128 ≤ run.last →
      128 ≤ run.first + run.shift ∨ run.first = run.last ∧ run.first + run.shift = 'k'.toNat := by decide +kernel
  rcases lowerCase.apply_cases c with ⟨e, he, happly⟩ | ⟨run, hrun, hcovers, happly⟩ | happly
  · rw [happly]
    exact Or.inr (hexpansions e he)
  · rw [happly]
    have hbounds := hcovers
    simp only [CaseRun.covers, Bool.and_eq_true, decide_eq_true_eq] at hbounds
    rcases hruns run hrun (by omega) with hshift | ⟨hsingle, hshift⟩
    · rw [List.all_cons, CaseRun.isAlpha_of_covers hcovers hshift]
      exact Or.inr rfl
    · have hcode : (c.toNat + run.shift).toNat = 'k'.toNat := by omega
      rw [hcode, Char.ofNat_toNat]
      exact Or.inl rfl
  · rw [happly, List.all_cons, isAlpha_of_le_toNat h]
    exact Or.inr rfl

/-- Outside of ASCII the upper case of a character is a letter of ASCII for the dotless i and the long s. The upper case
of a ligature is made up of letters too, but not all behind its first are small. -/
theorem apply_upperCase_of_not_ascii {c : Char} (h : 128 ≤ c.toNat) :
    upperCase.apply c = ['I'] ∨ (c = '\u017F' ∧ upperCase.apply c = ['S']) ∨
      (upperCase.apply c).all Char.isAlpha = false ∨ (upperCase.apply c).tail.all Char.isLower = false := by
  have hexpansions : ∀ e ∈ upperCase.expansions, (e.2.map Char.ofNat).tail.all Char.isLower = false := by
    decide +kernel
  have hruns : ∀ run ∈ upperCase.runs, 128 ≤ run.last →
      128 ≤ run.first + run.shift ∨ run.first = run.last ∧ (run.first + run.shift = 'I'.toNat ∨
        run.first = '\u017F'.toNat ∧ run.first + run.shift = 'S'.toNat) := by decide +kernel
  rcases upperCase.apply_cases c with ⟨e, he, happly⟩ | ⟨run, hrun, hcovers, happly⟩ | happly
  · rw [happly]
    exact Or.inr (Or.inr (Or.inr (hexpansions e he)))
  · rw [happly]
    have hbounds := hcovers
    simp only [CaseRun.covers, Bool.and_eq_true, decide_eq_true_eq] at hbounds
    rcases hruns run hrun (by omega) with hshift | ⟨hsingle, hshift | ⟨hlong, hshift⟩⟩
    · rw [List.all_cons, CaseRun.isAlpha_of_covers hcovers hshift]
      exact Or.inr (Or.inr (Or.inl rfl))
    · have hcode : (c.toNat + run.shift).toNat = 'I'.toNat := by omega
      rw [hcode, Char.ofNat_toNat]
      exact Or.inl rfl
    · have hcode : (c.toNat + run.shift).toNat = 'S'.toNat := by omega
      have hc : c.toNat = '\u017F'.toNat := by omega
      rw [hcode, Char.ofNat_toNat]
      exact Or.inr (Or.inl ⟨by rw [← Char.ofNat_toNat c, hc, Char.ofNat_toNat], rfl⟩)
  · rw [happly, List.all_cons, isAlpha_of_le_toNat h]
    exact Or.inr (Or.inr (Or.inl rfl))

/-! ### Letters of either case -/

section

variable {c letter : Char}

theorem isAlpha_of_isLower (h : c.isLower = true) : c.isAlpha = true := by
  rw [Char.isAlpha, h, Bool.or_true]

theorem isAlpha_of_isUpper (h : c.isUpper = true) : c.isAlpha = true := by
  rw [Char.isAlpha, h, Bool.true_or]

theorem toNat_lt_of_isLower_toLower (h : c.toLower.isLower = true) : c.toNat < 128 := by
  rw [Char.isLower_toLower_eq_isAlpha] at h
  by_contra hle
  rw [isAlpha_of_le_toNat (not_lt.mp hle)] at h
  cases h

theorem toUpper_eq_iff_toLower_eq (h : letter.isUpper = true) : c.toUpper = letter ↔ c.toLower = letter.toLower := by
  constructor
  · rintro rfl
    exact (Char.toLower_toUpper_eq_toLower c).symm
  · intro hlower
    have hletter : letter.toUpper = letter := Char.toUpper_eq_of_not_isLower (Char.not_isLower_of_isUpper h)
    rw [← Char.toUpper_toLower_eq_toUpper, hlower, Char.toUpper_toLower_eq_toUpper, hletter]

theorem toLower_eq_iff (h : letter.isLower = true) : c.toLower = letter ↔ c = letter ∨ c = letter.toUpper := by
  have hletter : letter.toLower = letter := Char.toLower_eq_of_not_isUpper (Char.not_isUpper_of_isLower h)
  constructor
  · rintro rfl
    by_cases hupper : c.isUpper = true
    · rw [Char.toUpper_toLower_eq_toUpper, Char.toUpper_eq_of_not_isLower (Char.not_isLower_of_isUpper hupper)]
      exact Or.inr rfl
    · exact Or.inl (Char.toLower_eq_of_not_isUpper hupper).symm
  · rintro (rfl | rfl)
    · exact hletter
    · rw [Char.toLower_toUpper_eq_toLower, hletter]

end

/-! ### Capitalized words -/

/-- A word of small letters without a k is the lower case of those texts that differ from it in the case of ASCII
letters. -/
theorem flatMap_lowerCase_eq_iff {text word : List Char} (hword : ∀ d ∈ word, d.isLower = true) (hk : 'k' ∉ word) :
    text.flatMap lowerCase.apply = word ↔ text.map Char.toLower = word := by
  -- Either way all characters are in ASCII, where the two mappings agree.
  have hagree : (∀ c ∈ text, c.toNat < 128) → text.flatMap lowerCase.apply = text.map Char.toLower := by
    intro hascii
    rw [List.map_eq_flatMap]
    exact List.flatMap_congr fun c hc => apply_lowerCase_of_ascii (hascii c hc)
  constructor
  · intro hflat
    rw [← hagree ?_, hflat]
    intro c hc
    have hmem : ∀ d ∈ lowerCase.apply c, d ∈ word := fun d hd => hflat ▸ List.mem_flatMap.mpr ⟨c, hc, hd⟩
    by_contra hle
    rcases apply_lowerCase_of_not_ascii (not_lt.mp hle) with hkelvin | hother
    · exact hk (hmem 'k' (by rw [hkelvin]; exact List.mem_singleton_self _))
    · rw [List.all_eq_true.mpr fun d hd => isAlpha_of_isLower (hword d (hmem d hd))] at hother
      cases hother
  · intro hmap
    rw [hagree ?_, hmap]
    intro c hc
    exact toNat_lt_of_isLower_toLower (hword _ (hmap ▸ List.mem_map_of_mem hc))

theorem apply_upperCase_append_eq_iff {c letter : Char} {rest word : List Char} (hletter : letter.isUpper = true)
    (hdotless : letter ≠ 'I') (hword : ∀ d ∈ word, d.isLower = true) :
    upperCase.apply c ++ rest = letter :: word ↔
      (c.toLower = letter.toLower ∨ c = '\u017F' ∧ letter = 'S') ∧ rest = word := by
  rw [← toUpper_eq_iff_toLower_eq hletter]
  constructor
  · intro happend
    by_cases hascii : c.toNat < 128
    · rw [apply_upperCase_of_ascii hascii] at happend
      obtain ⟨hupper, hrest⟩ := List.cons.inj happend
      exact ⟨Or.inl hupper, hrest⟩
    · rcases apply_upperCase_of_not_ascii (not_lt.mp hascii) with hi | ⟨hlong, hs⟩ | hother | hother
      · rw [hi] at happend
        exact absurd (List.cons.inj happend).1.symm hdotless
      · rw [hs] at happend
        obtain ⟨hs, hrest⟩ := List.cons.inj happend
        exact ⟨Or.inr ⟨hlong, hs.symm⟩, hrest⟩
      · have halpha : ∀ d ∈ upperCase.apply c, d.isAlpha = true := by
          intro d hd
          have hmem : d ∈ letter :: word := happend ▸ List.mem_append_left rest hd
          rcases List.mem_cons.mp hmem with rfl | hmem
          · exact isAlpha_of_isUpper hletter
          · exact isAlpha_of_isLower (hword d hmem)
        rw [List.all_eq_true.mpr halpha] at hother
        cases hother
      · cases himage : upperCase.apply c with
        | nil =>
            rw [himage] at hother
            cases hother
        | cons first image =>
            rw [himage] at hother happend
            have hlower : ∀ d ∈ image, d.isLower = true := by
              intro d hd
              exact hword d ((List.cons.inj happend).2 ▸ List.mem_append_left rest hd)
            rw [List.tail_cons, List.all_eq_true.mpr hlower] at hother
            cases hother
  · rintro ⟨rfl | ⟨rfl, rfl⟩, rfl⟩
    · rw [Char.isUpper_toUpper_eq_isAlpha, ← Char.isLower_toLower_eq_isAlpha] at hletter
      rw [apply_upperCase_of_ascii (toNat_lt_of_isLower_toLower hletter)]
      rfl
    · rw [show upperCase.apply '\u017F' = ['S'] by decide +kernel]
      rfl

theorem capitalize_eq_iff {text : List Char} {letter : Char} {word : List Char} (hletter : letter.isUpper = true)
    (hdotless : letter ≠ 'I') (hword : ∀ d ∈ word, d.isLower = true) (hk : 'k' ∉ word) :
    capitalize text = letter :: word ↔ ∃ c rest, text = c :: rest ∧
      (c.toLower = letter.toLower ∨ c = '\u017F' ∧ letter = 'S') ∧ rest.map Char.toLower = word := by
  cases text with
  | nil => simp [capitalize]
  | cons c rest =>
      rw [capitalize, apply_upperCase_append_eq_iff hletter hdotless hword, flatMap_lowerCase_eq_iff hword hk]
      simp

end Text

namespace Opcode

/-! ### Tokens -/

theorem ofToken?_eq_some_iff {token : String} {op : Opcode} :
    ofToken? token = some op ↔ Text.capitalize token.toList = op.name.toList := by
  constructor
  · intro h
    have hname := List.find?_some h
    exact (beq_iff_eq.mp hname).symm
  · intro h
    rw [ofToken?, h]
    cases op <;> decide

/-- The name of an opcode is its mnemonic with a capital. -/
theorem exists_letters (op : Opcode) : ∃ letter word, op.name.toList = letter :: word ∧
    op.mnemonic.toList = letter.toLower :: word ∧ letter.isUpper = true ∧ letter ≠ 'I' ∧
    (∀ d ∈ word, d.isLower = true) ∧ 'k' ∉ word ∧ (letter = 'S' ↔ op = .sub) := by
  cases op <;> exact ⟨_, _, rfl, rfl, rfl, by decide, List.all_eq_true.mp rfl, by decide, by decide⟩

variable {token : String} {op : Opcode}

theorem ofToken?_eq_some_iff_letters : ofToken? token = some op ↔
    token.toList.map Char.toLower = op.mnemonic.toList ∨
      op = .sub ∧ ∃ rest, token.toList = '\u017F' :: rest ∧ rest.map Char.toLower = ['u', 'b'] := by
  obtain ⟨letter, word, hname, hmnemonic, hletter, hdotless, hword, hk, hsub⟩ := op.exists_letters
  rw [ofToken?_eq_some_iff, hname, hmnemonic, Text.capitalize_eq_iff hletter hdotless hword hk]
  constructor
  · rintro ⟨c, rest, htoken, hc | ⟨rfl, rfl⟩, hrest⟩
    · rw [htoken, List.map_cons, hc, hrest]
      exact Or.inl rfl
    · obtain rfl := hsub.mp rfl
      obtain rfl : ['u', 'b'] = word := (List.cons.inj hname).2
      exact Or.inr ⟨rfl, rest, htoken, hrest⟩
  · rintro (hletters | ⟨rfl, rest, htoken, hrest⟩)
    · obtain ⟨c, rest, htoken, hc, hrest⟩ := List.map_eq_cons_iff.mp hletters
      exact ⟨c, rest, htoken, Or.inl hc, hrest⟩
    · obtain ⟨hs, rfl⟩ := List.cons.inj hname
      exact ⟨_, rest, htoken, Or.inr ⟨rfl, hs.symm⟩, hrest⟩

theorem map_toLower_eq_iff {text : List Char} : text.map Char.toLower = ['u', 'b'] ↔
    ∃ u b, text = [u, b] ∧ (u = 'u' ∨ u = 'U') ∧ (b = 'b' ∨ b = 'B') := by
  have hu : ∀ c : Char, c.toLower = 'u' ↔ c = 'u' ∨ c = 'U' := fun c => Text.toLower_eq_iff rfl
  have hb : ∀ c : Char, c.toLower = 'b' ↔ c = 'b' ∨ c = 'B' := fun c => Text.toLower_eq_iff rfl
  constructor
  · intro h
    obtain ⟨u, rest, rfl, hfirst, hrest⟩ := List.map_eq_cons_iff.mp h
    obtain ⟨b, rest, rfl, hsecond, hnil⟩ := List.map_eq_cons_iff.mp hrest
    obtain rfl := List.map_eq_nil_iff.mp hnil
    exact ⟨u, b, rfl, (hu u).mp hfirst, (hb b).mp hsecond⟩
  · rintro ⟨u, b, rfl, hfirst, hsecond⟩
    rw [List.map_cons, List.map_singleton, (hu u).mpr hfirst, (hb b).mpr hsecond]

/-- The characters of a token that names an opcode have images of one character each. -/
theorem length_images_of_ofToken? (h : ofToken? token = some op) {c : Char} {rest : List Char}
    (htoken : token.toList = c :: rest) :
    (Text.upperCase.apply c).length = 1 ∧ ∀ d ∈ rest, (Text.lowerCase.apply d).length = 1 := by
  obtain ⟨letter, word, hname, -, hletter, hdotless, hword, hk, -⟩ := op.exists_letters
  rw [ofToken?_eq_some_iff, hname, Text.capitalize_eq_iff hletter hdotless hword hk] at h
  obtain ⟨c', rest', htoken', hc, hrest⟩ := h
  obtain ⟨rfl, rfl⟩ := List.cons.inj (htoken.symm.trans htoken')
  constructor
  · rcases hc with hc | ⟨rfl, -⟩
    · have hlower : c.toLower.isLower = true := by
        rw [hc, Char.isLower_toLower_eq_isAlpha, Text.isAlpha_of_isUpper hletter]
      rw [Text.apply_upperCase_of_ascii (Text.toNat_lt_of_isLower_toLower hlower)]
      rfl
    · decide +kernel
  · intro d hd
    have hlower : d.toLower.isLower = true := hword _ (hrest ▸ List.mem_map_of_mem hd)
    rw [Text.apply_lowerCase_of_ascii (Text.toNat_lt_of_isLower_toLower hlower)]
    rfl

theorem length_mnemonic (op : Opcode) : op.mnemonic.length = 3 := by
  cases op <;> rfl

/-- A token names an opcode exactly when it has three characters and is the mnemonic in letters of either case, or it
is a subtraction that begins with a long s. No token with a character that becomes several characters names an
opcode. -/
theorem ofToken?_accepts_spellings (token : String) :
    (∀ op, ofToken? token = some op ↔ token.length = 3 ∧ (token.toLower = op.mnemonic ∨
      op = .sub ∧ ∃ u b, token.toList = ['\u017F', u, b] ∧ (u = 'u' ∨ u = 'U') ∧ (b = 'b' ∨ b = 'B'))) ∧
    ∀ c rest, token.toList = c :: rest →
      (Text.upperCase.apply c).length ≠ 1 ∨ (∃ d ∈ rest, (Text.lowerCase.apply d).length ≠ 1) →
      ofToken? token = none := by
  constructor
  · intro op
    have hlower : token.toList.map Char.toLower = op.mnemonic.toList ↔ token.toLower = op.mnemonic := by
      rw [← String.toList_inj, String.toLower, String.toList_map]
    rw [ofToken?_eq_some_iff_letters, hlower]
    constructor
    · rintro (hletters | ⟨rfl, rest, htoken, hrest⟩)
      · refine ⟨?_, Or.inl hletters⟩
        rw [← op.length_mnemonic, ← hletters, ← String.length_toList, ← String.length_toList, String.toLower,
          String.toList_map, List.length_map]
      · obtain ⟨u, b, rfl, hletters⟩ := map_toLower_eq_iff.mp hrest
        refine ⟨?_, Or.inr ⟨rfl, u, b, htoken, hletters⟩⟩
        rw [← String.length_toList, htoken]
        rfl
    · rintro ⟨-, hletters | ⟨rfl, u, b, htoken, hletters⟩⟩
      · exact Or.inl hletters
      · exact Or.inr ⟨rfl, [u, b], htoken, map_toLower_eq_iff.mpr ⟨u, b, rfl, hletters⟩⟩
  · intro c rest htoken hseveral
    rw [Option.eq_none_iff_forall_ne_some]
    intro op hop
    obtain ⟨hfirst, hrest⟩ := length_images_of_ofToken? hop htoken
    rcases hseveral with hseveral | ⟨d, hd, hseveral⟩
    · exact hseveral hfirst
    · exact hseveral (hrest d hd)

/-- The long s in front of letters of either case, and a division with a dotted capital, whose lower case is an i and a
dot. -/
theorem ofToken?_accepts_spellings_of_long_s :
    ofToken? "\u017FUb" = some .sub ∧ ofToken? "d\u0130v" = none := by
  refine ⟨((ofToken?_accepts_spellings _).1 .sub).mpr ⟨by decide +kernel, Or.inr ⟨rfl, 'U', 'b', ?_, ?_, ?_⟩⟩, ?_⟩
  · decide +kernel
  · exact Or.inr rfl
  · exact Or.inl rfl
  · refine (ofToken?_accepts_spellings _).2 'd' ['\u0130', 'v'] (by decide +kernel) (Or.inr ⟨'\u0130', ?_, ?_⟩)
    · exact List.mem_cons_self
    · decide +kernel

end Opcode

end RegAsm
