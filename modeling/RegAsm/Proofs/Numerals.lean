import RegAsm.Proofs.Text
import RegAsm.Text.Decimal

/-! Numerals that are written are read back: every word of 32 bits, signed or not, is the number of its
shortest numeral. A text is read as a number exactly when it is a sign, if any, and digits, and the number is in the
range of the word. -/

namespace RegAsm.Text.Decimal

theorem isDigit_of_mem_toDigits {n : Nat} {c : Char} (h : c ∈ Nat.toDigits 10 n) : c.isDigit = true :=
  Nat.isDigit_of_mem_toDigits (by decide) (by decide) h

theorem digits?_toDigits (n : Nat) : digits? (Nat.toDigits 10 n) = some n := by
  have hne : Nat.toDigits 10 n ≠ [] := List.length_pos_iff.mp Nat.length_toDigits_pos
  have hall : (Nat.toDigits 10 n).all Char.isDigit = true :=
    List.all_eq_true.mpr fun c hc => isDigit_of_mem_toDigits hc
  rw [digits?, if_pos ⟨hne, hall⟩, Nat.ofDigitChars_ten_toDigits]

/-- No numeral of digits alone begins with a sign. -/
theorem toDigits_ne_cons {n : Nat} {c : Char} (hc : c.isDigit = false) (text : List Char) :
    Nat.toDigits 10 n ≠ c :: text := by
  intro h
  have hdigit := isDigit_of_mem_toDigits (n := n) (c := c) (by rw [h]; exact List.mem_cons_self)
  rw [hc] at hdigit
  exact absurd hdigit (by decide)

theorem unsigned?_toDigits (n : Nat) : unsigned? (Nat.toDigits 10 n) = some n := by
  rw [unsigned?.eq_2 _ fun text => toDigits_ne_cons (by decide) text, digits?_toDigits]

theorem signed?_toDigits (n : Nat) : signed? (Nat.toDigits 10 n) = some (n : Int) := by
  rw [signed?.eq_2 _ fun text => toDigits_ne_cons (by decide) text, unsigned?_toDigits]
  rfl

theorem signed?_minus_toDigits (n : Nat) : signed? ('-' :: Nat.toDigits 10 n) = some (-(n : Int)) := by
  rw [signed?, digits?_toDigits]
  rfl

theorem readUInt32?_writeUInt32 (n : UInt32) : readUInt32? (writeUInt32 n) = some n := by
  have hlt : n.toNat < UInt32.size := n.toNat_lt
  rw [readUInt32?, writeUInt32, Nat.toList_repr, unsigned?_toDigits]
  simp [hlt]

theorem toList_writeInt32 (n : Int32) : (writeInt32 n).toList =
    if n.toInt < 0 then '-' :: Nat.toDigits 10 n.toInt.natAbs else Nat.toDigits 10 n.toInt.natAbs := by
  have hsign : n < 0 ↔ n.toInt < 0 := by simp [Int32.lt_iff_toInt_lt]
  by_cases h : n.toInt < 0
  · rw [writeInt32, if_pos (hsign.mpr h), if_pos h, String.toList_append, Nat.toList_repr]
    rfl
  · rw [writeInt32, if_neg fun hn => h (hsign.mp hn), if_neg h, Nat.toList_repr]

theorem signed?_writeInt32 (n : Int32) : signed? (writeInt32 n).toList = some n.toInt := by
  rw [toList_writeInt32]
  by_cases h : n.toInt < 0
  · rw [if_pos h, signed?_minus_toDigits]
    congr 1
    omega
  · rw [if_neg h, signed?_toDigits]
    congr 1
    omega

theorem readInt32?_writeInt32 (n : Int32) : readInt32? (writeInt32 n) = some n := by
  have hrange : Int32.minValue.toInt ≤ n.toInt ∧ n.toInt ≤ Int32.maxValue.toInt :=
    ⟨n.minValue_le_toInt, n.toInt_le⟩
  rw [readInt32?, signed?_writeInt32]
  show (if _ then some (Int32.ofInt n.toInt) else none) = some n
  rw [if_pos hrange, Int32.ofInt_toInt]

theorem writeUInt32_injective {n other : UInt32} (h : writeUInt32 n = writeUInt32 other) : n = other := by
  rw [← Option.some.injEq, ← readUInt32?_writeUInt32 n, h, readUInt32?_writeUInt32]

theorem writeInt32_injective {n other : Int32} (h : writeInt32 n = writeInt32 other) : n = other := by
  rw [← Option.some.injEq, ← readInt32?_writeInt32 n, h, readInt32?_writeInt32]

theorem isDigit_of_mem_writeUInt32 {n : UInt32} {c : Char} (h : c ∈ (writeUInt32 n).toList) : c.isDigit = true := by
  rw [writeUInt32, Nat.toList_repr] at h
  exact Text.Decimal.isDigit_of_mem_toDigits h

/-! ### How a numeral begins -/

theorem isDigit_head?_of_digits? {text : List Char} {n : Nat} (h : digits? text = some n) :
    ∃ c ∈ text.head?, c.isDigit = true := by
  unfold digits? at h
  split at h
  · next hdigits =>
      cases text with
      | nil => exact absurd rfl hdigits.1
      | cons c text => exact ⟨c, rfl, List.all_eq_true.mp hdigits.2 c List.mem_cons_self⟩
  · cases h

/-- The plus sign and the digits come before the letters. -/
theorem head?_of_readUInt32? {word : String} {n : UInt32} (h : readUInt32? word = some n) :
    ∃ c ∈ word.toList.head?, c.toNat < 'A'.toNat := by
  unfold readUInt32? at h
  cases hnumber : unsigned? word.toList with
  | none => simp [hnumber] at h
  | some number =>
      unfold unsigned? at hnumber
      split at hnumber
      · next text htext => exact ⟨'+', by rw [htext]; rfl, by decide⟩
      · obtain ⟨c, hc, hdigit⟩ := isDigit_head?_of_digits? hnumber
        rw [Char.isDigit_iff_toNat] at hdigit
        exact ⟨c, hc, Nat.lt_of_le_of_lt hdigit.2 (by decide)⟩

/-! ### What a numeral denotes -/

/-- The text is this sign and digits of this value, with any number of leading zeros. -/
def Writes (sign : List Char) (text : String) (value : Nat) : Prop :=
  ∃ digits, text.toList = sign ++ digits ∧ digits ≠ [] ∧ (∀ c ∈ digits, c.isDigit = true) ∧
    Nat.ofDigitChars 10 digits 0 = value

/-- The text denotes a number without a sign, which may carry a plus. -/
def Unsigned (text : String) (n : Nat) : Prop := Writes [] text n ∨ Writes ['+'] text n

/-- The text denotes a number that may be negative. -/
def Signed (text : String) (n : Int) : Prop :=
  (∃ k : Nat, Unsigned text k ∧ n = k) ∨ ∃ k : Nat, Writes ['-'] text k ∧ n = -k

theorem digits?_eq_some_iff {text : List Char} {n : Nat} :
    digits? text = some n ↔ text ≠ [] ∧ (∀ c ∈ text, c.isDigit = true) ∧ Nat.ofDigitChars 10 text 0 = n := by
  unfold digits?
  constructor
  · intro h
    split at h
    · next hdigits => exact ⟨hdigits.1, List.all_eq_true.mp hdigits.2, Option.some.inj h⟩
    · cases h
  · rintro ⟨hne, hdigits, hvalue⟩
    rw [if_pos ⟨hne, List.all_eq_true.mpr hdigits⟩, hvalue]

theorem digits?_eq_some_iff_writes (sign : List Char) {digits : List Char} {text : String} {n : Nat}
    (h : text.toList = sign ++ digits) : digits? digits = some n ↔ Writes sign text n := by
  rw [digits?_eq_some_iff]
  constructor
  · intro hdigits
    exact ⟨digits, h, hdigits⟩
  · rintro ⟨others, hothers, hdigits⟩
    rwa [List.append_cancel_left (h.symm.trans hothers)]

/-- A text has one sign. -/
theorem not_writes_of_head? {sign : List Char} {text : String} {c : Char} {n : Nat} (hc : text.toList.head? = some c)
    (hdigit : c.isDigit = false) (hsign : sign.head? ≠ some c) : ¬ Writes sign text n := by
  rintro ⟨digits, htext, hne, hdigits, -⟩
  rw [htext] at hc
  cases sign with
  | nil =>
      rw [hdigits c (List.mem_of_head? hc)] at hdigit
      cases hdigit
  | cons d sign => exact hsign hc

theorem unsigned?_eq_some_iff {text : String} {n : Nat} : unsigned? text.toList = some n ↔ Unsigned text n := by
  unfold unsigned?
  split
  · next digits htext =>
      have hplain : ¬ Writes [] text n := not_writes_of_head? (by rw [htext]; rfl) (by decide) (by simp)
      rw [digits?_eq_some_iff_writes ['+'] htext, Unsigned, or_iff_right hplain]
  · next hplus =>
      have hplain : ¬ Writes ['+'] text n := fun ⟨digits, htext, _⟩ => hplus digits htext
      rw [digits?_eq_some_iff_writes [] (List.nil_append _).symm, Unsigned, or_iff_left hplain]

theorem signed?_eq_some_iff {text : String} {n : Int} : signed? text.toList = some n ↔ Signed text n := by
  unfold signed?
  split
  · next digits htext =>
      have hhead : text.toList.head? = some '-' := by rw [htext]; rfl
      have hplain : ∀ k, ¬ Unsigned text k := by
        rintro k (hk | hk)
        · exact not_writes_of_head? hhead (by decide) (by simp) hk
        · exact not_writes_of_head? hhead (by decide) (by decide) hk
      simp only [Signed, hplain, false_and, exists_false, false_or,
        ← digits?_eq_some_iff_writes ['-'] htext]
      cases digits? digits <;> simp [eq_comm]
  · next hminus =>
      have hplain : ∀ k, ¬ Writes ['-'] text k := fun k ⟨digits, htext, _⟩ => hminus digits htext
      simp only [Signed, hplain, false_and, exists_false, or_false, ← unsigned?_eq_some_iff]
      cases unsigned? text.toList <;> simp [eq_comm]

theorem readUInt32?_eq_some_iff {text : String} {n : UInt32} : readUInt32? text = some n ↔ Unsigned text n.toNat := by
  rw [readUInt32?, ← unsigned?_eq_some_iff]
  cases hnumber : unsigned? text.toList with
  | none => simp
  | some number =>
      by_cases hrange : number < UInt32.size
      · simp only [hrange, if_true, Option.some.injEq]
        constructor
        · rintro rfl
          exact (UInt32.toNat_ofNat_of_lt hrange).symm
        · rintro rfl
          exact UInt32.ofNat_toNat
      · have hne : number ≠ n.toNat := fun h => hrange (h ▸ n.toNat_lt)
        simp [hrange, hne]

theorem readInt32?_eq_some_iff {text : String} {n : Int32} : readInt32? text = some n ↔ Signed text n.toInt := by
  rw [readInt32?, ← signed?_eq_some_iff]
  cases hnumber : signed? text.toList with
  | none => simp
  | some number =>
      by_cases hrange : Int32.minValue.toInt ≤ number ∧ number ≤ Int32.maxValue.toInt
      · simp only [hrange, and_self, if_true, Option.some.injEq]
        constructor
        · rintro rfl
          exact (Int32.toInt_ofInt_of_le hrange.1 (Int.lt_of_le_sub_one hrange.2)).symm
        · rintro rfl
          exact Int32.ofInt_toInt n
      · have hne : number ≠ n.toInt := fun h => hrange (h ▸ ⟨n.minValue_le_toInt, n.toInt_le⟩)
        simp only [hrange, if_false, Option.some.injEq, hne, reduceCtorEq]

/-! ### Numerals are words -/

theorem isBlank_of_isDigit {c : Char} (h : c.isDigit = true) : isBlank c = false := by
  rw [Char.isDigit_iff_toNat] at h
  obtain ⟨hlow, hhigh⟩ := h
  simp only [Char.reduceToNat] at hlow hhigh
  simp only [isBlank, blankRanges, List.any_cons, List.any_nil, Bool.or_false, Bool.or_eq_false_iff,
    Bool.and_eq_false_iff, decide_eq_false_iff_not]
  omega

theorem blankFree_repr (n : Nat) : BlankFree n.repr := by
  intro c hc
  rw [Nat.toList_repr] at hc
  exact isBlank_of_isDigit (isDigit_of_mem_toDigits hc)

theorem blankFree_writeUInt32 (n : UInt32) : BlankFree (writeUInt32 n) := blankFree_repr n.toNat

theorem blankFree_writeInt32 (n : Int32) : BlankFree (writeInt32 n) := by
  intro c hc
  rw [toList_writeInt32] at hc
  split at hc
  · rcases List.mem_cons.mp hc with rfl | hc
    · decide
    · exact isBlank_of_isDigit (isDigit_of_mem_toDigits hc)
  · exact isBlank_of_isDigit (isDigit_of_mem_toDigits hc)

theorem writeUInt32_ne_empty (n : UInt32) : writeUInt32 n ≠ "" := Nat.repr_ne_empty

theorem writeInt32_ne_empty (n : Int32) : writeInt32 n ≠ "" := by
  intro h
  have hread := signed?_writeInt32 n
  rw [h] at hread
  exact absurd hread (by simp [signed?, unsigned?, digits?])

end RegAsm.Text.Decimal
