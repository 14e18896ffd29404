import Mathlib.Data.List.Induction
import RegAsm.Proofs.Degradations
import RegAsm.Proofs.Scanning

/-! The numbers of a line by a grammar. A numeral is one or more digits, each of which counts ten times as much as the
one behind it, with a sign in front or none. A register takes no minus, and either kind of operand has its own range.
A cursor takes a number exactly from the numerals in the range, whatever zeros they begin with; at any other word it
gives the placeholder and notes the field once. -/

namespace RegAsm

namespace Text.Grammar

open Decimal (digits? unsigned? signed? readUInt32? readInt32?)

/-! ### Numerals -/

/-- The character is the ASCII digit of this value. -/
def Digit (c : Char) (d : Nat) : Prop := d < 10 ∧ c.toNat = '0'.toNat + d

/-- The text is one or more digits with this value in base ten. -/
inductive Digits : List Char → Nat → Prop where
  | single {c : Char} {d : Nat} (digit : Digit c d) : Digits [c] d
  | more {text : List Char} {n : Nat} {c : Char} {d : Nat} (front : Digits text n) (digit : Digit c d) :
      Digits (text ++ [c]) (10 * n + d)

/-- The text is a numeral of this value that may carry a plus. -/
inductive Unsigned : List Char → Nat → Prop where
  | plain {text : List Char} {n : Nat} (digits : Digits text n) : Unsigned text n
  | plus {text : List Char} {n : Nat} (digits : Digits text n) : Unsigned ('+' :: text) n

/-- The text is a numeral of this value that may carry either sign. -/
inductive Signed : List Char → Int → Prop where
  | unsigned {text : List Char} {n : Nat} (numeral : Unsigned text n) : Signed text n
  | minus {text : List Char} {n : Nat} (digits : Digits text n) : Signed ('-' :: text) (-n)

theorem digit_iff {c : Char} {d : Nat} : Digit c d ↔ c.isDigit = true ∧ c.toNat - '0'.toNat = d := by
  rw [Digit, Char.isDigit_iff_toNat]
  simp only [Char.reduceToNat]
  omega

theorem ofDigitChars_concat (text : List Char) (c : Char) :
    Nat.ofDigitChars 10 (text ++ [c]) 0 = 10 * Nat.ofDigitChars 10 text 0 + (c.toNat - '0'.toNat) := by
  rw [Nat.ofDigitChars_append, Nat.ofDigitChars_cons, Nat.ofDigitChars_nil]

theorem digits_ofDigitChars {text : List Char} (hne : text ≠ []) (hdigits : ∀ c ∈ text, c.isDigit = true) :
    Digits text (Nat.ofDigitChars 10 text 0) := by
  -- The rules add digits at the end, so the last digit is split off.
  induction text using List.reverseRecOn with
  | nil => exact absurd rfl hne
  | append_singleton front c ih =>
      have hdigit : Digit c (c.toNat - '0'.toNat) := digit_iff.mpr ⟨hdigits c (by simp), rfl⟩
      rw [ofDigitChars_concat]
      cases front with
      | nil => simpa using Digits.single hdigit
      | cons first front =>
          exact .more (ih (List.cons_ne_nil first front) fun c hc => hdigits c (List.mem_append_left _ hc)) hdigit

theorem digits?_eq_some_iff_digits {text : List Char} {n : Nat} : digits? text = some n ↔ Digits text n := by
  rw [Decimal.digits?_eq_some_iff]
  constructor
  · rintro ⟨hne, hdigits, rfl⟩
    exact digits_ofDigitChars hne hdigits
  · intro h
    induction h with
    | single digit =>
        obtain ⟨hdigit, hvalue⟩ := digit_iff.mp digit
        exact ⟨List.cons_ne_nil _ _, by simpa using hdigit, by simpa [Nat.ofDigitChars_cons] using hvalue⟩
    | more front digit ih =>
        obtain ⟨hdigit, hvalue⟩ := digit_iff.mp digit
        obtain ⟨hne, hdigits, hfront⟩ := ih
        refine ⟨List.append_ne_nil_of_left_ne_nil hne _, ?_, by rw [ofDigitChars_concat, hfront, hvalue]⟩
        simpa [or_imp, forall_and] using ⟨hdigits, hdigit⟩

theorem writes_iff {sign : List Char} {text : String} {n : Nat} :
    Decimal.Writes sign text n ↔ ∃ digits, text.toList = sign ++ digits ∧ Digits digits n := by
  simp only [Decimal.Writes, ← digits?_eq_some_iff_digits, Decimal.digits?_eq_some_iff]

theorem unsigned_iff {text : String} {n : Nat} : Decimal.Unsigned text n ↔ Unsigned text.toList n := by
  rw [Decimal.Unsigned, writes_iff, writes_iff]
  constructor
  · rintro (⟨digits, htext, hdigits⟩ | ⟨digits, htext, hdigits⟩) <;> rw [htext]
    · exact .plain hdigits
    · exact .plus hdigits
  · intro h
    generalize htext : text.toList = letters at h
    cases h with
    | plain hdigits => exact Or.inl ⟨_, rfl, hdigits⟩
    | plus hdigits => exact Or.inr ⟨_, rfl, hdigits⟩

theorem signed_iff {text : String} {n : Int} : Decimal.Signed text n ↔ Signed text.toList n := by
  simp only [Decimal.Signed, unsigned_iff, writes_iff]
  constructor
  · rintro (⟨k, hnumeral, rfl⟩ | ⟨k, ⟨digits, htext, hdigits⟩, rfl⟩)
    · exact .unsigned hnumeral
    · rw [htext]
      exact .minus hdigits
  · intro h
    generalize htext : text.toList = letters at h
    cases h with
    | unsigned hnumeral => exact Or.inl ⟨_, hnumeral, rfl⟩
    | minus hdigits => exact Or.inr ⟨_, ⟨_, rfl, hdigits⟩, rfl⟩

theorem unsigned?_eq_some_iff_unsigned {text : List Char} {n : Nat} : unsigned? text = some n ↔ Unsigned text n := by
  simpa using (@Decimal.unsigned?_eq_some_iff (String.ofList text) n).trans unsigned_iff

theorem signed?_eq_some_iff_signed {text : List Char} {n : Int} : signed? text = some n ↔ Signed text n := by
  simpa using (@Decimal.signed?_eq_some_iff (String.ofList text) n).trans signed_iff

/-! ### Leading zeros -/

theorem Digits.zeros {text : List Char} {n : Nat} (h : Digits text n) (count : Nat) :
    Digits (List.replicate count '0' ++ text) n := by
  -- No rule adds a digit in front, so the zeros are counted in the value.
  rw [← digits?_eq_some_iff_digits, Decimal.digits?_eq_some_iff] at h ⊢
  obtain ⟨hne, hdigits, hvalue⟩ := h
  refine ⟨List.append_ne_nil_of_right_ne_nil _ hne, ?_, ?_⟩
  · intro c hc
    rcases List.mem_append.mp hc with hzero | hc
    · rw [List.eq_of_mem_replicate hzero]
      decide
    · exact hdigits c hc
  · rw [Nat.ofDigitChars_append, Nat.ofDigitChars_replicate_zero, Nat.mul_zero, hvalue]

/-- No sign, a plus and a minus. -/
def signs : List (List Char) := [[], ['+'], ['-']]

section

variable {sign digits : List Char} {n : Nat}

theorem Digits.ne_cons {c : Char} (h : Digits digits n) (hc : c.isDigit = false) (rest : List Char) :
    digits ≠ c :: rest := by
  rintro rfl
  have hdigits := (Decimal.digits?_eq_some_iff.mp (digits?_eq_some_iff_digits.mpr h)).2.1
  rw [hdigits c List.mem_cons_self] at hc
  cases hc

theorem unsigned?_sign_append (hsign : sign ∈ signs) (h : Digits digits n) :
    unsigned? (sign ++ digits) = if sign = ['-'] then none else some n := by
  simp only [signs, List.mem_cons, List.not_mem_nil, or_false] at hsign
  rcases hsign with rfl | rfl | rfl
  · exact unsigned?_eq_some_iff_unsigned.mpr (.plain h)
  · exact unsigned?_eq_some_iff_unsigned.mpr (.plus h)
  · refine Option.eq_none_iff_forall_ne_some.mpr fun k hk => ?_
    cases unsigned?_eq_some_iff_unsigned.mp hk with
    | plain hdigits => exact hdigits.ne_cons (by decide) digits rfl

theorem signed?_sign_append (hsign : sign ∈ signs) (h : Digits digits n) :
    signed? (sign ++ digits) = some (if sign = ['-'] then -(n : Int) else n) := by
  simp only [signs, List.mem_cons, List.not_mem_nil, or_false] at hsign
  rcases hsign with rfl | rfl | rfl
  · exact signed?_eq_some_iff_signed.mpr (.unsigned (.plain h))
  · exact signed?_eq_some_iff_signed.mpr (.unsigned (.plus h))
  · exact signed?_eq_some_iff_signed.mpr (.minus h)

theorem readUInt32?_zeros (hsign : sign ∈ signs) (h : Digits digits n) (count : Nat) :
    readUInt32? (String.ofList (sign ++ (List.replicate count '0' ++ digits))) =
      readUInt32? (String.ofList (sign ++ digits)) := by
  rw [readUInt32?, readUInt32?, String.toList_ofList, String.toList_ofList,
    unsigned?_sign_append hsign (h.zeros count), unsigned?_sign_append hsign h]

theorem readInt32?_zeros (hsign : sign ∈ signs) (h : Digits digits n) (count : Nat) :
    readInt32? (String.ofList (sign ++ (List.replicate count '0' ++ digits))) =
      readInt32? (String.ofList (sign ++ digits)) := by
  rw [readInt32?, readInt32?, String.toList_ofList, String.toList_ofList,
    signed?_sign_append hsign (h.zeros count), signed?_sign_append hsign h]

end

end Text.Grammar

/-! ### Taking numbers off a cursor -/

namespace Source.Cursor

open Text.Decimal (writeUInt32 writeInt32 readUInt32? readInt32?)
open Text.Grammar (Digits Unsigned Signed signs)

/-- The word is a numeral of this value, which is in the range of a register. -/
def DenotesRegister (word : String) (n : Int) : Prop :=
  ∃ k : Nat, Unsigned word.toList k ∧ k ≤ 4294967295 ∧ n = k

/-- The word is a numeral of this value, which is in the range of a literal. -/
def DenotesLiteral (word : String) (n : Int) : Prop :=
  Signed word.toList n ∧ -2147483648 ≤ n ∧ n ≤ 2147483647

/-- A cursor takes a number off its next word and is left as it is then. The word is used up whatever it is. -/
structure Takes (cursor : Cursor) (field : Field) (denotes : String → Int → Prop) (value : Int) (left : Cursor) :
    Prop where
  words : left.words = cursor.words.tail
  /-- The word is taken without a note exactly if it denotes a number, and it gives that number. -/
  accepted : left.malformed = cursor.malformed ↔ ∃ n, denotes cursor.peek n
  kept : ∀ n, denotes cursor.peek n → value = n
  /-- Any other word gives the placeholder, and the field is noted once. -/
  replaced : (∀ n, ¬ denotes cursor.peek n) →
    value = 2147483647 ∧ left.malformed = cursor.malformed ++ [field]

theorem takes_of_read {cursor left : Cursor} {field : Field} {denotes : String → Int → Prop} {read? : Option Int}
    (hread : ∀ n, read? = some n ↔ denotes cursor.peek n) (hwords : left.words = cursor.words.tail)
    (hmalformed : left.malformed = cursor.malformed ++ bif read?.isSome then [] else [field]) :
    Takes cursor field denotes (read?.getD 2147483647) left := by
  refine ⟨hwords, ?_, ?_, ?_⟩
  · simp only [← hread, ← Option.isSome_iff_exists]
    rw [hmalformed]
    cases read? <;> simp
  · intro n hn
    rw [(hread n).mpr hn, Option.getD_some]
  · intro hnone
    have hempty : read? = none := Option.eq_none_iff_forall_ne_some.mpr fun n hn => hnone n ((hread n).mp hn)
    rw [hmalformed, hempty]
    exact ⟨rfl, rfl⟩

theorem number?_register_eq_some_iff {word : String} {n : Int} :
    Field.register.number? word = some n ↔ DenotesRegister word n := by
  rw [Field.number?_eq_some_iff]
  simp only [Field.Denotes, DenotesRegister, Text.Grammar.unsigned_iff]
  constructor
  · rintro ⟨k, hword, hlt, rfl⟩
    exact ⟨k, hword, by omega, rfl⟩
  · rintro ⟨k, hword, hle, rfl⟩
    exact ⟨k, hword, by omega, rfl⟩

theorem number?_value_eq_some_iff {word : String} {n : Int} :
    Field.value.number? word = some n ↔ DenotesLiteral word n := by
  rw [Field.number?_eq_some_iff]
  simp only [Field.Denotes, DenotesLiteral, Text.Grammar.signed_iff]
  constructor
  · rintro ⟨hword, hlow, hhigh⟩
    exact ⟨hword, by omega, by omega⟩
  · rintro ⟨hword, hlow, hhigh⟩
    exact ⟨hword, by omega, by omega⟩

theorem takes_register (cursor : Cursor) (field : Field) :
    Takes cursor field DenotesRegister (cursor.register field).1.toNat (cursor.register field).2 := by
  rw [fst_register, toNat_registerAt]
  apply takes_of_read
  · intro n
    rw [peek_eq]
    exact number?_register_eq_some_iff
  · exact words_register cursor field
  · rw [malformed_register, Option.isSome_map]

theorem takes_literal (cursor : Cursor) (field : Field) :
    Takes cursor field DenotesLiteral (cursor.literal field).1.toInt (cursor.literal field).2 := by
  rw [fst_literal, toInt_literalAt]
  apply takes_of_read
  · intro n
    rw [peek_eq]
    exact number?_value_eq_some_iff
  · exact words_literal cursor field
  · rw [malformed_literal, Option.isSome_map]

theorem register_cons (word : String) (rest : List String) (malformed : List Field) (field : Field) :
    register { words := word :: rest, malformed } field =
      match readUInt32? word with
      | some index => (index, { words := rest, malformed })
      | none => (UInt32.ofNat placeholder, { words := rest, malformed := malformed ++ [field] }) := rfl

theorem literal_cons (word : String) (rest : List String) (malformed : List Field) (field : Field) :
    literal { words := word :: rest, malformed } field =
      match readInt32? word with
      | some value => (value, { words := rest, malformed })
      | none => (Int32.ofNat placeholder, { words := rest, malformed := malformed ++ [field] }) := rfl

/-- A register is taken exactly off digits with a plus or no sign that denote an unsigned word, and a literal exactly off
digits with any sign or none that denote a signed word. Zeros in front of the digits change nothing, whether the number is
taken or not. Wherever in a line a word of either kind is written out, it is taken as itself. -/
theorem numbers_follow_grammar :
    (∀ (cursor : Cursor) (field : Field),
      Takes cursor field DenotesRegister (cursor.register field).1.toNat (cursor.register field).2 ∧
      Takes cursor field DenotesLiteral (cursor.literal field).1.toInt (cursor.literal field).2) ∧
    (∀ (sign digits : List Char) (n zeros : Nat) (rest : List String) (malformed : List Field) (field : Field),
      sign ∈ signs → Digits digits n →
      register { words := String.ofList (sign ++ (List.replicate zeros '0' ++ digits)) :: rest, malformed } field =
        register { words := String.ofList (sign ++ digits) :: rest, malformed } field ∧
      literal { words := String.ofList (sign ++ (List.replicate zeros '0' ++ digits)) :: rest, malformed } field =
        literal { words := String.ofList (sign ++ digits) :: rest, malformed } field) ∧
    ∀ (blanks rest : String) (malformed : List Field) (field : Field),
      (∀ c ∈ blanks.toList, Text.isBlank c = true) → (∀ c ∈ rest.toList.head?, Text.isBlank c = true) →
      (∀ n : UInt32, register { words := Text.words (blanks ++ (writeUInt32 n ++ rest)), malformed } field =
        (n, { words := Text.words rest, malformed })) ∧
      ∀ n : Int32, literal { words := Text.words (blanks ++ (writeInt32 n ++ rest)), malformed } field =
        (n, { words := Text.words rest, malformed }) := by
  refine ⟨fun cursor field => ⟨cursor.takes_register field, cursor.takes_literal field⟩, ?_, ?_⟩
  · intro sign digits n zeros rest malformed field hsign hdigits
    constructor
    · rw [register_cons, Text.Grammar.readUInt32?_zeros hsign hdigits, register_cons]
    · rw [literal_cons, Text.Grammar.readInt32?_zeros hsign hdigits, literal_cons]
  · intro blanks rest malformed field hblanks hrest
    refine ⟨fun n => ?_, fun n => ?_⟩
    · rw [Text.words_of_parts hblanks (Text.Decimal.writeUInt32_ne_empty n) (Text.Decimal.blankFree_writeUInt32 n) hrest,
        register_cons, Text.Decimal.readUInt32?_writeUInt32]
    · rw [Text.words_of_parts hblanks (Text.Decimal.writeInt32_ne_empty n) (Text.Decimal.blankFree_writeInt32 n) hrest,
        literal_cons, Text.Decimal.readInt32?_writeInt32]

/-- A minus makes no register, not even with a zero, which is a literal. One more than the greatest literal is a register
only, and a digit of another script is neither. The least literal has zeros added to it, and the greatest register is
written out between wide blanks. -/
theorem numbers_follow_grammar_at_bounds :
    (∀ n, ¬ DenotesRegister "-0" n) ∧ DenotesLiteral "-0" 0 ∧
    DenotesRegister "+2147483648" 2147483648 ∧ (∀ n, ¬ DenotesLiteral "+2147483648" n) ∧
    (∀ n, ¬ DenotesLiteral "\u0663" n) ∧
    (register { words := ["-0"], malformed := [.result] } .op1).1.toNat = (2147483647 : Int) ∧
    (register { words := ["-0"], malformed := [.result] } .op1).2.malformed = [.result, .op1] ∧
    (literal { words := ["-0"] } .value).1.toInt = 0 ∧
    (register { words := ["+2147483648"] } .op2).1.toNat = (2147483648 : Int) ∧
    (register { words := ["+2147483648"] } .op2).2.malformed = [] ∧
    (literal { words := ["+2147483648"] } .value).2.malformed = [.value] ∧
    (literal { words := ["\u0663"] } .value).1.toInt = 2147483647 ∧
    literal { words := ["-0002147483648"] } .value = literal { words := ["-2147483648"] } .value ∧
    register { words := Text.words "\u3000\t4294967295\u00A0x" } .register = (4294967295, { words := ["x"] }) := by
  obtain ⟨htakes, hzeros, hwritten⟩ := numbers_follow_grammar
  have hminus : ∀ n, ¬ DenotesRegister "-0" n := fun n hn =>
    Option.eq_none_iff_forall_ne_some.mp (by decide +kernel) n (number?_register_eq_some_iff.mpr hn)
  have hover : ∀ n, ¬ DenotesLiteral "+2147483648" n := fun n hn =>
    Option.eq_none_iff_forall_ne_some.mp (by decide +kernel) n (number?_value_eq_some_iff.mpr hn)
  have hscript : ∀ n, ¬ DenotesLiteral "\u0663" n := fun n hn =>
    Option.eq_none_iff_forall_ne_some.mp (by decide +kernel) n (number?_value_eq_some_iff.mpr hn)
  have hzero : DenotesLiteral "-0" 0 := number?_value_eq_some_iff.mp (by decide +kernel)
  have hgreat : DenotesRegister "+2147483648" 2147483648 := number?_register_eq_some_iff.mp (by decide +kernel)
  have hdigits : Digits "2147483648".toList 2147483648 :=
    Text.Grammar.digits?_eq_some_iff_digits.mp (by decide +kernel)
  obtain ⟨hvalue, hnoted⟩ := (htakes { words := ["-0"], malformed := [.result] } .op1).1.replaced hminus
  refine ⟨hminus, hzero, hgreat, hover, hscript, hvalue, hnoted, (htakes _ _).2.kept 0 hzero,
    (htakes _ _).1.kept _ hgreat, (htakes _ _).1.accepted.mpr ⟨_, hgreat⟩,
    ((htakes { words := ["+2147483648"] } .value).2.replaced hover).2,
    ((htakes { words := ["\u0663"] } .value).2.replaced hscript).1,
    (hzeros ['-'] _ _ 3 [] [] .value (by decide) hdigits).2, ?_⟩
  have hhead : "\u00A0x".toList.head? = some '\u00A0' := by decide +kernel
  have hrest : ∀ c ∈ "\u00A0x".toList.head?, Text.isBlank c = true := fun c hc => by
    obtain rfl := Option.some.inj (hhead.symm.trans hc)
    decide
  have hblanks := List.all_eq_true.mp (show "\u3000\t".toList.all Text.isBlank = true by decide +kernel)
  have hgreatest := (hwritten "\u3000\t" "\u00A0x" [] .register hblanks hrest).1 4294967295
  rwa [show Text.words "\u00A0x" = ["x"] by decide +kernel] at hgreatest

end Source.Cursor

end RegAsm
