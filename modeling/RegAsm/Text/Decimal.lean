/-! Decimal numerals as they are written in a source: an optional sign and one or more ASCII digits, with
any number of leading zeros. A numeral outside the range of its word is no numeral at all. -/

namespace RegAsm.Text.Decimal

/-- The number that a run of digits denotes; the empty run denotes none. -/
def digits? (text : List Char) : Option Nat :=
  if text ≠ [] ∧ text.all Char.isDigit then some (Nat.ofDigitChars 10 text 0) else none

/-- An unsigned numeral, which may carry a plus sign. -/
def unsigned? : List Char → Option Nat
  | '+' :: text => digits? text
  | text => digits? text

/-- A signed numeral. -/
def signed? : List Char → Option Int
  | '-' :: text => (digits? text).map fun n => -(n : Int)
  | text => (unsigned? text).map fun n => (n : Int)

/-- An unsigned numeral in the range of unsigned words. -/
def readUInt32? (word : String) : Option UInt32 :=
  match unsigned? word.toList with
  | some n => if n < UInt32.size then some (UInt32.ofNat n) else none
  | none => none

/-- A signed numeral in the range of signed words. -/
def readInt32? (word : String) : Option Int32 :=
  match signed? word.toList with
  | some n =>
    if Int32.minValue.toInt ≤ n ∧ n ≤ Int32.maxValue.toInt then some (Int32.ofInt n) else none
  | none => none

/-- The shortest numeral of an unsigned word. -/
def writeUInt32 (n : UInt32) : String := Nat.repr n.toNat

/-- The shortest numeral of a signed word. -/
def writeInt32 (n : Int32) : String :=
  if n < 0 then "-" ++ Nat.repr n.toInt.natAbs else Nat.repr n.toInt.natAbs

end RegAsm.Text.Decimal
