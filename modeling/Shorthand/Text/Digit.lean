/-! Decimal digits and numerals. A decimal digit is a code point of the Unicode
category Nd; these come in runs of ten, so the table lists where the runs begin.
Only ASCII digits are read as numbers, and only numbers that fit a machine word
of 64 bits: any other run of digits is a numeral without a value. -/
namespace Shorthand

/-- The digit zero of every script that has decimal digits. -/
def scriptZeros : List UInt32 :=
  [0x30, 0x660, 0x6F0, 0x7C0, 0x966, 0x9E6, 0xA66, 0xAE6, 0xB66, 0xBE6, 0xC66, 0xCE6, 0xD66,
   0xDE6, 0xE50, 0xED0, 0xF20, 0x1040, 0x1090, 0x17E0, 0x1810, 0x1946, 0x19D0, 0x1A80, 0x1A90,
   0x1B50, 0x1BB0, 0x1C40, 0x1C50, 0xA620, 0xA8D0, 0xA900, 0xA9D0, 0xA9F0, 0xAA50, 0xABF0,
   0xFF10, 0x104A0, 0x10D30, 0x10D40, 0x11066, 0x110F0, 0x11136, 0x111D0, 0x112F0, 0x11450,
   0x114D0, 0x11650, 0x116C0, 0x116D0, 0x116DA, 0x11730, 0x118E0, 0x11950, 0x11BF0, 0x11C50,
   0x11D50, 0x11DA0, 0x11F50, 0x16130, 0x16A60, 0x16AC0, 0x16B50, 0x16D70, 0x1CCF0, 0x1D7CE,
   0x1D7D8, 0x1D7E2, 0x1D7EC, 0x1D7F6, 0x1E140, 0x1E2F0, 0x1E4F0, 0x1E5F1, 0x1E950, 0x1FBF0]

def isDecimalDigit (c : Char) : Bool :=
  scriptZeros.any fun zero => zero ≤ c.val && c.val < zero + 10

/-- The greatest value of a machine word. -/
def wordMax : Nat := 0xFFFFFFFFFFFFFFFF

/-- The greatest value of a machine word with a sign. -/
def signedMax : Nat := 0x7FFFFFFFFFFFFFFF

/-- The value of an ASCII digit. -/
def digitValue (c : Char) : Nat := c.toNat - '0'.toNat

/-- The number that a run of ASCII digits denotes. -/
def decimalValue (digits : List Char) : Nat :=
  digits.foldl (fun value c => 10 * value + digitValue c) 0

/-- The value of a numeral, if it is written in ASCII digits and fits a machine word. -/
def readWord? (digits : List Char) : Option Nat :=
  if digits ≠ [] ∧ digits.all Char.isDigit ∧ decimalValue digits ≤ wordMax then
    some (decimalValue digits)
  else none

theorem readWord?_le {digits : List Char} {n : Nat} (h : readWord? digits = some n) :
    n ≤ wordMax := by
  unfold readWord? at h
  split at h
  · obtain rfl := Option.some.inj h
    exact (‹_ ∧ _ ∧ _› : _ ∧ _ ∧ _).2.2
  · contradiction

/-- The value of a numeral that may have a plus sign. -/
def readNumeral? : List Char → Option Nat
  | '+' :: digits => readWord? digits
  | digits => readWord? digits

/-- A number written in ASCII digits, without leading zeros. -/
def decimalText (n : Nat) : String := String.ofList (Nat.toDigits 10 n)

end Shorthand
