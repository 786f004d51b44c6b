import Shorthand.Text.Digit
import Shorthand.Text.Span

/-! Numbering tokens. A token is a run of `$` signs, as wide as the run is long,
with an optional `@`, an optional `-` that reverses the direction, and an
optional first number. Each copy that a multiplier makes has its own number. -/
namespace Shorthand

structure Numbering where
  width : Nat
  ascending : Bool
  base : Nat
deriving DecidableEq

namespace Numbering

/-- The number of copy `index` out of `limit`; numbers stop at the greatest machine word. -/
def value (n : Numbering) (index limit : Nat) : Nat :=
  min (n.base + if n.ascending then index else limit - 1 - index) wordMax

/-- The number in decimal digits, filled up with zeros to the width of the token, however wide it
is. A formatter that takes widths below 2 ^ 16 has no number for a token of more `$` signs. -/
def digits (n : Numbering) (index limit : Nat) : List Char :=
  List.leftpad n.width '0' (Nat.toDigits 10 (n.value index limit))

/-- The first number as it is written; 1 when it is left out or is no machine word. -/
def firstNumber (digits : List Char) : Nat := (readWord? digits).getD 1

/-- The direction and first number that may follow the `$` run. -/
def readSuffix (width : Nat) : List Char → Numbering × List Char
  | '@' :: '-' :: s =>
    (⟨width, false, firstNumber (s.takeWhile isDecimalDigit)⟩, s.dropWhile isDecimalDigit)
  | '@' :: s =>
    (⟨width, true, firstNumber (s.takeWhile isDecimalDigit)⟩, s.dropWhile isDecimalDigit)
  | s => (⟨width, true, 1⟩, s)

/-- The token whose first `$` stands right before `s`, and what follows it. -/
def read (s : List Char) : Numbering × List Char :=
  readSuffix ((s.takeWhile (· == '$')).length + 1) (s.dropWhile (· == '$'))

theorem readSuffix_length_le (width : Nat) (s : List Char) :
    (readSuffix width s).2.length ≤ s.length := by
  have h := length_dropWhile_le isDecimalDigit
  fun_cases readSuffix width s with
  | case1 t => exact Nat.le_trans (h t) (by simp; omega)
  | case2 t _ => exact Nat.le_trans (h t) (by simp)
  | case3 => exact Nat.le_refl _

theorem read_length_le (s : List Char) : (read s).2.length ≤ s.length :=
  Nat.le_trans (readSuffix_length_le _ _) (length_dropWhile_le _ _)

end Numbering

end Shorthand
