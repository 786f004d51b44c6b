import Shorthand.Proofs.Scanning.Locality

/-! Numbering tokens as they are spelt. Behind its `$` signs a token has a suffix, and where
nothing behind the suffix goes on with it, the token is read as the suffix says, and no more
than the token is taken. -/
namespace Shorthand.Numbering

variable {rest : List Char}

/-- What may be spelt behind the `$` signs of a token: the direction and the digits of the first
number. -/
inductive Suffix where
  | bare
  | ascending (digits : List Char)
  | descending (digits : List Char)

namespace Suffix

def chars : Suffix → List Char
  | bare => []
  | ascending digits => '@' :: digits
  | descending digits => '@' :: '-' :: digits

def digits : Suffix → List Char
  | bare => []
  | ascending digits | descending digits => digits

/-- The first number, which is 1 where none is written. -/
def first (suffix : Suffix) : Nat :=
  if suffix.digits = [] then 1 else decimalValue suffix.digits

/-- Nothing at the front of what follows goes on with the token. -/
def Ends : Suffix → List Char → Prop
  | bare, rest => rest.head? ≠ some '$' ∧ rest.head? ≠ some '@'
  | ascending digits, rest =>
    Stops isDecimalDigit rest ∧ (digits = [] → rest.head? ≠ some '-')
  | descending _, rest => Stops isDecimalDigit rest

def ascends : Suffix → Bool
  | bare | ascending _ => true
  | descending _ => false

/-- The token that is read where the suffix stands behind so many `$` signs. -/
def token (width : Nat) (suffix : Suffix) : Numbering := ⟨width, suffix.ascends, suffix.first⟩

variable {suffix : Suffix}

theorem firstNumber_digits (decimal : ∀ c ∈ suffix.digits, c.isDigit)
    (word : suffix.first ≤ wordMax) : firstNumber suffix.digits = suffix.first := by
  unfold firstNumber readWord? first at *
  by_cases none : suffix.digits = []
  · simp [none]
  · rw [if_neg none] at word ⊢
    rw [if_pos ⟨none, List.all_eq_true.mpr decimal, word⟩]
    rfl

theorem readSuffix_chars (decimal : ∀ c ∈ suffix.digits, c.isDigit)
    (word : suffix.first ≤ wordMax) (ends : suffix.Ends rest) (width : Nat) :
    readSuffix width (suffix.chars ++ rest) = (suffix.token width, rest) := by
  have number := firstNumber_digits decimal word
  have run : ∀ c ∈ suffix.digits, isDecimalDigit c := fun c member =>
    isDecimalDigit_of_isDigit (decimal c member)
  cases suffix with
  | bare => exact readSuffix_plain ends.2
  | ascending digits =>
    obtain ⟨stop, unsigned⟩ := ends
    have run : ∀ c ∈ digits, isDecimalDigit c := run
    have noMinus : (digits ++ rest).head? ≠ some '-' :=
      head?_append_ne (fun here => absurd (decimal _ (List.mem_of_mem_head? here)) (by decide))
        unsigned
    rw [chars, List.cons_append, readSuffix_ascending noMinus, takeWhile_run run stop,
      dropWhile_run run stop]
    exact congrArg (fun first => (Numbering.mk width true first, rest)) number
  | descending digits =>
    have run : ∀ c ∈ digits, isDecimalDigit c := run
    rw [chars, List.cons_append, List.cons_append, readSuffix_descending, takeWhile_run run ends,
      dropWhile_run run ends]
    exact congrArg (fun first => (Numbering.mk width false first, rest)) number

/-- Behind a `$` the rest of the token is read, and no more. -/
theorem read_chars (decimal : ∀ c ∈ suffix.digits, c.isDigit) (word : suffix.first ≤ wordMax)
    (ends : suffix.Ends rest) (width : Nat) :
    read (List.replicate width '$' ++ (suffix.chars ++ rest)) =
      (suffix.token (width + 1), rest) := by
  have run : ∀ c ∈ List.replicate width '$', (c == '$') = true := fun c member =>
    beq_iff_eq.mpr (List.eq_of_mem_replicate member)
  have stop : Stops (· == '$') (suffix.chars ++ rest) := by
    cases suffix with
    | bare => exact fun c here => beq_eq_false_iff_ne.mpr fun same => ends.1 (same ▸ here)
    | ascending digits | descending digits => exact stops_cons.mpr rfl
  rw [read, takeWhile_run run stop, dropWhile_run run stop, List.length_replicate]
  exact readSuffix_chars decimal word ends (width + 1)

end Suffix

end Shorthand.Numbering
