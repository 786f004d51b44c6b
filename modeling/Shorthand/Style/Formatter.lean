import Shorthand.Text.Blank
import Shorthand.Text.Digit
import Shorthand.Text.Lines
import Shorthand.Text.Span

/-! Templates of declarations. A `|` or a number in braces after a dollar sign is a
slot; a colon in the braces introduces what stands there without an argument. A
slot without a usable number takes its position among the slots. Arguments beyond
the last slot go into the last slot. -/
namespace Shorthand.Style

inductive FormatPiece where
  | char (c : Char)
  | slot (index : Nat) (fallback : List Char)
deriving DecidableEq

structure Formatter where
  pieces : List FormatPiece
deriving DecidableEq

namespace Formatter

/-- The slot that a numeral names; numbers count from one. -/
def slotIndex (ordinal : Nat) (digits : List Char) : Nat :=
  ((readWord? digits).map (· - 1)).getD ordinal

/-- What follows the opening brace of a slot: its index, its fallback and the rest. -/
def slot? (ordinal : Nat) (s : List Char) : Option (FormatPiece × List Char) :=
  let index := slotIndex ordinal (s.takeWhile isDecimalDigit)
  match s.dropWhile isDecimalDigit with
  | '}' :: rest => some (.slot index [], rest)
  | ':' :: s =>
    match s.dropWhile (· ≠ '}') with
    | [] => none
    | _ :: rest => some (.slot index (s.takeWhile (· ≠ '}')), rest)
  | _ => none

theorem slot?_length_lt {ordinal : Nat} {s rest : List Char} {piece : FormatPiece}
    (h : slot? ordinal s = some (piece, rest)) : rest.length < s.length := by
  have hs := length_dropWhile_le isDecimalDigit s
  unfold slot? at h
  split at h
  · next t ht =>
    obtain ⟨-, rfl⟩ := Prod.mk.inj (Option.some.inj h)
    rw [ht, List.length_cons] at hs
    omega
  · next t ht =>
    rw [ht, List.length_cons] at hs
    split at h
    · contradiction
    · next c r hr =>
      obtain ⟨-, rfl⟩ := Prod.mk.inj (Option.some.inj h)
      have := length_dropWhile_le (· ≠ '}') t
      rw [hr, List.length_cons] at this
      omega
  · contradiction

/-- The slot at the front of the input, if there is one. -/
def leadingSlot? (ordinal : Nat) : List Char → Option (FormatPiece × List Char)
  | '|' :: s => some (.slot ordinal [], s)
  | '$' :: '{' :: s => slot? ordinal s
  | _ => none

theorem leadingSlot?_length_lt {ordinal : Nat} {s rest : List Char} {piece : FormatPiece}
    (h : leadingSlot? ordinal s = some (piece, rest)) : rest.length < s.length := by
  unfold leadingSlot? at h
  split at h
  · obtain ⟨-, rfl⟩ := Prod.mk.inj (Option.some.inj h)
    exact Nat.lt_succ_self _
  · exact Nat.lt_succ_of_lt (Nat.lt_succ_of_lt (slot?_length_lt h))
  · contradiction

/-- The pieces of a source of which `ordinal` slots are already read. -/
def piecesOf (ordinal : Nat) (s : List Char) : List FormatPiece :=
  match _hs : leadingSlot? ordinal s with
  | some (piece, rest) => piece :: piecesOf (ordinal + 1) rest
  | none =>
    match s with
    | [] => []
    | c :: rest => .char c :: piecesOf ordinal rest
termination_by s.length
decreasing_by
  · exact leadingSlot?_length_lt _hs
  · exact Nat.lt_succ_self _

def compile (source : String) : Formatter := ⟨piecesOf 0 source.toList⟩

def slotIndex? : FormatPiece → Option Nat
  | .slot index _ => some index
  | .char _ => none

/-- The highest slot, into which surplus arguments go. -/
def lastSlot? (formatter : Formatter) : Option Nat :=
  (formatter.pieces.filterMap slotIndex?).max?

def slotCount (formatter : Formatter) : Nat := (formatter.lastSlot?.map (· + 1)).getD 0

/-- The characters before the first slot. -/
def leadingChars : List FormatPiece → List Char
  | .char c :: rest => c :: leadingChars rest
  | _ => []

/-- The property that is set: what stands before a colon, ahead of any slot. -/
def property? (formatter : Formatter) : Option String :=
  let lead := leadingChars formatter.pieces
  if ':' ∈ lead then some (String.ofList (trim (lead.takeWhile (· ≠ ':')))) else none

/-- One text per slot. -/
def slotTexts (formatter : Formatter) (args : List String) : List String :=
  match formatter.lastSlot? with
  | none => args
  | some last =>
    if last < args.length then args.take last ++ [" ".intercalate (args.drop last)] else args

/-- The template with the arguments in its slots. -/
def format (formatter : Formatter) (args : List String) : String :=
  let texts := formatter.slotTexts args
  String.ofList (formatter.pieces.flatMap fun
    | .char c => [c]
    | .slot index fallback => ((texts[index]?).map String.toList).getD fallback)

end Formatter

end Shorthand.Style
