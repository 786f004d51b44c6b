import Mathlib
import Shorthand.Proofs.Node.Copies
import Shorthand.Proofs.Scanning.Numbering

/-! The numbers that are written into copies. A token as it is spelt has a first number, and
the copies count on from it, up or down. What a copy shows is that number in decimal digits,
filled up to the width of the token, and stays at the greatest machine word behind it. -/
namespace Shorthand

namespace Numbering.Suffix

variable {suffix : Suffix} {index count : Nat}

/-- The number of copy `index` out of `count`, however large it is. -/
def number (suffix : Suffix) (index count : Nat) : Nat :=
  match suffix with
  | bare | ascending _ => suffix.first + index
  | descending _ => suffix.first + (count - 1) - index

theorem value_token (inside : index < count) (width : Nat) :
    (suffix.token width).value index count = min (suffix.number index count) wordMax := by
  cases suffix with
  | bare | ascending digits => rfl
  | descending digits =>
    have back : ∀ first, first + (count - 1 - index) = first + (count - 1) - index := by omega
    exact congrArg (min · wordMax) (back _)

end Numbering.Suffix

/-- A number in decimal digits, filled up with zeros to a width. -/
def padded (width number : Nat) : List Char := List.leftpad width '0' (Nat.toDigits 10 number)

/-- Zeros in front of a number do not change it. -/
theorem decimalValue_padded (width number : Nat) : decimalValue (padded width number) = number := by
  have value : decimalValue (Nat.toDigits 10 number) = number := Nat.ofDigitChars_ten_toDigits
  have zeros : ∀ fill, (List.replicate fill '0').foldl
      (fun value c => 10 * value + digitValue c) 0 = 0 := by
    intro fill
    induction fill with
    | zero => rfl
    | succ fill ih => exact ih
  rw [padded, List.leftpad, decimalValue, List.foldl_append, zeros]
  exact value

theorem padded_injective (width : Nat) : Function.Injective (padded width) :=
  Function.LeftInverse.injective (decimalValue_padded width)

namespace Template

variable {suffix : Numbering.Suffix} {width index count : Nat} {rest : List Char}

theorem resolve_token (n : Numbering) (before behind : List Piece) (index count : Nat) :
    (Template.mk (before ++ .number n :: behind)).resolve index count =
      .ofChars (chars ⟨before⟩ index count ++ n.digits index count ++
        chars ⟨behind⟩ index count) := by
  simp [resolve, chars, Piece.chars]

/-- What is spelt as a token with a machine word for its first number is read as one token, in a
selector and in text. In each copy the token is replaced by the number of the copy in decimal
digits, filled up with zeros to the width of the token, if that number is a machine word; in all
copies behind, the greatest machine word stands for it. -/
theorem token_numbers_copies (positive : 0 < width) (decimal : ∀ c ∈ suffix.digits, c.isDigit)
    (word : suffix.first ≤ wordMax) (ends : suffix.Ends rest) (inside : index < count) :
    ∃ n : Numbering,
      (ofSelector (List.replicate width '$' ++ suffix.chars ++ rest)).pieces =
        .number n :: (ofSelector rest).pieces ∧
      (∀ run, bracedSegments? run (List.replicate width '$' ++ suffix.chars ++ rest) =
        (bracedSegments? "" rest).map fun found =>
          (.literal run :: .numbering n :: found.1, found.2)) ∧
      (∀ node : Node, (node.multiply count).children[index]? =
        some (node.mapTemplates (·.resolve index count))) ∧
      (∀ before behind, ∃ shown,
        (Template.mk (before ++ .number n :: behind)).resolve index count =
          .ofChars (chars ⟨before⟩ index count ++ shown ++ chars ⟨behind⟩ index count) ∧
        shown = padded width (min (suffix.number index count) wordMax) ∧
        (shown = padded width (suffix.number index count) ↔
          suffix.number index count ≤ wordMax)) := by
  obtain ⟨more, rfl⟩ := Nat.exists_eq_add_of_lt positive
  rw [Nat.zero_add]
  have spelt : List.replicate (more + 1) '$' ++ suffix.chars ++ rest =
      '$' :: (List.replicate more '$' ++ (suffix.chars ++ rest)) := by
    rw [List.replicate_succ, List.append_assoc, List.cons_append]
  have read := Numbering.Suffix.read_chars decimal word ends more
  have shown : (suffix.token (more + 1)).digits index count =
      padded (more + 1) (min (suffix.number index count) wordMax) := by
    rw [Numbering.digits, Numbering.Suffix.value_token inside]
    rfl
  rw [spelt]
  refine ⟨suffix.token (more + 1), ?_, fun run => ?_, fun node => ?_, fun before behind =>
    ⟨_, resolve_token _ before behind index count, shown, ?_⟩⟩
  · rw [ofSelector_eq, ofSelector_eq, piecesOf_number, read]
  · rw [bracedSegments?_number, read]
  · rw [← Node.instantiate_eq]
    simp [Node.multiply, Node.children, inside]
  · rw [shown, (padded_injective (more + 1)).eq_iff]
    exact min_eq_left_iff

theorem token_numbers_copies_nine :
    ((Node.text (.ofSelector "a$$@-9.".toList)).multiply 3).children[1]? =
      some (.text (.ofText "a10.")) := by
  have decimal : ∀ c ∈ (Numbering.Suffix.descending ['9']).digits, c.isDigit :=
    forall_mem_of_all (by decide)
  have ends : (Numbering.Suffix.descending ['9']).Ends ['.'] := stops_cons.mpr (by decide +kernel)
  have wide : 0 < 2 := by decide
  have inside : 1 < 3 := by decide
  obtain ⟨n, read, -, copies, shows⟩ := token_numbers_copies wide decimal (by decide) ends inside
  rw [ofSelector_eq, ofSelector_eq] at read
  obtain ⟨shown, resolved, -, number⟩ := shows [.char 'a'] (piecesOf ['.'])
  have pieces : ofSelector "a$$@-9.".toList = ⟨[.char 'a'] ++ .number n :: piecesOf ['.']⟩ := by
    have letter : 'a' ≠ '$' := by decide
    rw [ofSelector_eq]
    exact congrArg Template.mk ((piecesOf_char _ letter).trans (congrArg _ read))
  rw [copies, Node.mapTemplates, pieces, resolved, number.mpr (by decide)]
  cbv

/-- Behind the greatest machine word the copies have one number. -/
theorem greatest_word_repeats :
    (Node.text (.ofSelector "$@18446744073709551615".toList)).multiply 2 =
        .copies [.text (.ofText "18446744073709551615"), .text (.ofText "18446744073709551615")] ∧
      (Numbering.Suffix.ascending "18446744073709551615".toList).number 1 2 =
        18446744073709551616 := by
  have read : Numbering.read "@18446744073709551615".toList = (⟨1, true, wordMax⟩, []) := by
    decide +kernel
  have pieces : ofSelector "$@18446744073709551615".toList = ⟨[.number ⟨1, true, wordMax⟩]⟩ := by
    have token := piecesOf_number "@18446744073709551615".toList
    rw [read, piecesOf] at token
    exact (ofSelector_eq _).trans (congrArg Template.mk token)
  rw [pieces]
  exact ⟨by cbv, by decide⟩

end Template

end Shorthand
