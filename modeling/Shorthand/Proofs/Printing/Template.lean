import Mathlib.Data.List.Chain
import Shorthand.Proofs.Scanning.Numbering

/-! Printed templates. A template is printed with its tokens spelt out in full, so that
nothing of a token is left to be guessed; in text every other character is escaped. What
is printed so is read as the template, wherever no digit follows a token. -/
namespace Shorthand

theorem isDigit_of_mem_toDigits {n : Nat} {c : Char} (h : c ∈ Nat.toDigits 10 n) : c.isDigit :=
  Nat.isDigit_of_mem_toDigits (by decide) (by decide) h

theorem readWord?_toDigits {n : Nat} (h : n ≤ wordMax) :
    readWord? (Nat.toDigits 10 n) = some n := by
  have value : decimalValue (Nat.toDigits 10 n) = n := Nat.ofDigitChars_ten_toDigits
  unfold readWord?
  rw [value, if_pos]
  exact ⟨Nat.toDigits_ne_nil, List.all_eq_true.mpr fun _ => isDigit_of_mem_toDigits, h⟩

namespace Numbering

/-- The direction and the first number of a token. -/
def writtenSuffix (n : Numbering) : List Char :=
  '@' :: ((if n.ascending then [] else ['-']) ++ Nat.toDigits 10 n.base)

def written (n : Numbering) : List Char := List.replicate n.width '$' ++ n.writtenSuffix

/-- The token has a `$`, and its first number is a machine word. -/
structure IsPrintable (n : Numbering) : Prop where
  width : 0 < n.width
  base : n.base ≤ wordMax

theorem isPrintable_iff {n : Numbering} : n.IsPrintable ↔ 0 < n.width ∧ n.base ≤ wordMax :=
  ⟨fun h => ⟨h.width, h.base⟩, fun h => ⟨h.1, h.2⟩⟩

variable {n : Numbering} {x : List Char}

/-- The suffix that the token is printed with. -/
def printedSuffix (n : Numbering) : Suffix :=
  if n.ascending then .ascending (Nat.toDigits 10 n.base) else .descending (Nat.toDigits 10 n.base)

theorem chars_printedSuffix (n : Numbering) : n.printedSuffix.chars = n.writtenSuffix := by
  unfold printedSuffix writtenSuffix
  cases n.ascending <;> rfl

theorem digits_printedSuffix (n : Numbering) : n.printedSuffix.digits = Nat.toDigits 10 n.base := by
  unfold printedSuffix
  split <;> rfl

theorem first_printedSuffix (n : Numbering) : n.printedSuffix.first = n.base := by
  rw [Suffix.first, digits_printedSuffix, if_neg Nat.toDigits_ne_nil]
  exact Nat.ofDigitChars_ten_toDigits

theorem token_printedSuffix (n : Numbering) : n.printedSuffix.token n.width = n := by
  have direction : n.printedSuffix.ascends = n.ascending := by
    unfold printedSuffix
    cases n.ascending <;> rfl
  rw [Suffix.token, direction, first_printedSuffix]

theorem printedSuffix_ends (n : Numbering) (stop : Stops isDecimalDigit x) :
    n.printedSuffix.Ends x := by
  unfold printedSuffix
  split
  · exact ⟨stop, fun none => absurd none Nat.toDigits_ne_nil⟩
  · exact stop

theorem read_written (printable : n.IsPrintable) (stop : Stops isDecimalDigit x) :
    ∃ t, n.written ++ x = '$' :: t ∧ read t = (n, x) := by
  obtain ⟨width, hw⟩ := Nat.exists_eq_add_one_of_ne_zero (Nat.ne_of_gt printable.width)
  have decimal : ∀ c ∈ n.printedSuffix.digits, c.isDigit := by
    rw [digits_printedSuffix]
    exact fun c => isDigit_of_mem_toDigits
  have read := Suffix.read_chars decimal (n.first_printedSuffix ▸ printable.base)
    (n.printedSuffix_ends stop) width
  rw [chars_printedSuffix, ← hw, token_printedSuffix] at read
  refine ⟨List.replicate width '$' ++ (n.writtenSuffix ++ x), ?_, read⟩
  rw [written, hw, List.replicate_succ, List.cons_append, List.cons_append, List.append_assoc]

theorem stops_written (printable : n.IsPrintable) (x : List Char) :
    Stops isDecimalDigit (n.written ++ x) := by
  obtain ⟨width, hw⟩ := Nat.exists_eq_add_one_of_ne_zero (Nat.ne_of_gt printable.width)
  rw [written, hw, List.replicate_succ]
  exact stops_cons.mpr (by decide +kernel)

end Numbering

namespace Piece

/-- A piece, with its character spelt as `literal` says. -/
def written (literal : Char → List Char) : Piece → List Char
  | .char c => literal c
  | .number n => n.written

def isNumber : Piece → Bool
  | .char _ => false
  | .number _ => true

def isDigit : Piece → Bool
  | .char c => isDecimalDigit c
  | .number _ => false

end Piece

namespace Template

/-- Every token can be printed. -/
def TokensPrintable (t : Template) : Prop := ∀ n, Piece.number n ∈ t.pieces → n.IsPrintable

/-- No token is followed by a digit that would go on its first number. -/
def TokensEnd (t : Template) : Prop :=
  t.pieces.IsChain fun first next => first.isNumber → next.isDigit = false

/-- The template as a name, an id, a class or an attribute value. -/
def asSelector (t : Template) : List Char := t.pieces.flatMap (Piece.written fun c => [c])

/-- The template as text, with every character escaped. -/
def asText (t : Template) : List Char := t.pieces.flatMap (Piece.written fun c => ['\\', c])

theorem stops_of_isChain {n : Numbering} {pieces : List Piece}
    (printable : ∀ n, Piece.number n ∈ pieces → n.IsPrintable)
    (ends : (Piece.number n :: pieces).IsChain
      fun first next => first.isNumber → next.isDigit = false) :
    Stops isDecimalDigit (pieces.flatMap (Piece.written fun c => [c])) := by
  cases pieces with
  | nil => exact stops_nil
  | cons piece pieces =>
    cases piece with
    | char c => exact stops_cons.mpr ((List.isChain_cons_cons.mp ends).1 rfl)
    | number m => exact Numbering.stops_written (printable m List.mem_cons_self) _

theorem ofSelector_asSelector {t : Template} (printable : t.TokensPrintable) (ends : t.TokensEnd)
    (plain : ∀ c, Piece.char c ∈ t.pieces → c ≠ '$') : ofSelector t.asSelector = t := by
  obtain ⟨pieces⟩ := t
  refine (ofSelector_eq _).trans (congrArg Template.mk ?_)
  change piecesOf (pieces.flatMap (Piece.written fun c => [c])) = pieces
  induction pieces with
  | nil => rw [List.flatMap_nil, piecesOf]
  | cons piece pieces ih =>
    have rest := ih (fun n mem => printable n (List.mem_cons_of_mem _ mem))
      (List.IsChain.tail ends) fun c mem => plain c (List.mem_cons_of_mem _ mem)
    rw [List.flatMap_cons]
    cases piece with
    | char c =>
      refine (piecesOf_char _ (plain c List.mem_cons_self)).trans ?_
      exact congrArg (Piece.char c :: ·) rest
    | number n =>
      have stop := stops_of_isChain (fun n mem => printable n (List.mem_cons_of_mem _ mem)) ends
      obtain ⟨t, spelt, read⟩ := Numbering.read_written (printable n List.mem_cons_self) stop
      refine (congrArg piecesOf spelt).trans ?_
      rw [piecesOf_number, read]
      exact congrArg (Piece.number n :: ·) rest

theorem stops_asText {pieces : List Piece} (printable : ∀ n, Piece.number n ∈ pieces → n.IsPrintable)
    (x : List Char) :
    Stops isDecimalDigit (pieces.flatMap (Piece.written fun c => ['\\', c]) ++ '}' :: x) := by
  cases pieces with
  | nil => exact stops_cons.mpr (by decide +kernel)
  | cons piece pieces =>
    cases piece with
    | char c => exact stops_cons.mpr (by decide +kernel)
    | number n =>
      rw [List.flatMap_cons, List.append_assoc]
      exact Numbering.stops_written (printable n List.mem_cons_self) _

theorem braced?_asText {t : Template} (printable : t.TokensPrintable) (before : List Piece)
    (x : List Char) :
    braced? before (t.asText ++ '}' :: x) = some (⟨before.reverse ++ t.pieces⟩, x) := by
  obtain ⟨pieces⟩ := t
  change braced? before (pieces.flatMap (Piece.written fun c => ['\\', c]) ++ '}' :: x) = _
  induction pieces generalizing before with
  | nil => simpa using braced?_close before x
  | cons piece pieces ih =>
    have later : ∀ n, Piece.number n ∈ pieces → n.IsPrintable := fun n mem =>
      printable n (List.mem_cons_of_mem _ mem)
    rw [List.flatMap_cons, List.append_assoc]
    cases piece with
    | char c =>
      refine (braced?_escape before c _).trans ((ih (.char c :: before) later).trans ?_)
      simp
    | number n =>
      obtain ⟨t, spelt, read⟩ :=
        Numbering.read_written (printable n List.mem_cons_self) (stops_asText later x)
      refine (congrArg (braced? before) spelt).trans ?_
      rw [braced?_number, read, ih (.number n :: before) later]
      simp

end Template

end Shorthand
