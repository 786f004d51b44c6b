import Mathlib.Data.List.Infix
import Shorthand.Proofs.Scanning.Span
import Shorthand.Style.Formatter

/-! Placeholders of a source. A placeholder is a bar, or digits in braces behind a dollar sign,
with or without a fallback behind a colon. At most one begins at any place of a text, so there is
one way to cut the text at its placeholders from left to right and to leave everything else as it
is. -/
namespace Shorthand.Style

/-- A placeholder as it is written. -/
inductive Placeholder where
  | bar
  | braces (digits : List Char) (default? : Option (List Char))

namespace Placeholder

def chars : Placeholder → List Char
  | bar => ['|']
  | braces digits none => '$' :: '{' :: (digits ++ ['}'])
  | braces digits (some text) => '$' :: '{' :: (digits ++ ':' :: (text ++ ['}']))

/-- Nothing but digits stands for the number, and no brace closes the placeholder early. -/
def IsWellFormed : Placeholder → Prop
  | bar => True
  | braces digits default? => (∀ c ∈ digits, isDecimalDigit c) ∧ ∀ text ∈ default?, '}' ∉ text

/-- What is shown without an argument. -/
def fallback : Placeholder → List Char
  | bar | braces _ none => []
  | braces _ (some text) => text

/-- The slot to fill. Numbers count from one; what has no machine word for its number takes its
position among the placeholders. -/
def slot (position : Nat) : Placeholder → Nat
  | bar => position
  | braces digits _ =>
    match readWord? digits with
    | some number => number - 1
    | none => position

variable {placeholder : Placeholder} {s rest : List Char} {position : Nat}

theorem chars_ne_nil (placeholder : Placeholder) : placeholder.chars ≠ [] := by
  unfold chars
  split <;> exact List.cons_ne_nil _ _

theorem slotIndex_eq (position : Nat) (digits : List Char) (default? : Option (List Char)) :
    Formatter.slotIndex position digits = (braces digits default?).slot position := by
  cases read : readWord? digits <;> simp [Formatter.slotIndex, slot, read]

theorem chars_number (digits rest : List Char) :
    (braces digits none).chars ++ rest = '$' :: '{' :: (digits ++ '}' :: rest) := by
  simp [chars]

theorem chars_fallback (digits text rest : List Char) :
    (braces digits (some text)).chars ++ rest =
      '$' :: '{' :: (digits ++ ':' :: (text ++ '}' :: rest)) := by
  simp [chars]

/-- The placeholder as a piece of a formatter. -/
def piece (position : Nat) (placeholder : Placeholder) : FormatPiece :=
  .slot (placeholder.slot position) placeholder.fallback

/-- A placeholder is read where it stands. -/
theorem leadingSlot?_chars (wellFormed : placeholder.IsWellFormed) (position : Nat)
    (rest : List Char) :
    Formatter.leadingSlot? position (placeholder.chars ++ rest) =
      some (placeholder.piece position, rest) := by
  cases placeholder with
  | bar => rfl
  | braces digits default? =>
    obtain ⟨number, closed⟩ := wellFormed
    have close : isDecimalDigit '}' = false := by decide +kernel
    have colon : isDecimalDigit ':' = false := by decide +kernel
    cases default? with
    | none =>
      have stop : Stops isDecimalDigit ('}' :: rest) := stops_cons.mpr close
      rw [chars_number, Formatter.leadingSlot?, Formatter.slot?]
      simp only [takeWhile_run number stop, dropWhile_run number stop,
        slotIndex_eq position digits none]
      rfl
    | some text =>
      have stop : Stops isDecimalDigit (':' :: (text ++ '}' :: rest)) := stops_cons.mpr colon
      have inside : ∀ c ∈ text, decide (c ≠ '}') := fun c member =>
        decide_eq_true fun brace => closed text rfl (brace ▸ member)
      have ends : Stops (· ≠ '}') ('}' :: rest) := stops_cons.mpr (by decide)
      rw [chars_fallback, Formatter.leadingSlot?, Formatter.slot?]
      simp only [takeWhile_run number stop, dropWhile_run number stop, takeWhile_run inside ends,
        dropWhile_run inside ends, slotIndex_eq position digits (some text)]
      rfl

/-- What is read as a slot is a placeholder. -/
theorem exists_of_leadingSlot? {piece : FormatPiece}
    (read : Formatter.leadingSlot? position s = some (piece, rest)) :
    ∃ placeholder : Placeholder, placeholder.IsWellFormed ∧ s = placeholder.chars ++ rest := by
  have number (s : List Char) : ∀ c ∈ s.takeWhile isDecimalDigit, isDecimalDigit c := fun _ =>
    List.mem_takeWhile_imp
  unfold Formatter.leadingSlot? at read
  split at read
  · next s =>
    obtain ⟨-, rfl⟩ := Prod.mk.inj (Option.some.inj read)
    exact ⟨bar, trivial, rfl⟩
  · next s =>
    have digits := List.takeWhile_append_dropWhile (p := isDecimalDigit) (l := s)
    unfold Formatter.slot? at read
    split at read
    · next t close =>
      obtain ⟨-, rfl⟩ := Prod.mk.inj (Option.some.inj read)
      rw [close] at digits
      refine ⟨braces _ none, ⟨number s, fun _ none => nomatch none⟩, ?_⟩
      rw [chars_number, digits]
    · next t colon =>
      have text := List.takeWhile_append_dropWhile (p := (· ≠ '}')) (l := t)
      rw [colon] at digits
      split at read
      · contradiction
      · next c t' close =>
        obtain ⟨-, rfl⟩ := Prod.mk.inj (Option.some.inj read)
        have stop : Stops (· ≠ '}') (c :: t') := close ▸ stops_dropWhile _ t
        obtain rfl : c = '}' := of_not_not (of_decide_eq_false (stops_cons.mp stop))
        rw [close] at text
        refine ⟨braces _ (some (t.takeWhile (· ≠ '}'))), ⟨number s, ?_⟩, ?_⟩
        · rintro _ ⟨⟩ member
          exact absurd (List.mem_takeWhile_imp member) (by decide)
        · rw [chars_fallback, text, digits]
    · contradiction
  · contradiction

theorem chars_braces (digits : List Char) (default? : Option (List Char)) :
    (braces digits default?).chars =
      '$' :: '{' :: (digits ++ (default?.elim [] (':' :: ·) ++ ['}'])) := by
  cases default? <;> simp [chars]

/-- What stands behind the number is no digit. -/
theorem stops_fallback (default? : Option (List Char)) :
    Stops isDecimalDigit (default?.elim [] (':' :: ·) ++ ['}']) := by
  cases default? <;> exact stops_cons.mpr (by decide +kernel)

/-- A placeholder is the only one with its characters. -/
theorem eq_of_chars_eq {other : Placeholder} (wellFormed : placeholder.IsWellFormed)
    (otherWellFormed : other.IsWellFormed) (same : placeholder.chars = other.chars) :
    placeholder = other := by
  cases placeholder with
  | bar =>
    cases other with
    | bar => rfl
    | braces _ default? => cases default? <;> simp [chars] at same
  | braces digits default? =>
    cases other with
    | bar => cases default? <;> simp [chars] at same
    | braces otherDigits otherDefault? =>
      rw [chars_braces, chars_braces] at same
      have inside := (List.cons.inj (List.cons.inj same).2).2
      have number := congrArg (List.takeWhile isDecimalDigit) inside
      have closing := congrArg (List.dropWhile isDecimalDigit) inside
      rw [takeWhile_run wellFormed.1 (stops_fallback _),
        takeWhile_run otherWellFormed.1 (stops_fallback _)] at number
      rw [dropWhile_run wellFormed.1 (stops_fallback _),
        dropWhile_run otherWellFormed.1 (stops_fallback _)] at closing
      have text := List.append_cancel_right closing
      have fallback : default? = otherDefault? := by
        cases default? <;> cases otherDefault? <;> simp_all
      rw [number, fallback]

/-- A placeholder at the front of a text is the only one there. -/
theorem chars_append_inj {other : Placeholder} {otherRest : List Char}
    (wellFormed : placeholder.IsWellFormed) (otherWellFormed : other.IsWellFormed)
    (same : placeholder.chars ++ rest = other.chars ++ otherRest) :
    placeholder = other ∧ rest = otherRest := by
  have here := leadingSlot?_chars wellFormed 0 rest
  rw [same, leadingSlot?_chars otherWellFormed] at here
  obtain ⟨-, rfl⟩ := Prod.mk.inj (Option.some.inj here)
  exact ⟨eq_of_chars_eq wellFormed otherWellFormed (List.append_cancel_right same), rfl⟩

end Placeholder

/-- A placeholder and the text between it and the placeholder before. -/
structure Part where
  gap : List Char
  placeholder : Placeholder

/-- No placeholder begins in `gap`, given what follows. -/
def IsVerbatim (gap rest : List Char) : Prop :=
  ∀ back, back <:+ gap → back ≠ [] →
    ∀ placeholder : Placeholder, placeholder.IsWellFormed → ¬ placeholder.chars <+: back ++ rest

/-- The text cut at its placeholders from left to right, and what is left behind the last. -/
inductive IsCut : List Char → List Part → List Char → Prop where
  | behind {tail : List Char} (verbatim : IsVerbatim tail []) : IsCut tail [] tail
  | part {gap rest tail : List Char} {placeholder : Placeholder} {parts : List Part}
      (verbatim : IsVerbatim gap (placeholder.chars ++ rest))
      (wellFormed : placeholder.IsWellFormed) (cut : IsCut rest parts tail) :
      IsCut (gap ++ (placeholder.chars ++ rest)) (⟨gap, placeholder⟩ :: parts) tail

section Cutting

variable {s gap rest tail : List Char} {c : Char} {parts : List Part}

/-- A placeholder begins where a slot is read, whatever its position. -/
theorem leadingSlot?_eq_none_iff (position : Nat) :
    Formatter.leadingSlot? position s = none ↔
      ∀ placeholder : Placeholder, placeholder.IsWellFormed → ¬ placeholder.chars <+: s := by
  constructor
  · rintro none placeholder wellFormed ⟨rest, rfl⟩
    rw [placeholder.leadingSlot?_chars wellFormed] at none
    contradiction
  · intro clear
    cases read : Formatter.leadingSlot? position s with
    | none => rfl
    | some found =>
      obtain ⟨placeholder, wellFormed, rfl⟩ := Placeholder.exists_of_leadingSlot? read
      exact absurd (List.prefix_append _ _) (clear placeholder wellFormed)

theorem isVerbatim_iff :
    IsVerbatim gap rest ↔
      ∀ back ∈ gap.tails, back ≠ [] → Formatter.leadingSlot? 0 (back ++ rest) = none := by
  simp only [IsVerbatim, List.mem_tails, leadingSlot?_eq_none_iff]

theorem isVerbatim_nil (rest : List Char) : IsVerbatim [] rest :=
  fun _ suffix nonempty => absurd (List.suffix_nil.mp suffix) nonempty

theorem isVerbatim_cons :
    IsVerbatim (c :: gap) rest ↔
      Formatter.leadingSlot? 0 (c :: (gap ++ rest)) = none ∧ IsVerbatim gap rest := by
  simp only [isVerbatim_iff, List.tails_cons, List.forall_mem_cons]
  exact and_congr_left fun _ => ⟨fun here => here (List.cons_ne_nil _ _), fun none _ => none⟩

/-- A character that begins no placeholder is part of the text in front of the next. -/
theorem IsCut.cons (cut : IsCut s parts tail) (none : Formatter.leadingSlot? 0 (c :: s) = none) :
    ∃ parts tail, IsCut (c :: s) parts tail := by
  cases cut with
  | behind verbatim =>
    refine ⟨[], c :: s, .behind (isVerbatim_cons.mpr ⟨?_, verbatim⟩)⟩
    rwa [List.append_nil]
  | part verbatim wellFormed cut =>
    exact ⟨_, tail, .part (isVerbatim_cons.mpr ⟨none, verbatim⟩) wellFormed cut⟩

/-- Every text can be cut. -/
theorem exists_isCut (s : List Char) : ∃ parts tail, IsCut s parts tail := by
  match read : Formatter.leadingSlot? 0 s with
  | some (piece, rest) =>
    have shorter := Formatter.leadingSlot?_length_lt read
    obtain ⟨placeholder, wellFormed, rfl⟩ := Placeholder.exists_of_leadingSlot? read
    obtain ⟨parts, tail, cut⟩ := exists_isCut rest
    exact ⟨_, tail, .part (isVerbatim_nil _) wellFormed cut⟩
  | none =>
    match s with
    | [] => exact ⟨[], [], .behind (isVerbatim_nil [])⟩
    | c :: rest =>
      obtain ⟨parts, tail, cut⟩ := exists_isCut rest
      exact cut.cons read
termination_by s.length

/-- Where no placeholder begins in `gap`, the first one stands behind it. -/
theorem IsVerbatim.prefix_of_append {placeholder : Placeholder} {front behind : List Char}
    (verbatim : IsVerbatim gap rest) (wellFormed : placeholder.IsWellFormed)
    (same : front ++ (placeholder.chars ++ behind) = gap ++ rest) :
    ∃ middle, front = gap ++ middle ∧ rest = middle ++ (placeholder.chars ++ behind) := by
  obtain ⟨middle, inside, left⟩ | later := List.append_eq_append_iff.mp same
  · cases middle with
    | nil => exact ⟨[], by rw [inside, List.append_nil, List.append_nil], left.symm⟩
    | cons c middle =>
      refine absurd ⟨behind, left⟩ (verbatim (c :: middle) ?_ (List.cons_ne_nil _ _) _ wellFormed)
      exact inside ▸ List.suffix_append _ _
  · exact later

/-- There is one way to cut a text. -/
theorem IsCut.unique {otherParts : List Part} {otherTail : List Char} (cut : IsCut s parts tail)
    (other : IsCut s otherParts otherTail) : parts = otherParts ∧ tail = otherTail := by
  induction cut generalizing otherParts with
  | @behind tail verbatim =>
    cases other with
    | behind => exact ⟨rfl, rfl⟩
    | @part _ _ _ placeholder _ _ wellFormed _ =>
      obtain ⟨middle, -, none⟩ :=
        verbatim.prefix_of_append wellFormed (List.append_nil _).symm
      simp [placeholder.chars_ne_nil] at none
  | @part gap rest tail placeholder parts verbatim wellFormed cut ih =>
    generalize text : gap ++ (placeholder.chars ++ rest) = s at other
    cases other with
    | behind otherVerbatim =>
      obtain ⟨middle, -, none⟩ :=
        otherVerbatim.prefix_of_append wellFormed (text.trans (List.append_nil _).symm)
      simp [placeholder.chars_ne_nil] at none
    | @part otherGap _ _ _ _ otherVerbatim otherWellFormed other =>
      obtain ⟨_, longer, -⟩ := otherVerbatim.prefix_of_append wellFormed text
      obtain ⟨_, shorter, -⟩ := verbatim.prefix_of_append otherWellFormed text.symm
      have equal : gap.length = otherGap.length := by
        have atLeast := congrArg List.length longer
        have atMost := congrArg List.length shorter
        rw [List.length_append] at atLeast atMost
        omega
      obtain ⟨rfl, behind⟩ := List.append_inj text equal
      obtain ⟨rfl, rfl⟩ := Placeholder.chars_append_inj wellFormed otherWellFormed behind
      obtain ⟨rfl, rfl⟩ := ih other
      exact ⟨rfl, rfl⟩

/-- Each placeholder takes up a character at least. -/
theorem IsCut.length_le (cut : IsCut s parts tail) : parts.length ≤ s.length := by
  induction cut with
  | behind => exact Nat.zero_le _
  | @part gap rest tail placeholder parts _ _ _ ih =>
    have filled := List.length_pos_iff.mpr placeholder.chars_ne_nil
    simp only [List.length_cons, List.length_append]
    omega

end Cutting

end Shorthand.Style
