import Shorthand.Proofs.Grammar.Depth

/-! What comes with a question. A reading that asks for an alias says how the text of the
alias is to be read: as a whole abbreviation, with what room is left for nesting. -/
namespace Shorthand.Abbreviation

variable {α β : Type}

/-- All of a text as one expression, which may hold `room` levels of expressions. -/
def whole (limits : Limits) (room : Nat) : List Char → Inquiry Node :=
  complete (expression limits room)

/-- With less room a text is read the same, except that it may be given up. -/
theorem whole_cut (limits : Limits) {room room' : Nat} (le : room ≤ room') (s : List Char) :
    Inquiry.Cut (whole limits room s) (whole limits room' s) :=
  complete_cut (expression_cut limits le) s

/-- Every question comes with one of the ways to read a text. -/
def Inquiry.AsksWith (texts : (List Char → Inquiry Node) → Prop) : Inquiry α → Prop
  | .done _ => True
  | .ask _ text reply => texts text ∧ ∀ tree, (reply tree).AsksWith texts

namespace Inquiry.AsksWith

variable {texts : (List Char → Inquiry Node) → Prop} {i : Inquiry α}

theorem bind (first : i.AsksWith texts) {next : α → Inquiry β}
    (step : ∀ value, (next value).AsksWith texts) : (i >>= next).AsksWith texts := by
  change (i.bind next).AsksWith texts
  induction i with
  | done outcome =>
    cases outcome with
    | error failure => trivial
    | ok value => exact step value
  | ask name text reply _ ih => exact ⟨first.1, fun tree => ih tree (first.2 tree) step⟩

theorem done_bind {outcome : Except Failure α} {next : α → Inquiry β}
    (step : ∀ value, (next value).AsksWith texts) :
    (Inquiry.done outcome >>= next).AsksWith texts :=
  bind (i := .done outcome) trivial step

theorem mapFailure (first : i.AsksWith texts) (change : Failure → Failure) :
    (i.mapFailure change).AsksWith texts := by
  induction i with
  | done outcome => cases outcome <;> trivial
  | ask name text reply _ ih => exact ⟨first.1, fun tree => ih tree (first.2 tree)⟩

theorem bindOr (first : i.AsksWith texts) {otherwise : Inquiry β} {next : α → Inquiry β}
    (other : otherwise.AsksWith texts) (step : ∀ value, (next value).AsksWith texts) :
    (i.bindOr otherwise next).AsksWith texts := by
  induction i with
  | done outcome =>
    cases outcome with
    | error failure =>
      unfold Inquiry.bindOr
      split
      · trivial
      · exact other
    | ok value => exact step value
  | ask name text reply _ ih => exact ⟨first.1, fun tree => ih tree (first.2 tree) step⟩

end Inquiry.AsksWith

section Readers

variable {limits : Limits} {expression : Reader} {texts : (List Char → Inquiry Node) → Prop}
  (own : texts (complete expression)) (inner : ∀ s, (expression s).AsksWith texts)

include inner in
theorem complete_asksWith (s : List Char) : (complete expression s).AsksWith texts := by
  apply (inner s).bind
  intro result
  split <;> trivial

include own

theorem standsFor_asksWith (name : String) : (standsFor expression name).AsksWith texts :=
  ⟨own, fun _ => trivial⟩

theorem expandTag_asksWith (tag : Tag) : (expandTag expression tag).AsksWith texts := by
  unfold expandTag
  split
  · trivial
  · apply (standsFor_asksWith own _).bind
    intro tree
    cases tree <;> trivial

theorem namedNode_asksWith (name : List Char) (tag : Tag) :
    (namedNode expression name tag).AsksWith texts := by
  unfold namedNode
  split
  · trivial
  · exact expandTag_asksWith own tag

theorem expandShorthand_asksWith (node : Node) :
    (expandShorthand expression node).AsksWith texts := by
  unfold expandShorthand
  split
  · trivial
  · apply (standsFor_asksWith own _).bind
    intro tree
    cases tree <;> trivial

include inner

theorem atom_asksWith (s : List Char) : (atom expression s).AsksWith texts := by
  unfold atom
  split
  · apply ((inner _).mapFailure _).bind
    intro result
    split <;> trivial
  · exact .done_bind fun _ => trivial
  · split
    · exact .done_bind fun (tag, _) => (namedNode_asksWith own _ tag).bind fun _ => trivial
    · split
      · exact .done_bind fun (tag, _) => (expandTag_asksWith own tag).bind fun _ => trivial
      · trivial
  · trivial

theorem operand_asksWith (s : List Char) : (operand limits expression s).AsksWith texts := by
  refine (atom_asksWith own inner s).bind fun (subject, rest) => .done_bind fun (count, rest) => ?_
  dsimp only
  split
  · apply ((inner _).mapFailure _).bind
    rintro ⟨child, rest⟩
    exact .done_bind fun _ => trivial
  · exact .done_bind fun _ => trivial

theorem furtherOperands_asksWith (bound : Nat) (operands : Operands) (s : List Char) :
    (furtherOperands limits expression bound operands s).AsksWith texts := by
  induction bound generalizing operands s with
  | zero => trivial
  | succ bound ih =>
    by_cases more : s.head? = some '+'
    · obtain ⟨s, rfl⟩ := List.head?_eq_some_iff.mp more
      rw [furtherOperands_plus]
      refine (operand_asksWith own inner s).bindOr ?_ fun (node, rest) => ih _ rest
      exact (expandShorthand_asksWith own _).bind fun node => ih _ s
    · rw [furtherOperands_end (.inr more)]
      trivial

theorem chain_asksWith (s : List Char) : (chain limits expression s).AsksWith texts := by
  apply (operand_asksWith own inner s).bind
  rintro ⟨first, rest⟩
  apply (furtherOperands_asksWith own inner _ _ rest).bind
  rintro ⟨operands, rest⟩
  exact .done_bind fun _ => trivial

end Readers

theorem expression_asksWith (limits : Limits) (room : Nat) (s : List Char) :
    (expression limits room s).AsksWith fun text => ∃ room, text = whole limits room := by
  induction room generalizing s with
  | zero => trivial
  | succ room ih => exact chain_asksWith ⟨room, rfl⟩ ih s

/-- An alias met in a text is read as a whole text, too. -/
theorem whole_asksWith (limits : Limits) (room : Nat) (s : List Char) :
    (whole limits room s).AsksWith fun text => ∃ room, text = whole limits room :=
  complete_asksWith (expression_asksWith limits room) s

end Shorthand.Abbreviation
