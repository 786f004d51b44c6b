import Shorthand.Proofs.Grammar.Tokens
import Shorthand.Proofs.Inquiry.Cut

/-! Reading deeper inside. An expression that is read with less room for nesting is the
same expression, except that it may be given up at the limit. -/
namespace Shorthand.Abbreviation

open Inquiry (Cut)

variable {limits : Limits} {expression expression' : Reader}

section Readers

variable (inner : ∀ s, Cut (expression s) (expression' s))

include inner

theorem complete_cut (s : List Char) : Cut (complete expression s) (complete expression' s) :=
  (inner s).bind fun _ => .refl _

theorem standsFor_cut (name : String) :
    Cut (standsFor expression name) (standsFor expression' name) :=
  .ask (complete_cut inner) fun _ => .refl _

theorem expandTag_cut (tag : Tag) : Cut (expandTag expression tag) (expandTag expression' tag) := by
  unfold expandTag
  split
  · exact .refl _
  · exact (standsFor_cut inner _).bind fun _ => .refl _

theorem group_cut (s : List Char) : Cut (group expression s) (group expression' s) :=
  ((inner s).mapFailure fun _ => rfl).bind fun _ => .refl _

theorem namedNode_cut (name : List Char) (tag : Tag) :
    Cut (namedNode expression name tag) (namedNode expression' name tag) := by
  unfold namedNode
  split
  · exact .refl _
  · exact expandTag_cut inner tag

theorem namedTag_cut (s : List Char) : Cut (namedTag expression s) (namedTag expression' s) :=
  .bind (.refl _) fun (tag, _) => (namedNode_cut inner _ tag).bind fun _ => .refl _

theorem impliedTag_cut (s : List Char) : Cut (impliedTag expression s) (impliedTag expression' s) :=
  .bind (.refl _) fun (tag, _) => (expandTag_cut inner tag).bind fun _ => .refl _

theorem atom_cut (s : List Char) : Cut (atom expression s) (atom expression' s) := by
  unfold atom
  split
  · exact group_cut inner _
  · exact .refl _
  · split
    · exact namedTag_cut inner _
    · split
      · exact impliedTag_cut inner _
      · exact .refl _
  · exact .refl _

theorem operand_cut (s : List Char) :
    Cut (operand limits expression s) (operand limits expression' s) := by
  refine (atom_cut inner s).bind fun (subject, rest) => .bind (.refl _) fun (count, rest) => ?_
  dsimp only
  split
  · refine ((inner _).mapFailure fun _ => rfl).bind fun _ => .refl _
  · exact .refl _

theorem expandShorthand_cut (node : Node) :
    Cut (expandShorthand expression node) (expandShorthand expression' node) := by
  unfold expandShorthand
  split
  · exact .refl _
  · exact (standsFor_cut inner _).bind fun _ => .refl _

theorem furtherOperands_cut (bound : Nat) (operands : Operands) (s : List Char) :
    Cut (furtherOperands limits expression bound operands s)
      (furtherOperands limits expression' bound operands s) := by
  induction bound generalizing operands s with
  | zero => exact .refl _
  | succ bound ih =>
    by_cases more : s.head? = some '+'
    · obtain ⟨s, rfl⟩ := List.head?_eq_some_iff.mp more
      rw [furtherOperands_plus, furtherOperands_plus]
      refine (operand_cut inner s).bindOr ?_ fun (node, rest) => ih _ rest
      exact (expandShorthand_cut inner _).bind fun node => ih _ s
    · rw [furtherOperands_end (.inr more), furtherOperands_end (.inr more)]
      exact .refl _

theorem chain_cut (s : List Char) : Cut (chain limits expression s) (chain limits expression' s) :=
  (operand_cut inner s).bind fun (first, rest) =>
    (furtherOperands_cut inner rest.length { first } rest).bind fun _ => .refl _

end Readers

/-- Less room gives the same reading up to the limit on nesting. -/
theorem expression_cut (limits : Limits) {room room' : Nat} (le : room ≤ room') (s : List Char) :
    Cut (Abbreviation.expression limits room s) (Abbreviation.expression limits room' s) := by
  induction room generalizing room' s with
  | zero => exact .exceeded _ _
  | succ room ih =>
    obtain ⟨room', rfl⟩ := Nat.exists_eq_add_one_of_ne_zero (Nat.ne_zero_of_lt le)
    exact chain_cut (fun s => ih (Nat.le_of_succ_le_succ le) s) s

end Shorthand.Abbreviation
