import Shorthand.Proofs.Grammar.Steps
import Shorthand.Proofs.Scanning.Token

/-! Reading takes whole tokens. Whatever the aliases in it stand for, an expression ends
where a token ends. -/
namespace Shorthand.Abbreviation

/-- What the reader leaves of its input begins at a token. -/
def TakesTokens (reader : Reader) : Prop :=
  ∀ s, (reader s).Holds fun result => Takes s result.2

variable {limits : Limits} {expression : Reader}

theorem group_takes (inner : TakesTokens expression) : TakesTokens (group expression) := by
  intro s
  refine ((inner s).mapFailure _).bind ?_
  rintro ⟨node, rest⟩ taken
  split
  · next heq =>
    obtain ⟨rfl, rfl⟩ := Prod.mk.inj heq
    exact taken.trans (.next (by decide) (.done _))
  · trivial

theorem namedTag_takes : TakesTokens (namedTag expression) := by
  intro s
  apply Inquiry.Holds.done_bind
  rintro ⟨tag, rest⟩ h
  exact (Inquiry.holds_true _).bind fun _ _ => (tagName_takes s).trans (tagBody_takes h)

theorem impliedTag_takes : TakesTokens (impliedTag expression) := by
  intro s
  apply Inquiry.Holds.done_bind
  rintro ⟨tag, rest⟩ h
  exact (Inquiry.holds_true _).bind fun _ _ => tagBody_takes h

theorem textNode_takes (s : List Char) :
    (textNode s).Holds fun result => Takes ('{' :: s) result.2 := by
  apply Inquiry.Holds.done_bind
  rintro ⟨content, rest⟩ h
  exact .text (bracedText_eq_ok.mp h) (.done _)

theorem atom_takes (inner : TakesTokens expression) : TakesTokens (atom expression) := by
  intro s
  unfold atom
  split
  · next rest =>
    exact (group_takes inner rest).mono fun _ => .next (by decide)
  · next rest => exact textNode_takes rest
  · split
    · exact namedTag_takes _
    · split
      · exact impliedTag_takes _
      · trivial
  · trivial

theorem operand_takes (inner : TakesTokens expression) :
    TakesTokens (operand limits expression) := by
  intro s
  apply (atom_takes inner s).bind
  rintro ⟨subject, rest⟩ taken
  refine .done_bind ?_
  rintro ⟨count, rest⟩ h
  have taken : Takes s rest := taken.trans (repeatCount_takes h)
  dsimp only
  split
  · next below heq =>
    obtain ⟨rfl, rfl⟩ := Prod.mk.inj heq
    have below : Takes s below := taken.trans (.next (by decide) (.done _))
    apply ((inner _).mapFailure _).bind
    rintro ⟨child, rest⟩ childTaken
    exact .done_bind fun _ _ => below.trans childTaken
  · next heq =>
    obtain ⟨rfl, rfl⟩ := Prod.mk.inj heq
    exact .done_bind fun _ _ => taken

theorem furtherOperands_takes (inner : TakesTokens expression) (bound : Nat) (operands : Operands)
    (s : List Char) :
    (furtherOperands limits expression bound operands s).Holds fun result => Takes s result.2 := by
  induction bound generalizing operands s with
  | zero => exact .done s
  | succ bound ih =>
    by_cases more : s.head? = some '+'
    · obtain ⟨s, rfl⟩ := List.head?_eq_some_iff.mp more
      have plus : Takes ('+' :: s) s := .next (by decide) (.done _)
      rw [furtherOperands_plus]
      refine (operand_takes inner s).bindOr (fun (node, rest) taken => ?_) ?_
      · exact (ih _ rest).mono fun _ further => plus.trans (taken.trans further)
      · apply (Inquiry.holds_true _).bind
        intro node _
        exact (ih _ s).mono fun _ further => plus.trans further
    · rw [furtherOperands_end (.inr more)]
      exact .done s

theorem chain_takes (inner : TakesTokens expression) : TakesTokens (chain limits expression) := by
  intro s
  apply (operand_takes inner s).bind
  rintro ⟨first, rest⟩ taken
  apply (furtherOperands_takes inner _ _ rest).bind
  rintro ⟨operands, rest⟩ further
  exact .done_bind fun _ _ => taken.trans further

/-- An expression takes whole tokens, at any depth. -/
theorem expression_takes (limits : Limits) (room : Nat) :
    TakesTokens (Abbreviation.expression limits room) := by
  induction room with
  | zero => exact fun s => trivial
  | succ room ih => exact chain_takes ih

end Shorthand.Abbreviation
