import Shorthand.Proofs.Grammar.Tokens

/-! Commitment. Once an operand has begun it is an operand or a failure: the failures
that leave room for something else are those in front of text that begins no atom. -/
namespace Shorthand.Abbreviation

variable {limits : Limits} {expression : Reader} {s : List Char} {failure : Failure}

theorem commit_isCommitted (failure : Failure) : failure.commit.isCommitted := by
  cases failure <;> rfl

theorem afterChild_isCommitted (failure : Failure) : failure.afterChild.isCommitted := by
  unfold Failure.afterChild
  split
  · assumption
  · rfl

theorem map_eq_error {α β : Type} {result : Except Failure α} {f : α → β} :
    result.map f = .error failure ↔ result = .error failure := by
  cases result <;> simp [Except.map]

/-- A construct was missing where reading had committed itself to it. -/
def IsMissing (failure : Failure) : Prop := ∃ expected, failure = .unmet expected true

theorem isMissing_unmet (expected : Expected) : IsMissing (.unmet expected true) := ⟨expected, rfl⟩

theorem IsMissing.isCommitted (missing : IsMissing failure) : failure.isCommitted := by
  obtain ⟨expected, rfl⟩ := missing
  rfl

theorem identifier_isMissing {missing : Expected} (h : identifier missing s = .error failure) :
    IsMissing failure := by
  unfold identifier at h
  split at h
  · obtain rfl := Except.error.inj h
    exact isMissing_unmet _
  · contradiction

theorem attributeList_isMissing {before : List (List Char × Written)}
    (h : attributeList before s = .error failure) : IsMissing failure := by
  fun_induction attributeList before s with
  | case1 => contradiction
  | case2 =>
    obtain rfl := Except.error.inj h
    exact isMissing_unmet _
  | case3 => next ih => exact ih h

theorem qualifiers_isMissing {before : List Qualifier}
    (h : qualifiers before s = .error failure) : IsMissing failure := by
  fun_induction qualifiers before s with
  | case1 before s failure hs =>
    obtain rfl := Except.error.inj h
    exact identifier_isMissing hs
  | case2 before s name middle hs ih => exact ih h
  | case3 before s failure hs =>
    obtain rfl := Except.error.inj h
    exact identifier_isMissing hs
  | case4 before s name middle hs ih => exact ih h
  | case5 before s failure hs =>
    obtain rfl := Except.error.inj h
    exact attributeList_isMissing (map_eq_error.mp hs)
  | case6 before s entries middle hs ih => exact ih h
  | case7 => contradiction

theorem bracedText_isMissing (h : bracedText s = .error failure) : IsMissing failure := by
  unfold bracedText at h
  split at h
  · obtain rfl := Except.error.inj h
    exact isMissing_unmet _
  · contradiction

theorem optionalText_isMissing (h : optionalText s = .error failure) : IsMissing failure := by
  unfold optionalText at h
  split at h
  · exact bracedText_isMissing (map_eq_error.mp h)
  · contradiction

theorem tagBody_isMissing {name : Template} {hasBody : Bool}
    (h : tagBody name hasBody s = .error failure) : IsMissing failure := by
  unfold tagBody at h
  split at h
  · next hs =>
    obtain rfl := Except.error.inj h
    exact qualifiers_isMissing hs
  · exact optionalText_isMissing (map_eq_error.mp h)

theorem repeatCount_isMissing (h : repeatCount s = .error failure) : IsMissing failure := by
  unfold repeatCount at h
  split at h
  · split at h
    · obtain rfl := Except.error.inj h
      exact isMissing_unmet _
    · split at h
      · obtain rfl := Except.error.inj h
        exact isMissing_unmet _
      · contradiction
  · contradiction

theorem accept_eq_error {node : Node} :
    accept limits node = .error failure ↔
      limits.maxNodes < node.nodeCount ∧ failure = .exceeded .nodes limits.maxNodes := by
  unfold accept
  split
  · next many => simp [many, eq_comm]
  · next within => simp [within]

theorem admitChain_eq_error {node : Node} :
    admitChain limits node = .error failure ↔
      (node.isChain ∧ limits.maxNodes < node.nodeCount) ∧
        failure = .exceeded .nodes limits.maxNodes := by
  unfold admitChain
  split
  · next chain => rw [accept_eq_error, and_iff_right chain]
  · next single => simp [single]

theorem materialize_eq_error {node : Node} {count : Option Nat} :
    materialize limits node count = .error failure ↔
      (∃ n, count = some n ∧ limits.maxNodes < node.nodeCount * n) ∧
        failure = .exceeded .nodes limits.maxNodes := by
  unfold materialize
  split
  · simp
  · split
    · next many => simp [many, eq_comm]
    · next within => simp [within]

/-- A graft fails without a place for the child, or at the limit: as it is, or copied. -/
theorem graftAndMaterialize_eq_error {subject child : Node} {count : Option Nat} :
    graftAndMaterialize limits subject child count = .error failure ↔
      (subject.graft? child = none ∧ failure = .unmet .parentTag true) ∨
        (∃ whole, subject.graft? child = some whole ∧
          (limits.maxNodes < whole.nodeCount ∨
            ∃ n, count = some n ∧ limits.maxNodes < whole.nodeCount * n)) ∧
          failure = .exceeded .nodes limits.maxNodes := by
  unfold graftAndMaterialize
  cases subject.graft? child with
  | none => simp [eq_comm]
  | some whole =>
    dsimp only
    unfold accept
    split
    · next many => simp [many, Except.bind, eq_comm]
    · next within => simp [within, Except.bind, materialize_eq_error]

theorem expandTag_committed (tag : Tag) : (expandTag expression tag).Committed := by
  unfold expandTag
  split
  · trivial
  · intro tree
    cases tree <;> trivial

theorem namedNode_committed (name : List Char) (tag : Tag) :
    (namedNode expression name tag).Committed := by
  unfold namedNode
  split
  · trivial
  · exact expandTag_committed tag

theorem atom_committed (h : startsAtom s) : (atom expression s).Committed := by
  unfold atom
  split
  · apply (Inquiry.committed_mapFailure commit_isCommitted _).bind
    intro result
    split
    · trivial
    · rfl
  · exact .done_bind (fun _ h => (bracedText_isMissing h).isCommitted) fun _ => trivial
  · split
    · refine .done_bind (fun _ h => (tagBody_isMissing h).isCommitted) ?_
      rintro ⟨tag, rest⟩
      exact (namedNode_committed _ tag).bind fun _ => trivial
    · split
      · refine .done_bind (fun _ h => (tagBody_isMissing h).isCommitted) ?_
        rintro ⟨tag, rest⟩
        exact (expandTag_committed tag).bind fun _ => trivial
      · next group text named implied =>
        simp_all [startsAtom]
  · contradiction

theorem operand_committed (h : startsAtom s) : (operand limits expression s).Committed := by
  apply (atom_committed h).bind
  rintro ⟨subject, rest⟩
  refine .done_bind (fun _ h => (repeatCount_isMissing h).isCommitted) ?_
  rintro ⟨count, rest⟩
  dsimp only
  split
  · apply (Inquiry.committed_mapFailure afterChild_isCommitted _).bind
    rintro ⟨child, rest⟩
    refine .done_bind (fun failure h => ?_) fun _ => trivial
    obtain ⟨-, rfl⟩ | ⟨-, rfl⟩ := graftAndMaterialize_eq_error.mp h <;> rfl
  · refine .done_bind (fun failure h => ?_) fun _ => trivial
    obtain ⟨-, rfl⟩ := materialize_eq_error.mp h
    rfl

/-- An operand leaves room for something else only where none begins. -/
theorem startsAtom_of_soft {opened : List String} {memory after : Memory}
    (ran : (operand limits expression s).run opened memory = (after, .error failure))
    (soft : ¬failure.isCommitted) : startsAtom s = false ∧ after = memory := by
  by_cases h : startsAtom s
  · exact absurd ((operand_committed h).run ran) soft
  · have h := Bool.eq_false_iff.mpr h
    rw [operand_eq_fail h] at ran
    exact ⟨h, (Prod.mk.inj ran).1.symm⟩

theorem expandShorthand_committed (node : Node) :
    (expandShorthand expression node).Committed := by
  unfold expandShorthand
  split
  · rfl
  · intro tree
    cases tree with
    | none => rfl
    | some expansion => trivial

theorem furtherOperands_committed (bound : Nat) (operands : Operands) (s : List Char) :
    (furtherOperands limits expression bound operands s).Committed := by
  induction bound generalizing operands s with
  | zero => trivial
  | succ bound ih =>
    by_cases more : s.head? = some '+'
    · obtain ⟨s, rfl⟩ := List.head?_eq_some_iff.mp more
      rw [furtherOperands_plus]
      refine .bindOr _ ?_ fun (node, rest) => ih _ rest
      exact (expandShorthand_committed _).bind fun node => ih _ s
    · rw [furtherOperands_end (.inr more)]
      trivial

theorem chain_committed (h : startsAtom s) : (chain limits expression s).Committed := by
  apply (operand_committed h).bind
  rintro ⟨first, rest⟩
  apply (furtherOperands_committed _ _ rest).bind
  rintro ⟨operands, rest⟩
  refine .done_bind (fun failure h => ?_) fun _ => trivial
  obtain ⟨-, rfl⟩ := admitChain_eq_error.mp h
  rfl

theorem complete_committed (inner : (expression s).Committed) :
    (complete expression s).Committed := by
  apply inner.bind
  rintro ⟨node, rest⟩
  cases rest with
  | nil => trivial
  | cons c rest => rfl

end Shorthand.Abbreviation
