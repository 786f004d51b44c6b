import Mathlib
import Shorthand.Expander
import Shorthand.Proofs.Grammar.Steps
import Shorthand.Proofs.Inquiry.Keeps
import Shorthand.Proofs.Node.Count

/-! The limit on nodes. A product of a multiplier is counted before the copies are made,
a graft before it is multiplied, and a chain when it is complete; nothing else makes a
tree larger than the trees that it is read from. So a tree that is read, and every tree
that is kept for an alias, has at most as many nodes as the limit says, and one more for
the node that holds the copies of the last multiplier. -/
namespace Shorthand.Abbreviation

variable {limits : Limits} {expression : Reader} {node : Node} {s : List Char}

/-- A tree within the limit, but for a node that holds copies. -/
def Fits (limits : Limits) (node : Node) : Prop := node.nodeCount ≤ limits.maxNodes + 1

/-- A tree that fits, or that is counted when it is complete. -/
def FitsWhenAdmitted (limits : Limits) (node : Node) : Prop := node.isChain ∨ Fits limits node

theorem fits_of_accept {result : Node} (h : accept limits node = .ok result) :
    Fits limits result := by
  unfold accept at h
  split at h
  · contradiction
  · next within =>
    obtain rfl := Except.ok.inj h
    exact Nat.le_succ_of_le (Nat.le_of_not_lt within)

/-- The product may stay at the greatest machine word, as long as the limit is below that: it is
found too large just the same. -/
theorem materialize_eq_saturating (below : limits.maxNodes < wordMax) (node : Node) (count : Nat) :
    materialize limits node (some count) =
      if limits.maxNodes < min (node.nodeCount * count) wordMax then
        .error (.exceeded .nodes limits.maxNodes)
      else .ok (node.multiply count) := by
  have verdict : limits.maxNodes < node.nodeCount * count ↔
      limits.maxNodes < min (node.nodeCount * count) wordMax := by
    rw [lt_min_iff, and_iff_left below]
  unfold materialize
  simp only [verdict]

theorem fits_of_materialize {count : Option Nat} {result : Node} (fits : Fits limits node)
    (h : materialize limits node count = .ok result) : Fits limits result := by
  unfold materialize at h
  split at h
  · obtain rfl := Except.ok.inj h
    exact fits
  · next count =>
    split at h
    · contradiction
    · next within =>
      obtain rfl := Except.ok.inj h
      have product : count * node.nodeCount ≤ limits.maxNodes := by
        rw [Nat.mul_comm]
        exact Nat.le_of_not_lt within
      rw [Fits, Node.nodeCount_multiply]
      omega

theorem fits_of_graftAndMaterialize {child result : Node} {count : Option Nat}
    (h : graftAndMaterialize limits node child count = .ok result) : Fits limits result := by
  unfold graftAndMaterialize at h
  split at h
  · contradiction
  · next grafted _ =>
    cases accepted : accept limits grafted with
    | error failure =>
      rw [accepted] at h
      contradiction
    | ok whole =>
      rw [accepted] at h
      exact fits_of_materialize (fits_of_accept accepted) h

theorem fits_of_admitChain {result : Node} (fits : FitsWhenAdmitted limits node)
    (h : admitChain limits node = .ok result) : Fits limits result := by
  unfold admitChain at h
  split at h
  · exact fits_of_accept h
  · next single =>
    obtain rfl := Except.ok.inj h
    exact fits.resolve_left single

theorem fits_merge (fits : Fits limits node) (caller : Tag) : Fits limits (node.merge caller) := by
  rw [Fits, Node.nodeCount_merge]
  exact fits

/-- A single node fits any limit. -/
theorem fits_of_nodeCount_eq (h : node.nodeCount = 1) : Fits limits node := by
  rw [Fits, h]
  exact Nat.le_add_left _ _

theorem fits_replaceLastOperand {new : Node} {tag : Tag} (fits : Fits limits new)
    (h : lastOperand? node = some tag) :
    FitsWhenAdmitted limits (replaceLastOperand new node) := by
  cases node with
  | tag _ => exact .inr fits
  | chain items => exact .inl rfl
  | _ => contradiction

namespace Operands

variable (operands : Operands)

theorem isChain_toNode (h : operands.later ≠ []) : operands.toNode.isChain := by
  unfold toNode
  split
  · next first reversed =>
    exact absurd (List.reverse_eq_nil_iff.mp reversed) h
  · rfl
  · rfl

theorem fits_push (node : Node) : FitsWhenAdmitted limits (operands.push node).toNode :=
  .inl (isChain_toNode _ (List.cons_ne_nil _ _))

theorem fits_replaceLast (fits : FitsWhenAdmitted limits node) :
    FitsWhenAdmitted limits (operands.replaceLast node).toNode := by
  obtain ⟨first, later⟩ := operands
  cases later with
  | nil => exact fits
  | cons last before => exact .inl (isChain_toNode _ (List.cons_ne_nil _ _))

end Operands

section Readers

/-- Given trees that fit, the reader reads trees that fit. -/
def ReadsFitting (limits : Limits) (reader : Reader) : Prop :=
  ∀ s, (reader s).Keeps (Fits limits) fun result => Fits limits result.1

variable (inner : ReadsFitting limits expression)

include inner

theorem complete_keeps (s : List Char) :
    (complete expression s).Keeps (Fits limits) (Fits limits) := by
  apply (inner s).bind
  rintro ⟨node, rest⟩ fits
  cases rest with
  | nil => exact fits
  | cons c rest => trivial

theorem standsFor_keeps (name : String) :
    (standsFor expression name).Keeps (Fits limits) fun tree => ∀ node ∈ tree, Fits limits node :=
  ⟨complete_keeps inner, fun _ given => given⟩

theorem expandTag_keeps (tag : Tag) :
    (expandTag expression tag).Keeps (Fits limits) (Fits limits) := by
  unfold expandTag
  split
  · exact fits_of_nodeCount_eq rfl
  · apply (standsFor_keeps inner _).bind
    intro tree given
    cases tree with
    | none => exact fits_of_nodeCount_eq rfl
    | some expansion => exact fits_merge (given expansion rfl) tag

theorem namedNode_keeps (name : List Char) (tag : Tag) :
    (namedNode expression name tag).Keeps (Fits limits) (Fits limits) := by
  unfold namedNode
  split
  · exact fits_of_nodeCount_eq rfl
  · exact expandTag_keeps inner tag

theorem group_readsFitting : ReadsFitting limits (group expression) := by
  intro s
  apply ((inner s).mapFailure _).bind
  rintro ⟨node, rest⟩ fits
  split
  · next heq =>
    obtain ⟨rfl, -⟩ := Prod.mk.inj heq
    exact fits
  · trivial

theorem atom_readsFitting : ReadsFitting limits (atom expression) := by
  intro s
  unfold atom
  split
  · exact group_readsFitting inner _
  · exact .done_bind fun _ _ => fits_of_nodeCount_eq rfl
  · split
    · exact .done_bind fun (tag, _) _ => (namedNode_keeps inner _ tag).bind fun _ fits => fits
    · split
      · exact .done_bind fun (tag, _) _ => (expandTag_keeps inner tag).bind fun _ fits => fits
      · trivial
  · trivial

theorem operand_readsFitting : ReadsFitting limits (operand limits expression) := by
  intro s
  apply (atom_readsFitting inner s).bind
  rintro ⟨subject, rest⟩ fits
  refine .done_bind fun (count, rest) _ => ?_
  dsimp only
  split
  · refine ((inner _).mapFailure _).bind fun (child, rest) _ => ?_
    exact .done_bind fun _ grafted => fits_of_graftAndMaterialize grafted
  · exact .done_bind fun _ copied => fits_of_materialize fits copied

theorem expandShorthand_keeps (node : Node) :
    (expandShorthand expression node).Keeps (Fits limits) (FitsWhenAdmitted limits) := by
  unfold expandShorthand
  split
  · trivial
  · next tag name found =>
    obtain ⟨last, operand, named⟩ := Option.bind_eq_some_iff.mp found
    apply (standsFor_keeps inner _).bind
    intro tree given
    cases tree with
    | none => trivial
    | some expansion => exact fits_replaceLastOperand (fits_merge (given expansion rfl) tag) operand

theorem furtherOperands_keeps (bound : Nat) (operands : Operands) (s : List Char)
    (fits : FitsWhenAdmitted limits operands.toNode) :
    (furtherOperands limits expression bound operands s).Keeps (Fits limits)
      fun result => FitsWhenAdmitted limits result.1.toNode := by
  induction bound generalizing operands s with
  | zero => exact fits
  | succ bound ih =>
    by_cases more : s.head? = some '+'
    · obtain ⟨s, rfl⟩ := List.head?_eq_some_iff.mp more
      rw [furtherOperands_plus]
      apply (operand_readsFitting inner s).bindOr
      · refine (expandShorthand_keeps inner _).bind fun node fits => ?_
        exact ih _ s (operands.fits_replaceLast fits)
      · exact fun (node, rest) _ => ih _ rest (operands.fits_push node)
    · rw [furtherOperands_end (.inr more)]
      exact fits

theorem chain_readsFitting : ReadsFitting limits (chain limits expression) := by
  intro s
  refine (operand_readsFitting inner s).bind fun (first, rest) fits => ?_
  refine (furtherOperands_keeps inner _ { first } rest (.inr fits)).bind ?_
  rintro ⟨operands, rest⟩ fits
  exact .done_bind fun _ admitted => fits_of_admitChain fits admitted

end Readers

theorem expression_readsFitting (limits : Limits) (room : Nat) :
    ReadsFitting limits (Abbreviation.expression limits room) := by
  induction room with
  | zero => exact fun _ => trivial
  | succ room ih => exact chain_readsFitting ih

theorem read_keeps {aliases : AliasTable} (entries : TreesAre (Fits limits) aliases)
    (abbreviation : String) :
    TreesAre (Fits limits) (read limits aliases abbreviation).1 ∧
      ∀ tree, (read limits aliases abbreviation).2 = .ok tree →
        ∃ inner, Fits limits inner ∧
          tree = withFilters (splitFilters abbreviation.toList).2 inner := by
  unfold read
  generalize splitFilters abbreviation.toList = split
  obtain ⟨body, filters⟩ := split
  have keeps := complete_keeps (expression_readsFitting limits limits.maxDepth) body
  obtain ⟨after, result⟩ : ((complete _ body).run [] { aliases }).Keeps _ _ := keeps.run entries
  refine ⟨after, fun tree h => ?_⟩
  obtain ⟨inner, ran, rfl⟩ := map_eq_ok.mp h
  exact ⟨inner, result inner ran, rfl⟩

end Shorthand.Abbreviation

namespace Shorthand.Expander

open Abbreviation

/-- No abbreviation and no alias is read to a tree beyond the limit on nodes. -/
theorem nodeCount_le_of_read (expander : Expander)
    (entries : ∀ name tree, expander.tables.aliases.get? name = some (.parsed tree) →
      tree.nodeCount ≤ expander.limits.maxNodes + 1)
    (abbreviation : String) :
    (∀ tree, (expander.read abbreviation).1 = .ok tree →
      ∃ inner, inner.nodeCount ≤ expander.limits.maxNodes + 1 ∧
        tree = withFilters (splitFilters abbreviation.toList).2 inner) ∧
    ∀ name tree, (expander.read abbreviation).2.tables.aliases.get? name = some (.parsed tree) →
      tree.nodeCount ≤ expander.limits.maxNodes + 1 := by
  have fitting : TreesAre (Fits expander.limits) expander.tables.aliases := entries
  obtain ⟨after, result⟩ := read_keeps fitting abbreviation
  exact ⟨result, after⟩

/-- An expander that admits three nodes. The alias `row` stands for three cells, and the
alias `tr+` has been read to a row with a cell. -/
def narrow : Expander where
  tables :=
    { aliases :=
        [("row", .source "td*3"),
          ("tr+", .parsed (.nested { name := .ofText "tr" } (.tag { name := .ofText "td" })))] }
  limits := { maxNodes := 3 }
  source := .ofSeed 0

/-- The cells of `row` are all that is admitted, with one node that holds them. -/
theorem nodeCount_le_of_read_row :
    ∃ cells, (narrow.read "row|e").1 = .ok (.filtered ["e"] cells) ∧
      cells.nodeCount = 4 ∧ cells.nodeCount ≤ narrow.limits.maxNodes + 1 := by
  have entries : ∀ name tree, narrow.tables.aliases.get? name = some (.parsed tree) →
      tree.nodeCount ≤ narrow.limits.maxNodes + 1 := by
    intro name tree stored
    have among := Table.mem_of_get? stored
    simp only [narrow, List.mem_cons, List.not_mem_nil, Prod.mk.injEq, reduceCtorEq, and_false,
      false_or, or_false, Alias.parsed.injEq] at among
    obtain ⟨-, rfl⟩ := among
    decide
  let cell : Node := .tag { name := .ofText "td" }
  have ran : (narrow.read "row|e").1 = .ok (.filtered ["e"] (.copies [cell, cell, cell])) := by cbv
  obtain ⟨cells, within, whole⟩ := (nodeCount_le_of_read narrow entries "row|e").1 _ ran
  have filters : (splitFilters "row|e".toList).2 = ["e"] := by cbv
  rw [filters] at whole
  obtain ⟨-, rfl⟩ := Node.filtered.inj whole
  exact ⟨_, ran, rfl, within⟩

end Shorthand.Expander
