import Mathlib.Algebra.GroupWithZero.Nat
import Shorthand.Node.Copies
import Shorthand.Node.Merge

/-! How many nodes a tree has after an operation on it. Copies have as many nodes as their
original, and what a caller adds to an expansion adds no node. -/
namespace Shorthand.Node

variable {index limit : Nat}

theorem totalCount_eq_sum (items : List Node) : totalCount items = (items.map nodeCount).sum := by
  induction items with
  | nil => rfl
  | cons item rest ih => simp [totalCount, ih]

mutual

theorem nodeCount_instantiate (node : Node) :
    (node.instantiate index limit).nodeCount = node.nodeCount := by
  match node with
  | .tag _ | .text _ | .filler _ => rfl
  | .copies items | .chain items =>
    simp only [instantiate, nodeCount, totalCount_instantiateAll items]
  | .nested _ child => simp only [instantiate, nodeCount, nodeCount_instantiate child]
  | .filtered _ inner => simp only [instantiate, nodeCount, nodeCount_instantiate inner]

theorem totalCount_instantiateAll (items : List Node) :
    totalCount (instantiateAll index limit items) = totalCount items := by
  match items with
  | [] => rfl
  | item :: rest =>
    simp only [instantiateAll, totalCount, nodeCount_instantiate item,
      totalCount_instantiateAll rest]

end

theorem nodeCount_multiply (node : Node) (count : Nat) :
    (node.multiply count).nodeCount = 1 + count * node.nodeCount := by
  simp only [multiply, nodeCount, totalCount_eq_sum, List.map_map, Function.comp_def,
    nodeCount_instantiate, List.map_const', List.length_range, List.sum_replicate_nat]

mutual

theorem nodeCount_mapFirstTag? {change : Tag → Tag} {node new : Node}
    (h : node.mapFirstTag? change = some new) : new.nodeCount = node.nodeCount := by
  match node with
  | .tag _ | .nested _ _ =>
    obtain rfl := Option.some.inj h
    rfl
  | .chain items | .copies items =>
    obtain ⟨changed, inside, rfl⟩ := Option.map_eq_some_iff.mp h
    exact congrArg (1 + ·) (totalCount_mapFirstTagIn? inside)
  | .filtered filters inner =>
    obtain ⟨changed, inside, rfl⟩ := Option.map_eq_some_iff.mp h
    exact congrArg (1 + ·) (nodeCount_mapFirstTag? inside)
  | .text _ | .filler _ => contradiction

theorem totalCount_mapFirstTagIn? {change : Tag → Tag} {items new : List Node}
    (h : mapFirstTagIn? change items = some new) : totalCount new = totalCount items := by
  match items with
  | [] => contradiction
  | item :: rest =>
    rw [mapFirstTagIn?] at h
    split at h
    · next changed =>
      obtain rfl := Option.some.inj h
      exact congrArg (· + totalCount rest) (nodeCount_mapFirstTag? changed)
    · obtain ⟨changed, later, rfl⟩ := Option.map_eq_some_iff.mp h
      exact congrArg (item.nodeCount + ·) (totalCount_mapFirstTagIn? later)

end

theorem nodeCount_merge (expansion : Node) (caller : Tag) :
    (expansion.merge caller).nodeCount = expansion.nodeCount := by
  unfold merge
  cases h : expansion.mapFirstTag? caller.qualify with
  | none => rfl
  | some new => exact nodeCount_mapFirstTag? h

end Shorthand.Node
