import Mathlib.Data.List.Range
import Shorthand.Node.Copies
import Shorthand.Proofs.Node.Count
import Shorthand.Proofs.Node.Templates

/-! The numbers of copies. A copy has the shape of its original and no numbering token, and
a tree without tokens is its own copy, so a token takes its number from the nearest
multiplier around it. A token that counts down shows in a copy what it would show in the
mirrored copy if it counted up: with all directions reversed the copies stand in reverse. -/
namespace Shorthand

variable {index limit : Nat}

section Tokens

theorem Template.numbers_ofChars (s : List Char) : (ofChars s).numbers = [] := by
  simp [numbers, ofChars, Piece.number?]

theorem Template.resolve_ofChars (s : List Char) (index limit : Nat) :
    (ofChars s).resolve index limit = ofChars s := by
  simp [resolve, chars, ofChars, List.flatMap_map, Piece.chars]

/-- A template without tokens is a text. -/
theorem Template.numbers_eq_nil_iff {t : Template} : t.numbers = [] ↔ ∃ s, t = ofChars s := by
  constructor
  · obtain ⟨pieces⟩ := t
    intro none
    induction pieces with
    | nil => exact ⟨[], rfl⟩
    | cons piece pieces ih =>
      cases piece with
      | number n => contradiction
      | char c =>
        obtain ⟨s, same⟩ := ih none
        exact ⟨c :: s, congrArg (fun t : Template => Template.mk (.char c :: t.pieces)) same⟩
  · rintro ⟨s, rfl⟩
    exact numbers_ofChars s

/-- The same token in the other direction. -/
def Numbering.flip (n : Numbering) : Numbering := { n with ascending := !n.ascending }

def Piece.flip : Piece → Piece
  | .char c => .char c
  | .number n => .number n.flip

def Template.flip (t : Template) : Template := ⟨t.pieces.map Piece.flip⟩

theorem Numbering.value_flip (n : Numbering) (inside : index < limit) :
    n.flip.value index limit = n.value (limit - 1 - index) limit := by
  have back : limit - 1 - (limit - 1 - index) = index := by omega
  cases up : n.ascending with
  | true => simp [flip, value, up]
  | false => simp [flip, value, up, back]

theorem Piece.chars_flip (piece : Piece) (inside : index < limit) :
    piece.flip.chars index limit = piece.chars (limit - 1 - index) limit := by
  cases piece with
  | char c => rfl
  | number n =>
    simp only [flip, chars, Numbering.digits, n.value_flip inside]
    rfl

theorem Template.resolve_flip (t : Template) (inside : index < limit) :
    t.flip.resolve index limit = t.resolve (limit - 1 - index) limit := by
  simp only [resolve, Template.chars, flip, List.flatMap_map, Piece.chars_flip _ inside]

theorem Template.numbers_flip (t : Template) : t.flip.numbers = t.numbers.map Numbering.flip := by
  have piece : ∀ piece : Piece, piece.flip.number? = piece.number?.map Numbering.flip := by
    intro piece
    cases piece <;> rfl
  simp only [numbers, flip, List.filterMap_map, Function.comp_def, piece, List.map_filterMap]

end Tokens

namespace Node

section Instances

mutual

theorem instantiate_eq (index limit : Nat) (node : Node) :
    node.instantiate index limit = node.mapTemplates (·.resolve index limit) := by
  match node with
  | .tag _ | .text _ | .filler _ => rfl
  | .copies items => exact congrArg copies (instantiateAll_eq_mapTemplatesIn index limit items)
  | .chain items => exact congrArg chain (instantiateAll_eq_mapTemplatesIn index limit items)
  | .nested parent child =>
    exact congrArg (nested (parent.instantiate index limit)) (instantiate_eq index limit child)
  | .filtered filters inner =>
    exact congrArg (filtered filters) (instantiate_eq index limit inner)

theorem instantiateAll_eq_mapTemplatesIn (index limit : Nat) (items : List Node) :
    instantiateAll index limit items = mapTemplatesIn (·.resolve index limit) items := by
  match items with
  | [] => rfl
  | item :: rest =>
    rw [instantiateAll, mapTemplatesIn, instantiate_eq index limit item,
      instantiateAll_eq_mapTemplatesIn index limit rest]

end

/-- No token is left in a copy. -/
theorem numbers_instantiate (index limit : Nat) (node : Node) :
    (node.instantiate index limit).numbers = [] := by
  rw [numbers, instantiate_eq, templates_mapTemplates, List.flatMap_map, List.flatMap_eq_nil_iff]
  intro t _
  exact Template.numbers_ofChars _

theorem shape_instantiate (index limit : Nat) (node : Node) :
    (node.instantiate index limit).shape = node.shape := by
  rw [instantiate_eq, shape_mapTemplates]

/-- A tree without tokens is its own copy. -/
theorem instantiate_eq_self {node : Node} (plain : node.numbers = []) (index limit : Nat) :
    node.instantiate index limit = node := by
  rw [instantiate_eq]
  apply mapTemplates_eq_self
  intro t member
  obtain ⟨s, rfl⟩ := Template.numbers_eq_nil_iff.mp (List.flatMap_eq_nil_iff.mp plain t member)
  exact Template.resolve_ofChars s index limit

theorem subtree?_instantiate (index limit : Nat) (path : List Nat) (node : Node) :
    (node.instantiate index limit).subtree? path =
      (node.subtree? path).map (instantiate index limit) := by
  rw [instantiate_eq, subtree?_mapTemplates]
  exact Option.map_congr fun inner _ => (instantiate_eq index limit inner).symm

theorem numbers_multiply (node : Node) (count : Nat) : (node.multiply count).numbers = [] := by
  rw [multiply, numbers, templates, templatesIn_eq, List.flatMap_assoc, List.flatMap_map,
    List.flatMap_eq_nil_iff]
  intro index _
  exact numbers_instantiate index count node

end Instances

/-- A copy has no token and the shape of its original, and a tree without tokens is its own
copy. So what a multiplier makes stays as it is under every multiplier outside, and consists
of the copies in their order. -/
theorem multiply_binds_numbers (node : Node) (count : Nat) :
    (∀ index limit, (node.instantiate index limit).numbers = [] ∧
      (node.instantiate index limit).shape = node.shape ∧
      (node.instantiate index limit).nodeCount = node.nodeCount) ∧
    (node.numbers = [] → ∀ index limit, node.instantiate index limit = node) ∧
    (∀ (tree : Node) (path : List Nat), tree.subtree? path = some (node.multiply count) →
      ∀ index limit,
        (tree.instantiate index limit).subtree? path = some (node.multiply count)) ∧
    (∃ items, node.multiply count = .copies items ∧ items.length = count ∧
      ∀ index < count, items[index]? = some (node.instantiate index count)) ∧
    (node.multiply count).nodeCount = 1 + count * node.nodeCount := by
  refine ⟨?_, instantiate_eq_self, ?_, ?_, nodeCount_multiply node count⟩
  · intro index limit
    exact ⟨numbers_instantiate index limit node, shape_instantiate index limit node,
      nodeCount_instantiate node⟩
  · intro tree path here index limit
    rw [subtree?_instantiate, here, Option.map_some,
      instantiate_eq_self (numbers_multiply node count)]
  · refine ⟨_, rfl, by simp, ?_⟩
    intro index inside
    simp [inside]

/-- A list entry with a number in its class and one in its text, which counts down. -/
def entry : Node :=
  .nested { name := .ofText "li", classes := [⟨[.char 'n', .number ⟨2, true, 9⟩]⟩] }
    (.text ⟨[.number ⟨1, false, 1⟩, .char '.']⟩)

/-- Two entries in a list that has a number of its own. -/
def listing : Node :=
  .nested { name := .ofText "ul", id := some ⟨[.number ⟨1, true, 1⟩]⟩ } (entry.multiply 2)

/-- The entries keep their numbers when the list is copied. -/
theorem multiply_binds_numbers_listing :
    entry.multiply 2 = .copies
        [.nested { name := .ofText "li", classes := [.ofText "n09"] } (.text (.ofText "2.")),
          .nested { name := .ofText "li", classes := [.ofText "n10"] } (.text (.ofText "1."))] ∧
      listing.numbers = [⟨1, true, 1⟩] ∧
      listing.subtree? [0] = some (entry.multiply 2) ∧
      (listing.instantiate 4 7).subtree? [0] = some (entry.multiply 2) ∧
      (entry.multiply 2).numbers = [] ∧
      (entry.multiply 2).instantiate 4 7 = entry.multiply 2 := by
  have here : listing.subtree? [0] = some (entry.multiply 2) := rfl
  have plain : (entry.multiply 2).numbers = [] := by decide
  obtain ⟨-, -, inside, -⟩ := multiply_binds_numbers entry 2
  obtain ⟨-, self, -⟩ := multiply_binds_numbers (entry.multiply 2) 7
  exact ⟨rfl, by decide, here, inside listing [0] here 4 7, plain, self plain 4 7⟩

/-- The tree with the directions of all its tokens reversed. -/
def flip (node : Node) : Node := node.mapTemplates Template.flip

theorem numbers_flip (node : Node) : node.flip.numbers = node.numbers.map Numbering.flip := by
  simp only [flip, numbers, templates_mapTemplates, List.flatMap_map, Template.numbers_flip,
    List.map_flatMap]

theorem shape_flip (node : Node) : node.flip.shape = node.shape := shape_mapTemplates _ node

theorem instantiate_flip {index limit : Nat} (inside : index < limit) (node : Node) :
    node.flip.instantiate index limit = node.instantiate (limit - 1 - index) limit := by
  rw [flip, instantiate_eq, instantiate_eq, mapTemplates_mapTemplates]
  simp only [Template.resolve_flip _ inside]

/-- Counting in the other direction is counting from the other end: if every token of a tree
turns around, the copies are those of the tree in reverse order. -/
theorem multiply_flip_reverses (node : Node) (count : Nat) :
    node.flip.numbers = node.numbers.map Numbering.flip ∧ node.flip.shape = node.shape ∧
      ∃ items, items.length = count ∧ node.multiply count = .copies items ∧
        node.flip.multiply count = .copies items.reverse := by
  refine ⟨numbers_flip node, shape_flip node, _, ?_, rfl, ?_⟩
  · rw [List.length_map, List.length_range]
  · have mirrored : (List.range count).map (count - 1 - ·) = (List.range count).reverse := by
      rw [List.range_eq_range', List.reverse_range', ← List.range_eq_range']
      simp only [Nat.zero_add]
    rw [multiply, ← List.map_reverse, ← mirrored, List.map_map]
    congr 1
    apply List.map_congr_left
    intro index inside
    exact instantiate_flip (List.mem_range.mp inside) node

end Node

end Shorthand
