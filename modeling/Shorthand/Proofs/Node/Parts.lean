import Shorthand.Node

/-! What a tree is made of, wherever it stands in the tree. -/
namespace Shorthand.Node

mutual

/-- The tags, depth first and from the left. -/
def tags : Node → List Tag
  | .tag t => [t]
  | .nested parent child => parent :: child.tags
  | .chain items | .copies items => tagsIn items
  | .filtered _ inner => inner.tags
  | .text _ | .filler _ => []

def tagsIn : List Node → List Tag
  | [] => []
  | item :: rest => item.tags ++ tagsIn rest

end

mutual

/-- Whether filler text is asked for. -/
def hasFiller : Node → Bool
  | .filler _ => true
  | .tag _ | .text _ => false
  | .nested _ child => child.hasFiller
  | .chain items | .copies items => haveFiller items
  | .filtered _ inner => inner.hasFiller

def haveFiller : List Node → Bool
  | [] => false
  | item :: rest => item.hasFiller || haveFiller rest

end

/-- The nodes right below a node. -/
def children : Node → List Node
  | .nested _ child => [child]
  | .chain items | .copies items => items
  | .filtered _ inner => [inner]
  | .tag _ | .text _ | .filler _ => []

/-- The tree at the end of a path, which names a child by its position at every step. -/
def subtree? : List Nat → Node → Option Node
  | [], node => some node
  | position :: path, node => node.children[position]?.bind (subtree? path)

end Shorthand.Node
