import Shorthand.Node

/-! Hanging a child under a tree. The child goes below the deepest, rightmost tag;
below every copy of a multiplied tree; and beside the text of a tag that holds
nothing else. Text and filler text take no child. -/
namespace Shorthand.Node

/-- Whether the node is a run of text, so that a graft goes beside it and not into it. -/
def isRunningText : Node → Bool
  | .text _ | .filler _ => true
  | _ => false

mutual

/-- `tree.graft? child` is the tree with the child in its place, if it has one. -/
def graft? : (tree child : Node) → Option Node
  | .tag t, child => some (.nested t child)
  | .nested parent existing, child =>
    if existing.isRunningText then some (.nested parent (existing.sibling child))
    else (existing.graft? child).map (.nested parent)
  | .chain items, child => (graftLast? items child).map .chain
  | .copies items, child => (graftEach? items child).map .copies
  | .filtered filters inner, child => (inner.graft? child).map (.filtered filters)
  | .text _, _ | .filler _, _ => none

def graftLast? : List Node → Node → Option (List Node)
  | [], _ => none
  | [last], child => (last.graft? child).map ([·])
  | item :: next :: rest, child => (graftLast? (next :: rest) child).map (item :: ·)

def graftEach? : List Node → Node → Option (List Node)
  | [], _ => some []
  | item :: rest, child =>
    match item.graft? child, graftEach? rest child with
    | some item, some rest => some (item :: rest)
    | _, _ => none

end

end Shorthand.Node
