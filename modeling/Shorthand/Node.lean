import Shorthand.Template

/-! The tree that an abbreviation describes: tags with their qualifiers, free
text, siblings, copies made by a multiplier, and requests for filler text. -/
namespace Shorthand

structure Tag where
  name : Template
  hasBody : Bool := true
  id : Option Template := none
  classes : List Template := []
  properties : List (String × Template) := []
  text : Option Template := none
deriving DecidableEq

inductive Node where
  | tag (tag : Tag)
  | text (content : Template)
  /-- What a multiplier made of its subject, in the order of the copies. -/
  | copies (items : List Node)
  /-- Operands joined by `+`. -/
  | chain (items : List Node)
  | nested (parent : Tag) (child : Node)
  /-- A tree with the filters named after it. -/
  | filtered (filters : List String) (inner : Node)
  | filler (words : Nat)

namespace Node

/-- `left + right`; a chain on the left is continued. -/
def sibling (left right : Node) : Node :=
  match left with
  | .chain items => .chain (items ++ [right])
  | left => .chain [left, right]

def isChain : Node → Bool
  | .chain _ => true
  | _ => false

mutual

def nodeCount : Node → Nat
  | .nested _ child => 1 + child.nodeCount
  | .chain items | .copies items => 1 + totalCount items
  | .filtered _ inner => 1 + inner.nodeCount
  | .tag _ | .text _ | .filler _ => 1

def totalCount : List Node → Nat
  | [] => 0
  | item :: rest => item.nodeCount + totalCount rest

end

mutual

/-- The first tag, depth first and from the left. -/
def firstTag? : Node → Option Tag
  | .tag t => some t
  | .nested parent _ => some parent
  | .chain items | .copies items => firstTagIn? items
  | .filtered _ inner => inner.firstTag?
  | .text _ | .filler _ => none

def firstTagIn? : List Node → Option Tag
  | [] => none
  | item :: rest =>
    match item.firstTag? with
    | some t => some t
    | none => firstTagIn? rest

end

mutual

/-- The tree with its first tag changed, if it has one. -/
def mapFirstTag? (change : Tag → Tag) : Node → Option Node
  | .tag t => some (.tag (change t))
  | .nested parent child => some (.nested (change parent) child)
  | .chain items => (mapFirstTagIn? change items).map .chain
  | .copies items => (mapFirstTagIn? change items).map .copies
  | .filtered filters inner => (inner.mapFirstTag? change).map (.filtered filters)
  | .text _ | .filler _ => none

def mapFirstTagIn? (change : Tag → Tag) : List Node → Option (List Node)
  | [] => none
  | item :: rest =>
    match item.mapFirstTag? change with
    | some item => some (item :: rest)
    | none => (mapFirstTagIn? change rest).map (item :: ·)

end

end Node

end Shorthand
