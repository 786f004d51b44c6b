import Shorthand.Node

/-! Multipliers. A multiplier turns its subject into a list of copies, and every
numbering token of the subject becomes the number of the copy it stands in. No
token is left in a copy, so an outer multiplier finds none to resolve. -/
namespace Shorthand

def Tag.instantiate (tag : Tag) (index limit : Nat) : Tag :=
  let resolve (t : Template) := t.resolve index limit
  { name := resolve tag.name
    hasBody := tag.hasBody
    id := tag.id.map resolve
    classes := tag.classes.map resolve
    properties := tag.properties.map fun (key, value) => (key, resolve value)
    text := tag.text.map resolve }

namespace Node

mutual

/-- Copy `index` out of `limit`. -/
def instantiate (index limit : Nat) : Node → Node
  | .tag t => .tag (t.instantiate index limit)
  | .text content => .text (content.resolve index limit)
  | .copies items => .copies (instantiateAll index limit items)
  | .chain items => .chain (instantiateAll index limit items)
  | .nested parent child =>
    .nested (parent.instantiate index limit) (child.instantiate index limit)
  | .filtered filters inner => .filtered filters (inner.instantiate index limit)
  | .filler words => .filler words

def instantiateAll (index limit : Nat) : List Node → List Node
  | [] => []
  | item :: rest => item.instantiate index limit :: instantiateAll index limit rest

end

/-- `count` copies, in order. -/
def multiply (node : Node) (count : Nat) : Node :=
  .copies ((List.range count).map fun index => node.instantiate index count)

end Node

end Shorthand
