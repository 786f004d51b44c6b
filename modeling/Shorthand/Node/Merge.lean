import Shorthand.Node
import Shorthand.Table

/-! What a caller adds to an alias. The caller's qualifiers go into the first tag
of the expansion: its id and text replace those of the expansion, its classes
follow without repetition, its attributes override key by key, and its `/` takes
the body away. -/
namespace Shorthand

def mergeClasses (base extra : List Template) : List Template := (base ++ extra).eraseDups

/-- `base` in its order with the values of `overrides`, then the keys only in `overrides`. -/
def mergeProperties {ν : Type} (base overrides : Table String ν) : Table String ν :=
  base.insertAll overrides

/-- A tag with the qualifiers of `caller` folded in. -/
def Tag.qualify (caller tag : Tag) : Tag :=
  { tag with
    hasBody := tag.hasBody && caller.hasBody
    id := caller.id <|> tag.id
    classes := mergeClasses tag.classes caller.classes
    properties := mergeProperties tag.properties caller.properties
    text := caller.text <|> tag.text }

/-- An expansion without a tag stays as it is. -/
def Node.merge (expansion : Node) (caller : Tag) : Node :=
  (expansion.mapFirstTag? caller.qualify).getD expansion

end Shorthand
