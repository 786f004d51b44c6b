import Shorthand.Expander
import Shorthand.Markup.Dialect

/-! Rendering trees. Children are written first; then the tag is replaced by its
snippet, if it has one, or written as an element of the dialect. What is written
as nothing leaves no trace. -/
namespace Shorthand.Markup

/-- The element of a tag whose children are written. -/
def elementOf (tables : Tables) (tag : Tag) (content : Option String) : Element :=
  let name := tag.name.toText
  let settings := (tables.tagSettings.get? name).getD {}
  { name
    hasBody := tag.hasBody
    id := tag.id.map Template.toText
    classes := tag.classes.map Template.toText
    attributes := mergeProperties settings.defaults
      (tag.properties.map fun (key, value) => (key, value.toText))
    text := tag.text.map Template.toText
    content
    settings }

/-- A tag around its written children; empty text counts as no children. -/
def writeTag (dialect : Dialect) (options : RenderOptions) (tag : Tag) (children : String)
    (expander : Expander) : String × Expander :=
  let content := if children.isEmpty then none else some children
  match expander.snippet? dialect tag.name.toText with
  | (some snippet, expander) =>
    (snippet.apply (joinLines ((tag.text.map Template.toText).toList ++ content.toList)), expander)
  | (none, expander) =>
    (dialect.writeElement (elementOf expander.tables tag content) options, expander)

mutual

def render (dialect : Dialect) (options : RenderOptions) : Node → Expander → String × Expander
  | .tag tag, expander => writeTag dialect options tag "" expander
  | .nested parent child, expander =>
    let (children, expander) := render dialect options child expander
    writeTag dialect options parent children expander
  | .chain items, expander | .copies items, expander =>
    let (parts, expander) := renderAll dialect options items expander
    (joinLines parts, expander)
  | .text content, expander => (dialect.writeText content.toText, expander)
  | .filtered _ inner, expander => render dialect options inner expander
  | .filler words, expander =>
    let (text, expander) := expander.fillerText words
    (dialect.writeText text, expander)

def renderAll (dialect : Dialect) (options : RenderOptions) :
    List Node → Expander → List String × Expander
  | [], expander => ([], expander)
  | item :: rest, expander =>
    let (part, expander) := render dialect options item expander
    let (parts, expander) := renderAll dialect options rest expander
    (part :: parts, expander)

end

end Shorthand.Markup
