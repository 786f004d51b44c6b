import Shorthand.Markup.Haml
import Shorthand.Markup.Hiccup
import Shorthand.Markup.Html

/-! How each dialect writes an element and a run of text. -/
namespace Shorthand.Dialect

def writeElement : Dialect → Element → RenderOptions → String
  | .html => Html.write
  | .commentedHtml => Html.writeCommented
  | .haml => Haml.write
  | .hiccup => Hiccup.write

/-- A text node. Only Hiccup marks it as text. -/
def writeText : Dialect → String → String
  | .hiccup, text => Hiccup.quote text
  | _, text => text

end Shorthand.Dialect
