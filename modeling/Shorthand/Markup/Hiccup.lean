import Shorthand.Markup.Element

/-! The Hiccup dialect: a vector for each element, with a keyword for the tag and
its selector, a map of attributes, and strings for all text. -/
namespace Shorthand.Hiccup

/-- A string literal; backslashes and quotes are escaped. -/
def quote (text : String) : String :=
  "\"" ++ replaceChar '"' "\\\"" (replaceChar '\\' "\\\\" text) ++ "\""

def entry (key value : String) : String := ":" ++ key ++ " " ++ quote value

def attributeMap (attributes : List (String × String)) : String :=
  if attributes.isEmpty then ""
  else
    " \x7b" ++ ", ".intercalate (attributes.map fun (key, value) => entry key value) ++ "\x7d"

def header (element : Element) : String :=
  "[:" ++ element.name ++ element.selectorText ++ attributeMap element.attributes

/-- The text as a string literal, and the content as it is written. -/
def items (element : Element) : List String :=
  (element.text.map quote).toList ++ element.content.toList

def write (element : Element) (options : RenderOptions) : String :=
  header element ++
    String.join ((items element).map
      (if element.isBlock then indent options.unit else (" " ++ ·))) ++ "]"

end Shorthand.Hiccup
