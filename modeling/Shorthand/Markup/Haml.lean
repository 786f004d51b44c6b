import Shorthand.Markup.Element

/-! The HAML dialect: a header line for each element, with whatever it holds
indented below. A `div` with an id or a class goes without its name. -/
namespace Shorthand.Haml

def isSymbolStart (c : Char) : Bool := c.isAlpha || c == '_'

def isSymbolChar (c : Char) : Bool := c.isAlphanum || c == '_'

/-- Whether an attribute name can be written as a symbol without quotes. -/
def isSymbol (key : String) : Bool :=
  match key.toList with
  | [] => false
  | c :: rest => isSymbolStart c && rest.all isSymbolChar

def attributeKey (key : String) : String :=
  if isSymbol key then ":" ++ key else "\"" ++ key ++ "\""

def entry (key value : String) : String := attributeKey key ++ " => \"" ++ value ++ "\""

def attributeList (attributes : List (String × String)) : String :=
  if attributes.isEmpty then ""
  else "\x7b" ++ ", ".intercalate (attributes.map fun (key, value) => entry key value) ++ "\x7d"

def header (element : Element) : String :=
  (if element.name = "div" ∧ element.selector?.isSome then "" else "%" ++ element.name) ++
    element.selectorText ++ attributeList element.attributes

def write (element : Element) (options : RenderOptions) : String :=
  if element.isSelfClosing then header element ++ "/"
  else header element ++ String.join (element.parts.map (indent options.unit))

end Shorthand.Haml
