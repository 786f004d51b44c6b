import Shorthand.Tables
import Shorthand.Text.Lines

/-! Elements. An element is a tag whose templates are resolved and whose children
are already written. Each dialect writes one element at a time; what all of them
ask of an element is here. -/
namespace Shorthand

structure Element where
  name : String
  hasBody : Bool := true
  id : Option String := none
  classes : List String := []
  /-- Default attributes with those of the tag merged in, in the order of output. -/
  attributes : List (String × String) := []
  text : Option String := none
  /-- The written children; none when there is nothing to show. -/
  content : Option String := none
  settings : TagSettings := {}
deriving DecidableEq

namespace Element

/-- Text and content, as far as there are any. -/
def parts (element : Element) : List String := element.text.toList ++ element.content.toList

/-- An element with nothing in it closes itself when it has no body or is void. -/
def isSelfClosing (element : Element) : Bool :=
  element.parts.isEmpty && (!element.hasBody || element.settings.selfClosing)

/-- Whether text and content stand on lines of their own. -/
def isBlock (element : Element) : Bool :=
  element.parts.any isMultiline || (element.settings.block && !element.parts.isEmpty)

/-- Id and classes in the notation of selectors. -/
def selectorText (element : Element) : String :=
  String.join (element.id.toList.map ("#" ++ ·) ++ element.classes.map ("." ++ ·))

/-- There is a selector if there is an id or a class, be it empty. -/
def selector? (element : Element) : Option String :=
  if element.id.isNone && element.classes.isEmpty then none else some element.selectorText

end Element

end Shorthand
