import Shorthand.Markup.Element

/-! The two dialects of HTML: plain, and with a comment before and after every
element that has an id or a class. -/
namespace Shorthand.Html

/-- An attribute with its value in quotes, after a blank. -/
def entry (key value : String) : String := " " ++ key ++ "=\"" ++ value ++ "\""

/-- Id, classes and attributes in their order of output. -/
def attributesOf (element : Element) (options : RenderOptions) : List (String × String) :=
  element.id.toList.map (("id", ·)) ++
    (if element.classes.isEmpty then []
     else [(options.classAttribute, " ".intercalate element.classes)]) ++
    element.attributes

/-- A start tag without its end. -/
def opening (element : Element) (options : RenderOptions) : String :=
  "<" ++ element.name ++
    String.join ((attributesOf element options).map fun (key, value) => entry key value)

/-- What stands between the start tag and the end tag. -/
def inside (element : Element) (options : RenderOptions) : String :=
  if element.isBlock then String.join (element.parts.map (indent options.unit)) ++ "\n"
  else String.join element.parts

def write (element : Element) (options : RenderOptions) : String :=
  if element.isSelfClosing then opening element options ++ options.selfClosing.terminator
  else opening element options ++ ">" ++ inside element options ++ "</" ++ element.name ++ ">"

def writeCommented (element : Element) (options : RenderOptions) : String :=
  match element.selector? with
  | none => write element options
  | some selector =>
    "<!-- " ++ selector ++ " -->\n" ++ write element options ++ "\n<!-- /" ++ selector ++ " -->"

end Shorthand.Html
