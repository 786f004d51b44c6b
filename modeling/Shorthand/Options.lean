/-! The choices that a caller makes for one expansion: the markup dialect, the
flavour of style sheets, and the layout of elements. Every choice has a name by
which options and settings spell it. -/
namespace Shorthand

inductive Dialect where
  | html
  | commentedHtml
  | haml
  | hiccup
deriving DecidableEq

namespace Dialect

def all : List Dialect := [.html, .commentedHtml, .haml, .hiccup]

def name : Dialect → String
  | .html => "html"
  | .commentedHtml => "commented-html"
  | .haml => "haml"
  | .hiccup => "hiccup"

/-- The filter that renders in this dialect. -/
def filterName : Dialect → String
  | .html => "html"
  | .commentedHtml => "c"
  | .haml => "haml"
  | .hiccup => "hic"

/-- Dialects of one family share their tag snippets. -/
def family : Dialect → Dialect
  | .commentedHtml => .html
  | dialect => dialect

end Dialect

/-- Style sheets with braces and semicolons, or with significant indentation. -/
inductive StyleFlavour where
  | standard
  | indented
deriving DecidableEq

namespace StyleFlavour

def all : List StyleFlavour := [.standard, .indented]

def name : StyleFlavour → String
  | .standard => "standard"
  | .indented => "indented"

end StyleFlavour

/-- How a tag without content is closed. -/
inductive SelfClosing where
  | spaceSlash
  | slash
  | bare
deriving DecidableEq

namespace SelfClosing

def all : List SelfClosing := [.spaceSlash, .slash, .bare]

def name : SelfClosing → String
  | .spaceSlash => "space-slash"
  | .slash => "slash"
  | .bare => "bare"

def terminator : SelfClosing → String
  | .spaceSlash => " />"
  | .slash => "/>"
  | .bare => ">"

end SelfClosing

/-- The letter case in which colors are printed. -/
inductive ColorCase where
  | auto
  | up
  | down
deriving DecidableEq

namespace ColorCase

def all : List ColorCase := [.auto, .up, .down]

def name : ColorCase → String
  | .auto => "auto"
  | .up => "up"
  | .down => "down"

end ColorCase

structure RenderOptions where
  dialect : Dialect := .html
  flavour : StyleFlavour := .standard
  classAttribute : String := "class"
  selfClosing : SelfClosing := .slash
  indentation : Nat := 4
  extension : Option String := none
deriving DecidableEq

/-- The blanks of one level of nesting. -/
def RenderOptions.unit (options : RenderOptions) : String :=
  String.ofList (List.replicate options.indentation ' ')

end Shorthand
