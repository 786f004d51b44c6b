import Shorthand.Markup.Render

/-! Filter chains. The first stage of a chain turns the tree into text and every
later stage changes the text, so a renderer is out of order anywhere but in front.
A chain that starts with escaping has the tree rendered by the default chain, and
a chain without stages by the dialect of the options. -/
namespace Shorthand.Markup

/-- The three characters with a meaning in markup become entities. -/
def escape (text : String) : String :=
  replaceChar '>' "&gt;" (replaceChar '<' "&lt;" (replaceChar '&' "&amp;" text))

/-- The stages after the first. -/
def refine : List Filter → String → Except Failure String
  | [], text => .ok text
  | .escape :: rest, text => refine rest (escape text)
  | .render dialect :: _, _ => .error (.filterOrder dialect.filterName)

/-- The chain for an abbreviation without filters: the one for the document extension,
if it can be used, or else the dialect of the options. -/
def defaultChain (tables : Tables) (options : RenderOptions) : List Filter :=
  match (options.extension.bind tables.defaultFilters.get?).map filterChain with
  | some (.ok (first :: rest)) => first :: rest
  | _ => [.render options.dialect]

/-- Renders the tree with the first stage, if that is a renderer, and refines the text. -/
def runRenderer (filters : List Filter) (tree : Node) (options : RenderOptions)
    (expander : Expander) : Except Failure String × Expander :=
  let (dialect, rest) := match filters with
    | .render dialect :: rest => (dialect, rest)
    | filters => (options.dialect, filters)
  let (text, expander) := render dialect options tree expander
  (refine rest text, expander)

def run (filters : List Filter) (tree : Node) (options : RenderOptions) (expander : Expander) :
    Except Failure String × Expander :=
  match filters with
  | .escape :: rest =>
    let (text, expander) :=
      runRenderer (defaultChain expander.tables options) tree options expander
    (text.bind fun text => refine rest (escape text), expander)
  | filters => runRenderer filters tree options expander

end Shorthand.Markup
