import Shorthand.Markup.Chain
import Shorthand.Style.Sheet

/-! Expansion of whole abbreviations, as markup and as style declarations. -/
namespace Shorthand.Expander

mutual

/-- Filler markers become text, in document order. A marker that asks for too many
words fails the whole tree. -/
def fill : Node → Expander → Except Failure Node × Expander
  | .filler words, expander =>
    if expander.limits.maxFillerWords < words then
      (.error (.exceeded .fillerWords expander.limits.maxFillerWords), expander)
    else
      let (text, expander) := expander.fillerText words
      (.ok (.text (.ofText text)), expander)
  | .nested parent child, expander =>
    let (child, expander) := fill child expander
    (child.map (.nested parent), expander)
  | .chain items, expander =>
    let (items, expander) := fillAll items expander
    (items.map .chain, expander)
  | .copies items, expander =>
    let (items, expander) := fillAll items expander
    (items.map .copies, expander)
  | .filtered filters inner, expander =>
    let (inner, expander) := fill inner expander
    (inner.map (.filtered filters), expander)
  | .tag tag, expander => (.ok (.tag tag), expander)
  | .text content, expander => (.ok (.text content), expander)

/-- The first marker that fails ends the work. -/
def fillAll : List Node → Expander → Except Failure (List Node) × Expander
  | [], expander => (.ok [], expander)
  | item :: rest, expander =>
    match fill item expander with
    | (.error failure, expander) => (.error failure, expander)
    | (.ok item, expander) =>
      let (rest, expander) := fillAll rest expander
      (rest.map (item :: ·), expander)

end

/-- The filters of a tree that names them, or the default chain, with the tree proper. -/
def chainFor (expander : Expander) (options : RenderOptions) :
    Node → Except Failure (List Filter × Node)
  | .filtered names inner => (filterChain names).map (·, inner)
  | tree => .ok (Markup.defaultChain expander.tables options, tree)

/-- Expands a markup abbreviation. -/
def expandMarkup (expander : Expander) (abbreviation : String) (options : RenderOptions) :
    Except Failure String × Expander :=
  match expander.read (trimmed abbreviation) with
  | (.error failure, expander) => (.error failure, expander)
  | (.ok tree, expander) =>
    match expander.chainFor options tree with
    | .error failure => (.error failure, expander)
    | .ok (filters, tree) =>
      match fill tree expander with
      | (.error failure, expander) => (.error failure, expander)
      | (.ok tree, expander) => Markup.run filters tree options expander

/-- Expands a style abbreviation, one declaration below the other. -/
def expandStyle (expander : Expander) (abbreviation : String) (options : RenderOptions) :
    Except Failure String × Expander :=
  match Style.tokens (trim abbreviation.toList) with
  | [] => (.error (.noDeclarations abbreviation), expander)
  | tokens =>
    let (lines, expander) := Style.writeAll expander options.flavour tokens
    (.ok ("\n".intercalate lines), expander)

end Shorthand.Expander
