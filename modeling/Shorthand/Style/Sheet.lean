import Shorthand.Expander
import Shorthand.Style.Color
import Shorthand.Style.Declaration
import Shorthand.Style.Token

/-! Writing declarations. A declaration is written through the formatter of its key,
or as a property named like the key; vendor-prefixed lines come first. The
indented flavour has no final semicolons. -/
namespace Shorthand.Style

/-- The vendors of an automatic prefix for which nothing else is known. -/
def defaultVendors : List String := ["webkit", "moz", "ms", "o"]

def vendorsOf (tables : Tables) (property : String) (declaration : Declaration) : List String :=
  match declaration.vendors with
  | .none => []
  | .explicit names => names
  | .automatic =>
    ((tables.vendorPrefixes.get? declaration.key) <|> tables.vendorPrefixes.get? property).getD
      defaultVendors

/-- The property that a declaration sets. -/
def propertyOf (formatter : Option Formatter) (declaration : Declaration) : String :=
  (formatter.bind Formatter.property?).getD declaration.key

/-- The texts of all arguments. -/
def argumentTexts (tables : Tables) (property : String) (declaration : Declaration) :
    List String :=
  let unitless := tables.unitless.contains property || tables.unitless.contains declaration.key
  declaration.args.flatMap (Argument.texts tables.preferences unitless)

/-- The mark of importance goes before a final semicolon. -/
def markImportant (line : String) : String :=
  match dropLast? ';' line.toList with
  | some body => String.ofList body ++ " !important;"
  | none => line ++ " !important"

def dropSemicolon (line : String) : String :=
  match dropLast? ';' line.toList with
  | some body => String.ofList body
  | none => line

/-- The declaration without vendor prefixes. -/
def mainLine (formatter : Option Formatter) (flavour : StyleFlavour) (declaration : Declaration)
    (args : List String) : String :=
  let line := match formatter with
    | some formatter => formatter.format args
    | none => declaration.key ++ ": " ++ " ".intercalate args ++ ";"
  let line := if declaration.important then markImportant line else line
  if flavour = .indented then dropSemicolon line else line

/-- The text of a declaration, given the formatter of its key. -/
def writeWith (tables : Tables) (formatter : Option Formatter) (flavour : StyleFlavour)
    (declaration : Declaration) : String :=
  let property := propertyOf formatter declaration
  let args := argumentTexts tables property declaration
  if declaration.key = "" then " ".intercalate args
  else
    let line := mainLine formatter flavour declaration args
    let vendors := vendorsOf tables property declaration
    "\n".intercalate (vendors.map (fun vendor => "-" ++ vendor ++ "-" ++ line) ++ [line])

/-- Writes a declaration. Without a key its arguments stand alone. -/
def write (expander : Expander) (flavour : StyleFlavour) (declaration : Declaration) :
    String × Expander :=
  let (formatter, expander) := expander.formatter? flavour declaration.key
  (writeWith expander.tables formatter flavour declaration, expander)

def writeAll (expander : Expander) (flavour : StyleFlavour) :
    List (List Char) → List String × Expander
  | [] => ([], expander)
  | token :: rest =>
    let (line, expander) := write expander flavour (declaration expander.tables token)
    let (lines, expander) := writeAll expander flavour rest
    (line :: lines, expander)

end Shorthand.Style
