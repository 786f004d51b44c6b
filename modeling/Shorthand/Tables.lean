import Shorthand.Alias
import Shorthand.Filter

/-! The tables that an expansion consults: aliases, snippets that replace tags or
declarations, hints for tags, and what is known about units, colors, vendors and
document extensions. -/
namespace Shorthand

/-- How a tag is laid out, and the attributes that each such tag has. -/
structure TagSettings where
  selfClosing : Bool := false
  block : Bool := false
  defaults : List (String × String) := []
deriving DecidableEq

structure StylePreferences where
  /-- Whether a color whose digits come in equal pairs is printed with three digits. -/
  shorten : Bool := true
  colorCase : ColorCase := .auto
  /-- What a suffix of a color stands for. -/
  trailingAliases : Table String String := [("i", "!important")]
deriving DecidableEq

structure Tables where
  aliases : AliasTable := []
  /-- For each dialect family, the snippets that replace tags. -/
  tagSnippets : Table Dialect (Table String String) := []
  tagSettings : Table String TagSettings := []
  unitAliases : Table String String := []
  preferences : StylePreferences := {}
  vendorPrefixes : Table String (List String) := []
  /-- Properties whose numbers get no unit. -/
  unitless : List String := []
  /-- For each flavour, the snippets that declarations are written with. -/
  styleSnippets : Table StyleFlavour (Table String String) := []
  /-- For each document extension, the filters that apply without a suffix. -/
  defaultFilters : Table String (List String) := []

namespace Tables

/-- Tables without entries; every snippet table is there. -/
def empty : Tables :=
  { tagSnippets := [(.html, []), (.haml, []), (.hiccup, [])]
    styleSnippets := [(.standard, []), (.indented, [])] }

def tagSnippet? (tables : Tables) (dialect : Dialect) (name : String) : Option String :=
  (tables.tagSnippets.get? dialect.family).bind (·.get? name)

def styleSnippet? (tables : Tables) (flavour : StyleFlavour) (key : String) : Option String :=
  (tables.styleSnippets.get? flavour).bind (·.get? key)

def withTagSnippet (tables : Tables) (dialect : Dialect) (name source : String) : Tables :=
  let family := (tables.tagSnippets.get? dialect.family).getD []
  { tables with
    tagSnippets := tables.tagSnippets.insert dialect.family (family.insert name source) }

def withStyleSnippet (tables : Tables) (flavour : StyleFlavour) (key source : String) : Tables :=
  let snippets := (tables.styleSnippets.get? flavour).getD []
  { tables with
    styleSnippets := tables.styleSnippets.insert flavour (snippets.insert key source) }

/-- A chain starts with a renderer and names known filters. -/
def checkChain (extension : String) : List String → Except SetupFailure Unit
  | [] => .error (.emptyChain extension)
  | first :: rest =>
    if ((Filter.named? first).bind Filter.dialect?).isNone then
      .error (.noRenderer extension first)
    else
      match (first :: rest).find? fun name => (Filter.named? name).isNone with
      | some name => .error (.unknownFilter extension name)
      | none => .ok ()

def require (present : Bool) (table : RequiredTable) : Except SetupFailure Unit :=
  if present then .ok () else .error (.missingTable table)

/-- Every snippet table is there and every default chain is usable. -/
def check (tables : Tables) : Except SetupFailure Unit := do
  require (tables.tagSnippets.has .html) .htmlTags
  require (tables.tagSnippets.has .haml) .hamlTags
  require (tables.tagSnippets.has .hiccup) .hiccupTags
  require (tables.styleSnippets.has .standard) .declarations
  require (tables.styleSnippets.has .indented) .indentedDeclarations
  tables.defaultFilters.forM fun entry => checkChain entry.1 entry.2

end Tables

end Shorthand
