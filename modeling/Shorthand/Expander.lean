import Shorthand.Abbreviation.Grammar
import Shorthand.Filler.ChaCha
import Shorthand.Filler.Text
import Shorthand.Markup.Snippet
import Shorthand.Style.Formatter
import Shorthand.Tables.Builtin

/-! An expander: the tables with the random source and the limits, and what earlier
expansions compiled or read. Aliases that were read stay in the alias table as
trees; snippets and formatters that were compiled are kept beside the tables and
go when the tables are replaced. -/
namespace Shorthand

structure Expander where
  tables : Tables
  limits : Limits := {}
  source : Filler.ChaCha
  snippets : Table (Dialect × String) Snippet := []
  formatters : Table (StyleFlavour × String) Style.Formatter := []

namespace Expander

/-- An expander over checked tables. -/
def build (tables : Option Tables) (source : Filler.ChaCha) (limits : Limits) :
    Except SetupFailure Expander :=
  match tables with
  | none => .error (.missingTable .all)
  | some tables => do
    tables.check
    return { tables, limits, source }

/-- An expander whose random source comes from a seed. -/
def setup (tables : Option Tables) (seed : UInt64) (limits : Limits) :
    Except SetupFailure Expander :=
  build tables (.ofSeed seed) limits

/-- Other tables, unless they are refused. Nothing compiled from the old ones is kept. -/
def replaceTables (expander : Expander) (tables : Tables) : Except SetupFailure Expander := do
  tables.check
  return { expander with tables, snippets := [], formatters := [] }

/-- The snippet that replaces a tag, compiled on first use. -/
def snippet? (expander : Expander) (dialect : Dialect) (name : String) :
    Option Snippet × Expander :=
  match expander.snippets.get? (dialect.family, name) with
  | some snippet => (some snippet, expander)
  | none =>
    match expander.tables.tagSnippet? dialect name with
    | none => (none, expander)
    | some source =>
      let snippet := Snippet.compile source
      (some snippet,
        { expander with snippets := expander.snippets.insert (dialect.family, name) snippet })

/-- The formatter of a declaration, compiled on first use. -/
def formatter? (expander : Expander) (flavour : StyleFlavour) (key : String) :
    Option Style.Formatter × Expander :=
  match expander.formatters.get? (flavour, key) with
  | some formatter => (some formatter, expander)
  | none =>
    match expander.tables.styleSnippet? flavour key with
    | none => (none, expander)
    | some source =>
      let formatter := Style.Formatter.compile source
      (some formatter,
        { expander with formatters := expander.formatters.insert (flavour, key) formatter })

/-- Reads an abbreviation; the aliases read on the way are kept. -/
def read (expander : Expander) (abbreviation : String) : Except Failure Node × Expander :=
  let (aliases, result) :=
    Abbreviation.read expander.limits expander.tables.aliases abbreviation
  (result, { expander with tables := { expander.tables with aliases } })

/-- Filler text from the random source. -/
def fillerText (expander : Expander) (words : Nat) : String × Expander :=
  let (text, source) := Filler.text words expander.source
  (text, { expander with source })

/-- How much the expander holds, and its limits. -/
def summary (expander : Expander) : String :=
  let limits := expander.limits
  "ExpansionContext \x7b aliases: " ++ toString expander.tables.aliases.length ++
    ", markup_snippets: " ++ toString expander.snippets.length ++
    ", css_formatters: " ++ toString expander.formatters.length ++
    ", limits: Limits \x7b max_depth: " ++ toString limits.maxDepth ++
    ", max_nodes: " ++ toString limits.maxNodes ++
    ", max_lorem_words: " ++ toString limits.maxFillerWords ++ " \x7d \x7d"

end Expander

end Shorthand
