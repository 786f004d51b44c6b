import Shorthand.Expand
import Shorthand.Settings.Layer
import Shorthand.Settings.Toml.Document

/-! Loading settings. The defaults are laid down first, then files, then single
values; the result is read into options, preferences and default filters. The
tables of an expander are the built-in ones with these preferences and filters. -/
namespace Shorthand

structure Settings where
  options : RenderOptions
  preferences : StylePreferences
  /-- For each document extension, the filters that apply without a suffix. -/
  defaultFilters : Table String (List String)

namespace Settings

def optionFields : List String :=
  ["output_dialect", "css_syntax", "class_attribute_name", "self_closing_style", "indentation",
   "document_extension"]

def preferenceFields : List String := ["shorten_if_possible", "color_case", "trailing_aliases"]

/-- Text that may also be left empty. -/
def optionalText? : Value → Option (Option String)
  | .nothing => some none
  | value => value.toText?.map some

def options? (record : Value) : Option RenderOptions := do
  guard record.isRecord
  let field {α : Type} (name : String) (default : α) (read? : Value → Option α) : Option α :=
    record.fieldOr? optionFields name default read?
  let d : RenderOptions := {}
  return {
    dialect := ← field "output_dialect" d.dialect (Value.toChoice? Dialect.all Dialect.name)
    flavour := ← field "css_syntax" d.flavour
      (Value.toChoice? StyleFlavour.all StyleFlavour.name)
    classAttribute := ← field "class_attribute_name" d.classAttribute Value.toText?
    selfClosing := ← field "self_closing_style" d.selfClosing
      (Value.toChoice? SelfClosing.all SelfClosing.name)
    indentation := ← field "indentation" d.indentation Value.toWord?
    extension := ← field "document_extension" d.extension optionalText? }

def preferences? (record : Value) : Option StylePreferences := do
  guard record.isRecord
  let field {α : Type} (name : String) (default : α) (read? : Value → Option α) : Option α :=
    record.fieldOr? preferenceFields name default read?
  let d : StylePreferences := {}
  return {
    shorten := ← field "shorten_if_possible" d.shorten Value.toBool?
    colorCase := ← field "color_case" d.colorCase (Value.toChoice? ColorCase.all ColorCase.name)
    trailingAliases := ← field "trailing_aliases" d.trailingAliases
      (Value.toTable? Value.toText?) }

def ofValue? (root : Value) : Option Settings := do
  return {
    options := ← options? (← Table.get? root.entries "render")
    preferences := ← preferences? (← Table.get? root.entries "css")
    defaultFilters := ← match Table.get? root.entries "default_filters" with
      | none => some []
      | some filters => filters.toTable? Value.toTexts? }

/-- The settings below all others. -/
def defaults : Value :=
  .table [
    ("render", .table [
      ("output_dialect", .text "html"),
      ("css_syntax", .text "standard"),
      ("class_attribute_name", .text "class"),
      ("self_closing_style", .text "slash"),
      ("indentation", .integer 4)]),
    ("css", .table [
      ("shorten_if_possible", .bool true),
      ("color_case", .text "auto"),
      ("trailing_aliases", .table [("i", .text "!important")])]),
    ("default_filters", .table [
      ("haml", .list [.text "haml"]),
      ("clj", .list [.text "hic"]),
      ("cljs", .list [.text "hic"]),
      ("cljc", .list [.text "hic"]),
      ("edn", .list [.text "hic"])])]

/-- Settings from the texts of files and from single values under their paths. -/
def load? (files : List String) (overrides : List (String × Value)) : Option Settings := do
  let root ← files.foldlM (fun root file => do layFile? root (← Toml.read? file)) defaults
  let root ← overrides.foldlM (fun root (path, value) => layOverride? root path value) root
  ofValue? root

def load (files : List String) (overrides : List (String × Value)) :
    Except SetupFailure Settings :=
  match load? files overrides with
  | some settings => .ok settings
  | none => .error .unreadableSettings

def tables (settings : Settings) : Tables :=
  { Tables.builtin with
    preferences := settings.preferences
    defaultFilters := Tables.builtin.defaultFilters.insertAll settings.defaultFilters }

def expander (settings : Settings) (seed : UInt64) : Except SetupFailure Expander :=
  Expander.setup (some settings.tables) seed {}

end Settings

end Shorthand
