import Shorthand.Settings.Toml.Moment
import Shorthand.Settings.Value

/-! What stands under the keys of a TOML document, in the order of the keys, and the
values that it amounts to. A moment may also be written as a table that keeps its
text under a key of its own; only as the first one does that key make a moment. -/
namespace Shorthand.Settings.Toml

/-- How a table came about: by its own header, on the way to another, by a dotted
name, or in braces. -/
inductive Origin where
  | header
  | passed
  | dotted
  | braces
deriving DecidableEq

inductive Item where
  | scalar (v : Value)
  | moment (text : String)
  | list (items : List Item)
  | table (origin : Origin) (entries : List (String × Item))
  | tables (items : List (List (String × Item)))

abbrev Entries := List (String × Item)

/-- The key of a table that stands for a moment. -/
def momentKey : String := "$__toml_private_datetime"

/-- The moment that a string stands for. -/
def Item.moment? : Item → Option String
  | .scalar (.text s) => quotedMoment? s
  | _ => none

mutual

/-- The value of an item, if every table that should be a moment is one. -/
def Item.toValue? : Item → Option Value
  | .scalar v => some v
  | .moment text => some (.text text)
  | .list items => (valuesOf? items).map .list
  | .table _ entries => tableValue? entries
  | .tables items => (tableValues? items).map .list

def valuesOf? : List Item → Option (List Value)
  | [] => some []
  | item :: rest => do return (← item.toValue?) :: (← valuesOf? rest)

/-- What stands behind the key of a moment does not count. -/
def tableValue? : List (String × Item) → Option Value
  | [] => some (.table [])
  | (key, item) :: rest =>
    if key = momentKey then item.moment?.map .text
    else do return .table ((key, ← item.toValue?) :: (← entryValues? rest))

def entryValues? : List (String × Item) → Option (List (String × Value))
  | [] => some []
  | (key, item) :: rest => do return (key, ← item.toValue?) :: (← entryValues? rest)

def tableValues? : List (List (String × Item)) → Option (List Value)
  | [] => some []
  | entries :: rest => do return (← tableValue? entries) :: (← tableValues? rest)

end

end Shorthand.Settings.Toml
