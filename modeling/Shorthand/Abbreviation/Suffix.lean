import Shorthand.Text.Blank

/-! The filter suffix. An abbreviation may end in filter names, each after a `|`.
A `|` inside text or inside an attribute list is part of the abbreviation, so the
first one outside both begins the suffix. -/
namespace Shorthand.Abbreviation

/-- Where a character stands, as far as the suffix is concerned. -/
structure Place where
  inText : Bool := false
  inBrackets : Bool := false
  inQuotes : Bool := false
  escaped : Bool := false
deriving DecidableEq

namespace Place

/-- Whether a `|` here begins the suffix. -/
def isOutside (place : Place) : Bool := !place.escaped && !place.inText && !place.inBrackets

/-- The place after the character `c`. -/
def next (place : Place) (c : Char) : Place :=
  if place.escaped then { place with escaped := false }
  else if c = '\\' then { place with escaped := place.inText }
  else if c = '{' then { place with inText := place.inText || !place.inQuotes }
  else if c = '}' then { place with inText := false }
  else if c = '[' then { place with inBrackets := place.inBrackets || !place.inText }
  else if c = ']' then { place with inBrackets := place.inBrackets && place.inQuotes }
  else if c = '"' then { place with inQuotes := place.inQuotes ^^ place.inBrackets }
  else place

end Place

/-- The text before the suffix and, if there is one, the suffix without its first `|`. -/
def splitAt (place : Place) (before : List Char) : List Char → List Char × Option (List Char)
  | [] => (before.reverse, none)
  | c :: s =>
    if c = '|' ∧ place.isOutside then (before.reverse, some s)
    else splitAt (place.next c) (c :: before) s

/-- The names in a suffix; blanks around a name and empty names do not count. -/
def filterNames (suffix : List Char) : List String :=
  (((suffix.splitOn '|').map trim).filter (· ≠ [])).map String.ofList

/-- An abbreviation without its filters, and the filters. -/
def splitFilters (s : List Char) : List Char × List String :=
  match splitAt {} [] s with
  | (body, none) => (body, [])
  | (body, some suffix) => (body, filterNames suffix)

end Shorthand.Abbreviation
