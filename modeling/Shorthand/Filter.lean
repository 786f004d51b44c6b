import Shorthand.Failure
import Shorthand.Options

/-! Filters. A filter either renders a tree in a dialect or escapes text. -/
namespace Shorthand

inductive Filter where
  | render (dialect : Dialect)
  | escape
deriving DecidableEq

namespace Filter

def all : List Filter := Dialect.all.map .render ++ [.escape]

def name : Filter → String
  | .render dialect => dialect.filterName
  | .escape => "e"

def named? (name : String) : Option Filter := all.find? (·.name = name)

/-- The dialect of a renderer. -/
def dialect? : Filter → Option Dialect
  | .render dialect => some dialect
  | .escape => none

theorem named?_name (filter : Filter) : named? filter.name = some filter := by
  rcases filter with dialect | _
  · cases dialect <;> decide
  · decide

end Filter

/-- The filters of the given names; one unknown name spoils the chain. -/
def filterChain (names : List String) : Except Failure (List Filter) :=
  names.mapM fun name =>
    match Filter.named? name with
    | some filter => .ok filter
    | none => .error (.unknownFilter name)

end Shorthand
