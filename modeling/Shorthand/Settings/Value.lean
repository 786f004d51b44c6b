import Shorthand.Table
import Shorthand.Text.Case
import Shorthand.Text.Digit
import Shorthand.Text.Shortest

/-! Values of settings, and what they can stand for. A setting may be written in
more than one type: a number or a word such as `yes` can stand for a truth value,
and any scalar for text. -/
namespace Shorthand.Settings

inductive Value where
  | nothing
  | bool (b : Bool)
  | integer (n : Int)
  | float (x : Float)
  | text (s : String)
  | list (items : List Value)
  | table (entries : List (String × Value))

def truth? (word : String) : Option Bool :=
  if ["true", "on", "yes"].contains word then some true
  else if ["false", "off", "no"].contains word then some false
  else none

namespace Value

def toBool? : Value → Option Bool
  | .bool b => some b
  | .integer n => some (n ≠ 0)
  | .float x => some (x != 0.0)
  | .text s =>
    let word := lowerCase s
    if word = "1" then some true else if word = "0" then some false else truth? word
  | _ => none

/-- Fractions are rounded, and what lies outside the machine words is cut to them. -/
def toWord? : Value → Option Nat
  | .bool b => some b.toNat
  | .integer n => if 0 ≤ n ∧ n ≤ wordMax then some n.toNat else none
  | .float x => some x.round.toUInt64.toNat
  | .text s =>
    match truth? (lowerCase s) with
    | some b => some b.toNat
    | none => readNumeral? s.toList
  | _ => none

def toText? : Value → Option String
  | .text s => some s
  | .bool b => some (if b then "true" else "false")
  | .integer n => some (toString n)
  | .float x => some (floatText x)
  | _ => none

/-- A name out of a list, in any letter case; it may stand as the only key of a table. -/
def toChoice? {α : Type} (all : List α) (name : α → String) : Value → Option α
  | .text s | .table [(s, _)] => all.find? fun a => name a = lowerCase s
  | _ => none

def toTexts? : Value → Option (List String)
  | .list items => items.mapM toText?
  | _ => none

def toTable? {α : Type} (item? : Value → Option α) : Value → Option (Table String α)
  | .table entries => entries.mapM fun (key, value) => (item? value).map (key, ·)
  | _ => none

/-- The field of a record. A record is a table or the list of its fields in order. -/
def field? (fields : List String) (record : Value) (name : String) : Option Value :=
  match record with
  | .table entries => Table.get? entries name
  | .list items => items[fields.idxOf name]?
  | _ => none

/-- A field that may be left out. -/
def fieldOr? {α : Type} (fields : List String) (record : Value) (name : String) (default : α)
    (read? : Value → Option α) : Option α :=
  match record.field? fields name with
  | none => some default
  | some value => read? value

def isRecord : Value → Bool
  | .table _ | .list _ => true
  | _ => false

end Value

end Shorthand.Settings
