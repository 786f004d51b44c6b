import Shorthand.Settings.Toml.Lexeme
import Shorthand.Text.Digit

/-! Dates and times of TOML, read into their normal form: a date, a time, or both
with `T` between them and perhaps the distance from universal time behind them.
Places of a second end without zeros. -/
namespace Shorthand.Settings.Toml

/-- A number of exactly `length` digits. -/
def fixed? (length : Nat) : Reader Nat := fun s =>
  let digits := s.take length
  if digits.length = length ∧ digits.all Char.isDigit then
    some (decimalValue digits, s.drop length)
  else none

def expect? (c : Char) : List Char → Option (List Char)
  | d :: s => if c = d then some s else none
  | [] => none

def padded (width n : Nat) : List Char := List.leftpad width '0' (Nat.toDigits 10 n)

def daysIn (year month : Nat) : Nat :=
  if month = 2 then (if year % 4 = 0 ∧ (year % 100 ≠ 0 ∨ year % 400 = 0) then 29 else 28)
  else if month = 4 ∨ month = 6 ∨ month = 9 ∨ month = 11 then 30 else 31

def date? : Reader (List Char) := fun s => do
  let (year, s) ← fixed? 4 s
  let (month, s) ← fixed? 2 (← expect? '-' s)
  let (day, s) ← fixed? 2 (← expect? '-' s)
  guard (1 ≤ month ∧ month ≤ 12 ∧ 1 ≤ day ∧ day ≤ daysIn year month)
  return (padded 4 year ++ '-' :: padded 2 month ++ '-' :: padded 2 day, s)

/-- Up to nine places of a second, without zeros at the end. -/
def secondPlaces : List Char → List Char × List Char
  | '.' :: s =>
    match s.takeWhile Char.isDigit with
    | [] => ([], '.' :: s)
    | digits =>
      let kept := ((digits.take 9).reverse.dropWhile (· = '0')).reverse
      (if kept = [] then [] else '.' :: kept, s.dropWhile Char.isDigit)
  | s => ([], s)

/-- A time of the day. A leap second is its second 60. -/
def time? : Reader (List Char) := fun s => do
  let (hour, s) ← fixed? 2 s
  let (minute, s) ← fixed? 2 (← expect? ':' s)
  let (second, s) ← fixed? 2 (← expect? ':' s)
  guard (hour ≤ 23 ∧ minute ≤ 59 ∧ second ≤ 60)
  let (places, s) := secondPlaces s
  return (padded 2 hour ++ ':' :: padded 2 minute ++ ':' :: padded 2 second ++ places, s)

/-- The distance from universal time. A distance of nothing is positive. -/
def offset? : Reader (List Char)
  | 'Z' :: s => some (['Z'], s)
  | 'z' :: s => some (['Z'], s)
  | c :: s => do
    guard (c = '+' ∨ c = '-')
    let (hour, s) ← fixed? 2 s
    let (minute, s) ← fixed? 2 (← expect? ':' s)
    guard (hour ≤ 23 ∧ minute ≤ 59)
    let c := if hour = 0 ∧ minute = 0 then '+' else c
    return (c :: padded 2 hour ++ ':' :: padded 2 minute, s)
  | [] => none

def isTimeMark (c : Char) : Bool := c == 'T' || c == 't' || c == ' '

/-- The time that may follow a date. -/
def dateTime (date s : List Char) : List Char × List Char :=
  match s with
  | c :: rest =>
    match if isTimeMark c then time? rest else none with
    | none => (date, s)
    | some (time, rest) =>
      let (offset, rest) := (offset? rest).getD ([], rest)
      (date ++ 'T' :: time ++ offset, rest)
  | [] => (date, [])

def moment? : Reader String := fun s =>
  let read := match date? s with
    | some (date, rest) => some (dateTime date rest)
    | none => time? s
  read.map text

/-- The normal form of a string that holds a moment and nothing else. -/
def quotedMoment? (s : String) : Option String :=
  match moment? s.toList with
  | some (moment, []) => some moment
  | _ => none

end Shorthand.Settings.Toml
