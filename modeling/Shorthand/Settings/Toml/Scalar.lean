import Shorthand.Settings.Toml.Lexeme
import Shorthand.Settings.Value

/-! Strings, numbers and truth values of TOML. Digits may be grouped by single
underscores; integers have 64 bits. -/
namespace Shorthand.Settings.Toml

/-- Digits that follow a digit, each after an underscore or not. -/
def moreDigits (isDigit : Char → Bool) : List Char → List Char × List Char
  | [] => ([], [])
  | [c] => if isDigit c then ([c], []) else ([], [c])
  | c :: d :: s =>
    if isDigit c then
      let (digits, rest) := moreDigits isDigit (d :: s)
      (c :: digits, rest)
    else if c = '_' ∧ isDigit d then moreDigits isDigit (d :: s)
    else ([], c :: d :: s)

def digits? (isDigit : Char → Bool) : Reader (List Char)
  | c :: s =>
    if isDigit c then
      let (digits, rest) := moreDigits isDigit s
      some (c :: digits, rest)
    else none
  | [] => none

/-- Digits without a superfluous zero in front. -/
def whole? : Reader (List Char)
  | '0' :: s => some (['0'], s)
  | s => digits? Char.isDigit s

def sign : List Char → Bool × List Char
  | '-' :: s => (true, s)
  | '+' :: s => (false, s)
  | s => (false, s)

def bounded (n : Int) (rest : List Char) : Option (Value × List Char) :=
  if -(signedMax : Int) - 1 ≤ n ∧ n ≤ signedMax then some (.integer n, rest) else none

def inBase (base : Nat) (digits : List Char) : Nat :=
  digits.foldl (fun n c => base * n + (hexDigitValue? c).getD 0) 0

def radix? (base : Nat) (s : List Char) : Option (Value × List Char) :=
  (digits? (fun c => (hexDigitValue? c).any (· < base)) s).bind fun (digits, rest) =>
    bounded (inBase base digits) rest

def decimal? (s : List Char) : Option (Value × List Char) :=
  let (negative, s) := sign s
  (whole? s).bind fun (digits, rest) =>
    let n : Int := decimalValue digits
    bounded (if negative then -n else n) rest

def integer? : Reader Value
  | '0' :: 'x' :: s => radix? 16 s
  | '0' :: 'o' :: s => radix? 8 s
  | '0' :: 'b' :: s => radix? 2 s
  | s => decimal? s

def fraction : List Char → List Char × List Char
  | '.' :: s => (digits? Char.isDigit s).getD ([], '.' :: s)
  | s => ([], s)

def exponent? : Reader Int
  | c :: s =>
    if c = 'e' ∨ c = 'E' then
      let (negative, s) := sign s
      (digits? Char.isDigit s).map fun (digits, rest) =>
        let n : Int := decimalValue digits
        (if negative then -n else n, rest)
    else none
  | [] => none

/-- `digits * 10 ^ k`. Far outside the range of doubles the result is known. -/
def scaled (digits : List Char) (k : Int) : Float :=
  let n := decimalValue digits
  if n = 0 ∨ (digits.length : Int) + k < -400 then 0.0
  else if 400 < k then 1.0 / 0.0
  else Float.ofScientific n (k < 0) k.natAbs

def special? : Reader Float
  | 'i' :: 'n' :: 'f' :: s => some (1.0 / 0.0, s)
  | 'n' :: 'a' :: 'n' :: s => some (0.0 / 0.0, s)
  | _ => none

/-- A number with a point or an exponent; too great a number is refused. -/
def float? (s : List Char) : Option (Value × List Char) :=
  let (negative, s) := sign s
  match special? s with
  | some (x, rest) => some (.float (if negative then -x else x), rest)
  | none =>
    (whole? s).bind fun (whole, s) =>
      let (places, s) := fraction s
      let exponent := exponent? s
      if places = [] ∧ exponent.isNone then none
      else
        let (k, rest) := exponent.getD (0, s)
        let x := scaled (whole ++ places) (k - places.length)
        if x.isInf ∧ !negative then none else some (.float (if negative then -x else x), rest)

def scalar? : Reader Value
  | 't' :: 'r' :: 'u' :: 'e' :: s => some (.bool true, s)
  | 'f' :: 'a' :: 'l' :: 's' :: 'e' :: s => some (.bool false, s)
  | s =>
    match string? s with
    | some (text, rest) => some (.text text, rest)
    | none => float? s <|> integer? s

end Shorthand.Settings.Toml
