import Shorthand.Text.Digit

/-! The shortest decimal of a binary number. A number `m * 2 ^ q` stands for every
real that rounds to it, up to half a unit on either side; the ends count when `m` is
even. On a grid of powers of ten the candidates are the two neighbours of the
number, and the coarsest grid with a candidate in the interval gives the fewest
digits. -/
namespace Shorthand

/-- A positive number as a fraction with the reals that round to it:
`low / den` to `high / den` around `mid / den`. -/
structure Rounding where
  low : Nat
  mid : Nat
  high : Nat
  den : Nat
  /-- Whether the ends of the interval round to the number. -/
  closed : Bool

namespace Rounding

/-- The interval of `m * 2 ^ q`. Below a power of two the numbers lie twice as dense. -/
def ofBinary (m : Nat) (q : Int) (powerOfTwo : Bool) : Rounding :=
  let scale := Nat.pow 2 (q - 2).toNat
  { low := (4 * m - if powerOfTwo then 1 else 2) * scale
    mid := 4 * m * scale
    high := (4 * m + 2) * scale
    den := Nat.pow 2 (2 - q).toNat
    closed := m % 2 = 0 }

/-- Whether `c * 10 ^ k` rounds to the number. -/
def holds (r : Rounding) (c : Nat) (k : Int) : Bool :=
  let x := c * Nat.pow 10 k.toNat * r.den
  let up := Nat.pow 10 (-k).toNat
  if r.closed then r.low * up ≤ x && x ≤ r.high * up else r.low * up < x && x < r.high * up

/-- The candidate on the grid of `10 ^ k`: the nearer if both neighbours are, and the
greater if they are as near. -/
def candidate? (r : Rounding) (k : Int) : Option Nat :=
  let up := Nat.pow 10 (-k).toNat
  let unit := Nat.pow 10 k.toNat * r.den
  let c := r.mid * up / unit
  let nearer := if 2 * (r.mid * up % unit) < unit then [c, c + 1] else [c + 1, c]
  nearer.find? fun c => 0 < c && r.holds c k

/-- The first candidate on grids from `10 ^ k` downwards. -/
def search (r : Rounding) : Nat → Int → Nat × Int
  | 0, k => (0, k)
  | bound + 1, k =>
    match r.candidate? k with
    | some c => (c, k)
    | none => search r bound (k - 1)

/-- Digits and a power of ten for a double-precision number. -/
def shortest (r : Rounding) : Nat × Int := r.search 700 310

end Rounding

/-- Digits times a power of ten in positional notation, without an exponent. -/
def positional (digits : List Char) (k : Int) : List Char :=
  if 0 ≤ k then digits ++ List.replicate k.toNat '0'
  else
    let places := (-k).toNat
    let padded := List.leftpad (places + 1) '0' digits
    padded.take (padded.length - places) ++ '.' :: padded.drop (padded.length - places)

/-- The fraction of a double-precision number counts from here. -/
def doubleUnit : Nat := Nat.pow 2 52

/-- The shortest positional text of a double-precision number. -/
def floatText (x : Float) : String :=
  if x.isNaN then "NaN"
  else
    let bits := x.toBits.toNat
    let sign := if bits ≤ signedMax then "" else "-"
    let exponent : Nat := bits / doubleUnit % 2048
    let fraction : Nat := bits % doubleUnit
    if x.isInf then sign ++ "inf"
    else if exponent = 0 ∧ fraction = 0 then sign ++ "0"
    else
      let r :=
        if exponent = 0 then Rounding.ofBinary fraction (-1074) false
        else Rounding.ofBinary (doubleUnit + fraction) ((exponent : Int) - 1075)
          (fraction = 0 ∧ 1 < exponent)
      let (digits, k) := r.shortest
      sign ++ String.ofList (positional (Nat.toDigits 10 digits) k)

end Shorthand
