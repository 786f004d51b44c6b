import Shorthand.Style.Argument
import Shorthand.Text.Case

/-! Printing arguments. A color is printed as three decimal channels or as
hexadecimal digits, in the preferred case and, if preferred, with three digits
where the six come in equal pairs. -/
namespace Shorthand.Style

def hexValue (c : Char) : Nat :=
  if c.isDigit then c.toNat - '0'.toNat
  else if 'a' ≤ c then c.toNat - 'a'.toNat + 10
  else c.toNat - 'A'.toNat + 10

/-- The value of two digits, of which the first may be a plus sign; 0 for anything else. -/
def channelValue : List Char → Nat
  | ['+', c] => if isHexDigit c then hexValue c else 0
  | [b, c] => if isHexDigit b && isHexDigit c then 16 * hexValue b + hexValue c else 0
  | _ => 0

/-- Each digit once for each byte that encodes it. A digit of a channel takes one byte,
and a wider character is none, wherever it is cut. -/
def byByte (digits : List Char) : List Char := digits.flatMap fun c => List.replicate c.utf8Size c

/-- The red, green or blue channel of six bytes of digits. -/
def channel (digits : List Char) (i : Nat) : Nat :=
  channelValue (((byByte digits).drop (2 * i)).take 2)

def sameDigit (c d : Char) : Bool := c.toLower == d.toLower

/-- One digit for each pair, if all three are pairs of one digit. -/
def shortHex (digits : List Char) : List Char :=
  match digits with
  | [a, b, c, d, e, f] =>
    if (String.ofList digits).utf8ByteSize = 6 && sameDigit a b && sameDigit c d && sameDigit e f
    then [a, c, e] else digits
  | _ => digits

def ColorCase.apply : ColorCase → List Char → List Char
  | .auto, digits => digits
  | .up, digits => digits.flatMap upperChars
  | .down, digits => lowered digits

def colorText (preferences : StylePreferences) (digits : List Char) (channels : Bool) : String :=
  if channels then
    "rgb(" ++ decimalText (channel digits 0) ++ "," ++ decimalText (channel digits 1) ++ "," ++
      decimalText (channel digits 2) ++ ")"
  else
    let hex := if preferences.shorten then shortHex digits else digits
    String.ofList ('#' :: ColorCase.apply preferences.colorCase hex)

namespace Argument

/-- The texts that an argument stands for; the suffix of a color is a second one. -/
def texts (preferences : StylePreferences) (unitless : Bool) : Argument → List String
  | .numeric value unit inferred =>
    if unitless && inferred then [value] else [value ++ unit]
  | .color digits channels suffix =>
    colorText preferences digits.toList channels ::
      (suffix.bind preferences.trailingAliases.get?).toList
  | .word text => [text]

end Argument

end Shorthand.Style
