import Shorthand.Text.Span

/-! White space in running text. A blank is a code point with the Unicode
property White_Space; format characters such as the zero-width space are not
blanks. Trimming removes the blanks at either end and nothing else. -/
namespace Shorthand

def isBlank (c : Char) : Bool :=
  let v := c.val
  v == 0x20 || (0x09 ≤ v && v ≤ 0x0D) || v == 0x85 || v == 0xA0 || v == 0x1680 ||
    (0x2000 ≤ v && v ≤ 0x200A) || v == 0x2028 || v == 0x2029 || v == 0x202F ||
    v == 0x205F || v == 0x3000

def trimStart (s : List Char) : List Char := s.dropWhile isBlank

def trimEnd (s : List Char) : List Char := (s.reverse.dropWhile isBlank).reverse

def trim (s : List Char) : List Char := trimEnd (trimStart s)

theorem trimStart_length_le (s : List Char) : (trimStart s).length ≤ s.length :=
  length_dropWhile_le _ _

/-- The text without the blanks at its ends. -/
def trimmed (s : String) : String := String.ofList (trim s.toList)

def isBlankText (s : List Char) : Bool := s.all isBlank

end Shorthand
