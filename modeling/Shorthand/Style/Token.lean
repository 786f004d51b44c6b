import Shorthand.Text.Blank

/-! Splitting a style abbreviation at `+`. A `+` usually begins a new declaration,
but before a piece that is empty or looks like an argument it separates arguments,
and the two pieces around it make one token. Pieces are taken two at a time, so a
token holds at most one `+`. -/
namespace Shorthand.Style

/-- Whether a piece continues the arguments before it. -/
def isContinuation : List Char → Bool
  | [] => true
  | '-' :: c :: _ => c.isDigit
  | c :: _ => c == ' ' || c == '#' || c.isDigit || c == '$'

def pairPieces : List (List Char) → List (List Char)
  | [] => []
  | [piece] => [piece]
  | piece :: next :: rest =>
    if isContinuation next then (piece ++ '+' :: next) :: pairPieces rest
    else piece :: pairPieces (next :: rest)

/-- All tokens, blank ones included. -/
def rawTokens (s : List Char) : List (List Char) := pairPieces (s.splitOn '+')

def tokens (s : List Char) : List (List Char) := (rawTokens s).filter (!isBlankText ·)

end Shorthand.Style
