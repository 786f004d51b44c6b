import Shorthand.Text.Blank
import Shorthand.Text.Lines

/-! Snippets that replace a tag. The content of the tag goes to the first child
marker, or to the end of a snippet without one; cursor marks are dropped. Further
lines of the content are indented like the line of the marker. -/
namespace Shorthand

structure Snippet where
  before : String
  after : String
  /-- The blanks that begin the line of the marker. -/
  margin : String
deriving DecidableEq

namespace Snippet

def childMarker : List Char := ['$', '{', 'c', 'h', 'i', 'l', 'd', '}']

/-- The text around the first child marker; `before` is what precedes, last first. -/
def splitAtMarker? (before : List Char) : List Char → Option (List Char × List Char)
  | [] => none
  | c :: s =>
    match dropLead? childMarker (c :: s) with
    | some after => some (before.reverse, after)
    | none => splitAtMarker? (c :: before) s

/-- The blanks that begin the last line. -/
def lastMargin (s : List Char) : List Char :=
  ((s.reverse.takeWhile (· ≠ '\n')).reverse).takeWhile isBlank

def compile (source : String) : Snippet :=
  let s := source.toList.filter (· ≠ '|')
  match splitAtMarker? [] s with
  | some (before, after) =>
    { before := String.ofList before
      after := String.ofList after
      margin := String.ofList (lastMargin before) }
  | none => { before := String.ofList s, after := "", margin := "" }

def apply (snippet : Snippet) (content : String) : String :=
  snippet.before ++ replaceChar '\n' ("\n" ++ snippet.margin) content ++ snippet.after

end Snippet

end Shorthand
