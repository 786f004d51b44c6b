import Shorthand.Numbering
import Shorthand.Text.Bytes

/-! Text that may hold numbering tokens. A template is a list of characters and
tokens, so two templates are equal exactly when they read the same; the segments
of a template are its longest runs of characters and the tokens between them. -/
namespace Shorthand

inductive Piece where
  | char (c : Char)
  | number (n : Numbering)
deriving DecidableEq

structure Template where
  pieces : List Piece
deriving DecidableEq

/-- A run of characters or a token. -/
inductive Segment where
  | literal (text : String)
  | numbering (n : Numbering)
deriving DecidableEq

namespace Piece

/-- What a piece stands for in copy `index` out of `limit`. -/
def chars (index limit : Nat) : Piece → List Char
  | .char c => [c]
  | .number n => n.digits index limit

def char? : Piece → Option Char
  | .char c => some c
  | .number _ => none

end Piece

def Segment.pieces : Segment → List Piece
  | .literal text => text.toList.map .char
  | .numbering n => [.number n]

namespace Template

def empty : Template := ⟨[]⟩

def ofChars (s : List Char) : Template := ⟨s.map .char⟩

def ofText (text : String) : Template := ofChars text.toList

def ofSegments (segments : List Segment) : Template := ⟨segments.flatMap Segment.pieces⟩

/-- One more segment at the end. -/
def push (t : Template) (segment : Segment) : Template := ⟨t.pieces ++ segment.pieces⟩

def chars (t : Template) (index limit : Nat) : List Char :=
  t.pieces.flatMap (Piece.chars index limit)

/-- Every token becomes its number in copy `index` out of `limit`. -/
def resolve (t : Template) (index limit : Nat) : Template := ofChars (t.chars index limit)

/-- The text of a template outside any multiplier, where it is the only copy. -/
def toText (t : Template) : String := String.ofList (t.chars 0 1)

/-- The text of a template without tokens. -/
def literal? (t : Template) : Option String := (t.pieces.mapM Piece.char?).map String.ofList

/-- The characters not yet closed off by a token stand before the segments that follow. -/
def segmentStep (piece : Piece) (after : List Char × List Segment) : List Char × List Segment :=
  match piece with
  | .char c => (c :: after.1, after.2)
  | .number n => ([], .numbering n :: closeRun after)
where
  closeRun : List Char × List Segment → List Segment
    | ([], segments) => segments
    | (run, segments) => .literal (String.ofList run) :: segments

def segments (t : Template) : List Segment :=
  segmentStep.closeRun (t.pieces.foldr segmentStep ([], []))

/-- The literals and tokens of a selector as they are found: the text up to each `$`, and the
token that begins there. -/
def selectorSegments (s : List Char) : List Segment :=
  match _left : s.dropWhile (· != '$') with
  | [] => [.literal (String.ofList s)]
  | _ :: rest =>
    .literal (String.ofList (s.takeWhile (· != '$'))) :: .numbering (Numbering.read rest).1 ::
      selectorSegments (Numbering.read rest).2
termination_by s.length
decreasing_by
  have behind := Numbering.read_length_le rest
  have shorter := length_dropWhile_le (· != '$') s
  rw [_left, List.length_cons] at shorter
  omega

/-- Reads a tag name, an id, a class or an attribute value. -/
def ofSelector (s : List Char) : Template := ofSegments (selectorSegments s)

/-- The literals and tokens of a text up to the brace that closes it, and what stands behind the
brace. A backslash makes the next character literal, so that neither `}` nor `$` has its meaning
there. The characters of `run` are not put in yet: a token or the brace ends the run. -/
def bracedSegments? (run : String) : List Char → Option (List Segment × List Char)
  | [] => none
  | c :: s =>
    if c = '}' then some ([.literal run], s)
    else if c = '\\' then
      match s with
      | [] => none
      | d :: s => bracedSegments? (run.push d) s
    else if c = '$' then
      let token := Numbering.read s
      -- what is left of the input tells the bytes of the token, and these its characters,
      -- of which the sign is passed already
      let taken := takeBytes (byteLength (c :: s) - byteLength token.2) (c :: s)
      (bracedSegments? "" (s.drop (taken.length - 1))).map fun found =>
        (.literal run :: .numbering token.1 :: found.1, found.2)
    else bracedSegments? (run.push c) s
termination_by s => s.length
decreasing_by
  · simp only [List.length_cons]; omega
  · simp only [List.length_cons, List.length_drop]; omega
  · simp

/-- Reads text whose opening brace is consumed. -/
def ofBraces? (s : List Char) : Option (Template × List Char) :=
  (bracedSegments? "" s).map fun found => (ofSegments found.1, found.2)

end Template

end Shorthand
