import Shorthand.Text.Case.Cased
import Shorthand.Text.Case.Table

/-! Letter case. A character without a partner is its own. Each character is mapped by
itself, except for the capital sigma: its lower case depends on whether it ends a
word. -/
namespace Shorthand

/-- The partner of the character `n`, if it is in the run. -/
def CaseRun.partner? (run : CaseRun) (n : Nat) : Option Nat :=
  if run.first ≤ n ∧ n ≤ run.last ∧ (n - run.first) % run.step = 0 then
    some (run.partner + (n - run.first))
  else none

def partnerIn (runs : List CaseRun) (c : Char) : Char :=
  ((runs.findSome? (·.partner? c.toNat)).map Char.ofNat).getD c

/-- What stands for a character in upper case. -/
def upperChars (c : Char) : List Char :=
  if c.toNat < 0x80 then [c.toUpper]
  else
    match upperSequences.lookup c.toNat with
    | some sequence => sequence.map Char.ofNat
    | none => [partnerIn upperRuns c]

/-- What stands for a character in lower case. Only the dotted capital I keeps its dot
as a character of its own. -/
def lowerChars (c : Char) : List Char :=
  if c.toNat < 0x80 then [c.toLower]
  else if c = '\u0130' then ['i', '\u0307']
  else [partnerIn lowerRuns c]

/-- Whether a letter with case comes first, apart from characters that are ignored. -/
def meetsCased (s : List Char) : Bool := (s.find? (!isCaseIgnorable ·)).any isCased

/-- The lower case of a capital sigma between the characters before it, last first, and
those after it. It is final where a letter with case comes before it and none after. -/
def lowerSigma (before after : List Char) : Char :=
  if meetsCased before && !meetsCased after then 'ς' else 'σ'

/-- Characters in lower case after those before them, last first. -/
def loweredAfter (before : List Char) : List Char → List Char
  | [] => []
  | c :: after =>
    (if c = 'Σ' then [lowerSigma before after] else lowerChars c) ++ loweredAfter (c :: before) after

def lowered (s : List Char) : List Char := loweredAfter [] s

/-- Text in lower case. -/
def lowerCase (s : String) : String := String.ofList (lowered s.toList)

end Shorthand
