import Shorthand.Style.Argument

/-! A declaration as it is abbreviated: a key, arguments, vendor prefixes asked for
by a leading `-`, and `!` at the end. The key reaches to the first blank, `#` or
digit, but a sign or point right before a digit belongs to the number. -/
namespace Shorthand.Style

inductive Vendors where
  | none
  /-- The vendors that are known for the key or the property. -/
  | automatic
  | explicit (names : List String)
deriving DecidableEq

structure Declaration where
  key : String
  vendors : Vendors := .none
  important : Bool := false
  args : List Argument := []
deriving DecidableEq

def isVendorLetter (c : Char) : Bool := c == 'w' || c == 'm' || c == 's' || c == 'o'

def vendorName : Char → String
  | 'w' => "webkit"
  | 'm' => "moz"
  | 's' => "ms"
  | _ => "o"

/-- The vendors asked for, and the rest. Letters between two hyphens spell them out. -/
def vendorPart : List Char → Vendors × List Char
  | '-' :: s =>
    match s.takeWhile isVendorLetter, s.dropWhile isVendorLetter with
    | c :: letters, '-' :: rest =>
      (.explicit ((c :: letters).map vendorName).eraseDups, rest)
    | _, _ => (.automatic, s)
  | s => (.none, s)

def isKeyChar (c : Char) : Bool := !(isBlank c || c == '#' || c.isDigit)

/-- The key and the text of the arguments. -/
def keyPart (s : List Char) : List Char × List Char :=
  let key := s.takeWhile isKeyChar
  let args := s.dropWhile isKeyChar
  match key.getLast?, args with
  | some mark, c :: _ =>
    if (mark = '-' ∨ mark = '.') ∧ 1 < key.length ∧ c.isDigit then (key.dropLast, mark :: args)
    else (key, args)
  | _, _ => (key, args)

/-- The text without a final `!`, and whether there was one. -/
def importantPart (s : List Char) : List Char × Bool :=
  match dropLast? '!' s with
  | some s => (s, true)
  | none => (s, false)

def declaration (tables : Tables) (token : List Char) : Declaration :=
  let (token, important) := importantPart (trim token)
  let (vendors, body) := vendorPart token
  let (key, args) := keyPart body
  { key := String.ofList key, vendors, important, args := arguments tables args }

end Shorthand.Style
