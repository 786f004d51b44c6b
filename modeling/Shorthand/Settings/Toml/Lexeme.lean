/-! Characters, line ends, comments and strings of TOML. A reader takes what it
reads off the front of the input; it fails where the format is violated. -/
namespace Shorthand.Settings.Toml

abbrev Reader (α : Type) := List Char → Option (α × List Char)

def isSpace (c : Char) : Bool := c == ' ' || c == '\t'

/-- Characters that may stand in a comment: no control characters but the tab. -/
def isPlain (c : Char) : Bool := c == '\t' || (0x20 ≤ c.val && c.val ≠ 0x7F)

def skipSpaces (s : List Char) : List Char := s.dropWhile isSpace

def newline? : List Char → Option (List Char)
  | '\n' :: s => some s
  | '\r' :: '\n' :: s => some s
  | _ => none

/-- Skips spaces, line ends and comments. -/
def skipTrivia (inComment : Bool) : List Char → List Char
  | [] => []
  | '\n' :: s => skipTrivia false s
  | '\r' :: '\n' :: s => skipTrivia false s
  | c :: s =>
    if inComment then (if isPlain c then skipTrivia true s else c :: s)
    else if c = '#' then skipTrivia true s
    else if isSpace c then skipTrivia false s
    else c :: s

/-- The end of a line, with a comment before it if there is one. -/
def lineEnd? (s : List Char) : Option (List Char) :=
  let s := match skipSpaces s with
    | '#' :: s => s.dropWhile isPlain
    | s => s
  if s = [] then some [] else newline? s

def hexDigitValue? (c : Char) : Option Nat :=
  if c.isDigit then some (c.toNat - '0'.toNat)
  else if 'a' ≤ c ∧ c ≤ 'f' then some (c.toNat - 'a'.toNat + 10)
  else if 'A' ≤ c ∧ c ≤ 'F' then some (c.toNat - 'A'.toNat + 10)
  else none

/-- The character whose code point is written in `length` hexadecimal digits. -/
def codePoint? (length : Nat) : Reader Char := fun s =>
  if s.length < length then none
  else
    match (s.take length).mapM hexDigitValue? with
    | none => none
    | some digits =>
      let n := digits.foldl (fun n digit => 16 * n + digit) 0
      if n.isValidChar then some (Char.ofNat n, s.drop length) else none

/-- What a backslash stands for, together with what follows it. -/
def escape? : Reader Char
  | 'b' :: s => some ('\x08', s)
  | 't' :: s => some ('\t', s)
  | 'n' :: s => some ('\n', s)
  | 'f' :: s => some ('\x0C', s)
  | 'r' :: s => some ('\r', s)
  | '"' :: s => some ('"', s)
  | '\\' :: s => some ('\\', s)
  | 'u' :: s => codePoint? 4 s
  | 'U' :: s => codePoint? 8 s
  | _ => none

/-- A string in double quotes on one line, after its opening quote. The length of the
input bounds the number of steps; `before` holds what is read, last first. -/
def basicString? : (bound : Nat) → (before : List Char) → Reader (List Char)
  | bound + 1, before, c :: s =>
    if c = '"' then some (before.reverse, s)
    else if c = '\\' then
      match escape? s with
      | none => none
      | some (c, s) => basicString? bound (c :: before) s
    else if isPlain c then basicString? bound (c :: before) s
    else none
  | _, _, _ => none

/-- A string in single quotes on one line, after its opening quote. -/
def literalString? (s : List Char) : Option (List Char × List Char) :=
  match s.dropWhile fun c => isPlain c && c ≠ '\'' with
  | '\'' :: rest => some (s.takeWhile fun c => isPlain c && c ≠ '\'', rest)
  | _ => none

/-- The end of a string in triple quotes: up to two more quotes belong to the string. -/
def tripleEnd? (quote : Char) (s : List Char) : Option (List Char × List Char) :=
  let run := (s.take 5).takeWhile (· = quote)
  if run.length < 3 then none else some (run.drop 3, s.drop run.length)

def skipBlankLines : List Char → List Char
  | [] => []
  | '\n' :: s => skipBlankLines s
  | '\r' :: '\n' :: s => skipBlankLines s
  | c :: s => if isSpace c then skipBlankLines s else c :: s

/-- What follows a line whose end is escaped, without blank lines and margins. -/
def escapedLineEnd? (s : List Char) : Option (List Char) :=
  (newline? (skipSpaces s)).map skipBlankLines

/-- The body of a string in triple quotes. Escapes count in double quotes only. -/
def tripleString? (quote : Char) : (bound : Nat) → (before : List Char) → Reader (List Char)
  | bound + 1, before, s =>
    match tripleEnd? quote s with
    | some (quotes, rest) => some (before.reverse ++ quotes, rest)
    | none =>
      match newline? s with
      | some rest => tripleString? quote bound ('\n' :: before) rest
      | none =>
        match s with
        | [] => none
        | c :: s =>
          if c = '\\' ∧ quote = '"' then
            match escapedLineEnd? s with
            | some rest => tripleString? quote bound before rest
            | none =>
              match escape? s with
              | none => none
              | some (c, rest) => tripleString? quote bound (c :: before) rest
          else if isPlain c then tripleString? quote bound (c :: before) s
          else none
  | _, _, _ => none

/-- A string in triple quotes after them; a line end right there does not count. -/
def tripleBody? (quote : Char) (s : List Char) : Option (List Char × List Char) :=
  let body := (newline? s).getD s
  tripleString? quote (body.length + 1) [] body

def isBareKeyChar (c : Char) : Bool := c.isAlphanum || c == '_' || c == '-'

def text (read : List Char × List Char) : String × List Char := (String.ofList read.1, read.2)

def simpleKey? : Reader String
  | '"' :: s => (basicString? s.length [] s).map text
  | '\'' :: s => (literalString? s).map text
  | s =>
    match s.takeWhile isBareKeyChar with
    | [] => none
    | name => some (String.ofList name, s.dropWhile isBareKeyChar)

/-- How many keys a dotted name may join, and how deep values may nest. -/
def maxLevels : Nat := 79

/-- At most `levels` keys joined by points, blanks around them included. -/
def keys? : (levels : Nat) → Reader (List String)
  | 0, _ => none
  | levels + 1, s =>
    match simpleKey? (skipSpaces s) with
    | none => none
    | some (name, s) =>
      match skipSpaces s with
      | '.' :: s => (keys? levels s).map fun (names, rest) => (name :: names, rest)
      | s => some ([name], s)

/-- The path that a key leads along. -/
def keyPath? : Reader (List String) := keys? maxLevels

def string? : Reader String
  | '"' :: '"' :: '"' :: s => (tripleBody? '"' s).map text
  | '\'' :: '\'' :: '\'' :: s => (tripleBody? '\'' s).map text
  | '"' :: s => (basicString? s.length [] s).map text
  | '\'' :: s => (literalString? s).map text
  | _ => none

end Shorthand.Settings.Toml
