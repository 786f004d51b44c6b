import Shorthand.Node

/-! JSON text of trees. Values are laid out with two blanks for each level, one
entry to a line; lists and objects without entries stay on their line. -/
namespace Shorthand

inductive Json where
  | null
  | bool (b : Bool)
  | number (n : Nat)
  | text (s : String)
  | list (items : List Json)
  | object (entries : List (String × Json))

namespace Json

def hexDigit (n : Nat) : Char := Nat.digitChar n

/-- A character in a string: quotes, backslashes and control characters are escaped. -/
def escapeChar (c : Char) : List Char :=
  match c with
  | '"' => ['\\', '"']
  | '\\' => ['\\', '\\']
  | '\n' => ['\\', 'n']
  | '\r' => ['\\', 'r']
  | '\t' => ['\\', 't']
  | '\x08' => ['\\', 'b']
  | '\x0C' => ['\\', 'f']
  | c =>
    if c.toNat < 0x20 then
      ['\\', 'u', '0', '0', hexDigit (c.toNat / 16), hexDigit (c.toNat % 16)]
    else [c]

def quote (s : String) : String :=
  "\"" ++ String.ofList (s.toList.flatMap escapeChar) ++ "\""

/-- A line break and the margin of a level. -/
def lineBreak (level : Nat) : String := "\n" ++ String.ofList (List.replicate (2 * level) ' ')

/-- The entries of a list or an object between its brackets. -/
def enclose (opening closing : String) (level : Nat) (entries : List String) : String :=
  if entries.isEmpty then opening ++ closing
  else
    opening ++ lineBreak (level + 1) ++ ("," ++ lineBreak (level + 1)).intercalate entries ++
      lineBreak level ++ closing

mutual

def write (level : Nat) : Json → String
  | .null => "null"
  | .bool b => if b then "true" else "false"
  | .number n => decimalText n
  | .text s => quote s
  | .list items => enclose "[" "]" level (writeItems (level + 1) items)
  | .object entries => enclose "\x7b" "\x7d" level (writeEntries (level + 1) entries)

def writeItems (level : Nat) : List Json → List String
  | [] => []
  | item :: rest => item.write level :: writeItems level rest

def writeEntries (level : Nat) : List (String × Json) → List String
  | [] => []
  | (key, value) :: rest => (quote key ++ ": " ++ value.write level) :: writeEntries level rest

end

def ofOption {α : Type} (write : α → Json) : Option α → Json
  | none => .null
  | some a => write a

def ofSegment : Segment → Json
  | .literal s => .object [("literal", .text s)]
  | .numbering n => .object [("numbering", .object
      [("digits", .number n.width), ("ascending", .bool n.ascending), ("base", .number n.base)])]

def ofTemplate (t : Template) : Json := .list (t.segments.map ofSegment)

def ofTag (t : Tag) : List (String × Json) :=
  [("name", ofTemplate t.name),
   ("has_body", .bool t.hasBody),
   ("id", ofOption ofTemplate t.id),
   ("classes", .list (t.classes.map ofTemplate)),
   ("properties", .list (t.properties.map fun (key, value) =>
      .list [.text key, ofTemplate value])),
   ("text", ofOption ofTemplate t.text)]

mutual

def ofNode : Node → Json
  | .tag t => .object (("type", .text "tag") :: ofTag t)
  | .text content => .object [("type", .text "text"), ("content", ofTemplate content)]
  | .copies items => .object [("type", .text "list"), ("items", .list (ofNodes items))]
  | .chain items => .object [("type", .text "sibling"), ("items", .list (ofNodes items))]
  | .nested parent child =>
    .object [("type", .text "parent-child"), ("parent", .object (ofTag parent)),
      ("child", ofNode child)]
  | .filtered filters inner =>
    .object [("type", .text "filter-wrap"), ("filters", .list (filters.map .text)),
      ("inner", ofNode inner)]
  | .filler words => .object [("type", .text "lorem"), ("word_count", .number words)]

def ofNodes : List Node → List Json
  | [] => []
  | item :: rest => ofNode item :: ofNodes rest

end

end Json

end Shorthand
