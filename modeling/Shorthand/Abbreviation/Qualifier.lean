import Shorthand.Failure
import Shorthand.Node
import Shorthand.Text.Blank
import Shorthand.Text.Span

/-! The parts of a tag. After its name a tag has ids, classes and attribute lists
in any order, and then text in braces. Reading a part returns what is left of the
input, and once the first character of a part is consumed it is that part or a
failure: nothing here is tried twice. -/
namespace Shorthand.Abbreviation

/-- What a reader of plain input returns: a value with the rest of the input. -/
abbrev Scanned (α : Type) := Except Failure (α × List Char)

theorem map_eq_ok {α β : Type} {result : Except Failure α} {f : α → β} {value : β} :
    result.map f = .ok value ↔ ∃ first, result = .ok first ∧ f first = value := by
  cases result <;> simp [Except.map]

def isNameStart (c : Char) : Bool := c.isAlpha || c == '!'

def isNameChar (c : Char) : Bool :=
  c.isAlphanum || c == ':' || c == '!' || c == '$' || c == '@' || c == '-'

def isIdentifierChar (c : Char) : Bool :=
  c.isAlphanum || c == '_' || c == '$' || c == '@' || c == '-'

def isKeyChar (c : Char) : Bool := !(isBlank c || c == '=' || c == '"' || c == ']')

/-- The characters of an attribute value without quotes. -/
def isBareChar (c : Char) : Bool :=
  !(isBlank c || c == ',' || c == '+' || c == '>' || c == '{' || c == '}' || c == ')' || c == ']')

inductive Qualifier where
  | id (name : Template)
  | className (name : Template)
  | attributes (entries : List (String × Template))
deriving DecidableEq

namespace Qualifier

def id? : Qualifier → Option Template
  | .id name => some name
  | _ => none

def className? : Qualifier → Option Template
  | .className name => some name
  | _ => none

def entries : Qualifier → List (String × Template)
  | .attributes entries => entries
  | _ => []

end Qualifier

/-- The last id counts; classes and attributes add up. -/
def tagOf (name : Template) (hasBody : Bool) (qualifiers : List Qualifier)
    (text : Option Template) : Tag :=
  { name, hasBody, text
    id := (qualifiers.filterMap Qualifier.id?).getLast?
    classes := qualifiers.filterMap Qualifier.className?
    properties := qualifiers.flatMap Qualifier.entries }

/-- The name of an id or a class. -/
def identifier (missing : Expected) (s : List Char) : Scanned Template :=
  match s.takeWhile isIdentifierChar with
  | [] => .error (.unmet missing true)
  | name => .ok (.ofSelector name, s.dropWhile isIdentifierChar)

/-- A value in quotes; without a closing quote there is none. -/
def quoted? : List Char → Option (List Char × List Char)
  | '"' :: s =>
    match s.dropWhile (· ≠ '"') with
    | [] => none
    | _ :: rest => some (s.takeWhile (· ≠ '"'), rest)
  | _ => none

/-- The value of an attribute as it is written: left out, in quotes, or bare. -/
inductive Written where
  | absent
  | quoted (text : List Char)
  | bare (text : List Char)
deriving DecidableEq

def Written.text : Written → List Char
  | .absent => []
  | .quoted text | .bare text => text

/-- What follows an attribute name. A quote without a partner begins a bare value. -/
def attributeValue : List Char → Written × List Char
  | '=' :: s =>
    match quoted? s with
    | some (text, rest) => (.quoted text, rest)
    | none => (.bare (s.takeWhile isBareChar), s.dropWhile isBareChar)
  | s => (.absent, s)

theorem quoted?_length_lt {s value rest : List Char} (h : quoted? s = some (value, rest)) :
    rest.length < s.length := by
  unfold quoted? at h
  split at h
  · next t =>
    split at h
    · contradiction
    · next c r hr =>
      obtain ⟨-, rfl⟩ := Prod.mk.inj (Option.some.inj h)
      have := length_dropWhile_le (· ≠ '"') t
      rw [hr] at this
      simp only [List.length_cons] at this ⊢
      omega
  · contradiction

theorem attributeValue_length_le (s : List Char) : (attributeValue s).2.length ≤ s.length := by
  unfold attributeValue
  split
  · next t =>
    split
    · next h => exact Nat.le_succ_of_le (Nat.le_of_lt (quoted?_length_lt h))
    · exact Nat.le_succ_of_le (length_dropWhile_le _ _)
  · exact Nat.le_refl _

/-- Attributes up to the closing bracket, as they are written; `before` holds those
read, last first. -/
def attributeList (before : List (List Char × Written)) (s : List Char) :
    Scanned (List (List Char × Written)) :=
  let s' := trimStart s
  if s'.head? = some ']' then .ok (before.reverse, s'.tail)
  else
    let key := s'.takeWhile isKeyChar
    if _hkey : key = [] then .error (.unmet .attributeName true)
    else
      let value := attributeValue (s'.dropWhile isKeyChar)
      attributeList ((key, value.1) :: before) value.2
termination_by s.length
decreasing_by
  exact Nat.lt_of_le_of_lt (attributeValue_length_le _)
    (Nat.lt_of_lt_of_le (length_dropWhile_lt _hkey) (trimStart_length_le s))

theorem attributeList_close (before : List (List Char × Written)) {s rest : List Char}
    (h : trimStart s = ']' :: rest) : attributeList before s = .ok (before.reverse, rest) := by
  rw [attributeList]
  simp only [h, List.head?_cons, if_true, List.tail_cons]

theorem attributeList_entry (before : List (List Char × Written)) {s : List Char}
    (h : (trimStart s).takeWhile isKeyChar ≠ []) :
    attributeList before s =
      attributeList
        (((trimStart s).takeWhile isKeyChar,
          (attributeValue ((trimStart s).dropWhile isKeyChar)).1) :: before)
        (attributeValue ((trimStart s).dropWhile isKeyChar)).2 := by
  have head : (trimStart s).head? ≠ some ']' := by
    intro close
    obtain ⟨t, ht⟩ := List.head?_eq_some_iff.mp close
    exact h (by rw [ht]; rfl)
  rw [attributeList]
  simp only [head, if_false, h, dite_false]

/-- A name with its value; only the value may hold numbering tokens. -/
def attributeOf (written : List Char × Written) : String × Template :=
  (String.ofList written.1, .ofSelector written.2.text)

/-- The attributes of a list whose opening bracket is consumed. -/
def attributes (s : List Char) : Scanned (List (String × Template)) :=
  (attributeList [] s).map fun (list, rest) => (list.map attributeOf, rest)

theorem identifier_length_lt {missing : Expected} {s rest : List Char} {name : Template}
    (h : identifier missing s = .ok (name, rest)) : rest.length < s.length := by
  unfold identifier at h
  split at h
  · contradiction
  · next hne =>
    obtain ⟨-, rfl⟩ := Prod.mk.inj (Except.ok.inj h)
    exact length_dropWhile_lt hne

theorem attributeList_length_lt {before list : List (List Char × Written)} {s rest : List Char}
    (h : attributeList before s = .ok (list, rest)) : rest.length < s.length := by
  fun_induction attributeList before s with
  | case1 before s s' hs =>
    obtain ⟨-, rfl⟩ := Prod.mk.inj (Except.ok.inj h)
    have hlen : s'.length ≤ s.length := trimStart_length_le s
    cases hs' : s' with
    | nil => simp [hs'] at hs
    | cons c t =>
      rw [hs'] at hlen
      simp only [List.tail_cons, List.length_cons] at hlen ⊢
      omega
  | case2 => contradiction
  | case3 before s s' _ key hkey value ih =>
    exact Nat.lt_trans (ih h) (Nat.lt_of_le_of_lt (attributeValue_length_le _)
      (Nat.lt_of_lt_of_le (length_dropWhile_lt hkey) (trimStart_length_le s)))

theorem attributes_eq_ok {s rest : List Char} {entries : List (String × Template)} :
    attributes s = .ok (entries, rest) ↔
      ∃ list, attributeList [] s = .ok (list, rest) ∧ entries = list.map attributeOf := by
  rw [attributes, map_eq_ok]
  constructor
  · rintro ⟨⟨list, _⟩, h, heq⟩
    obtain ⟨rfl, rfl⟩ := Prod.mk.inj heq
    exact ⟨list, h, rfl⟩
  · rintro ⟨list, h, rfl⟩
    exact ⟨(list, rest), h, rfl⟩

theorem attributes_length_lt {entries : List (String × Template)} {s rest : List Char}
    (h : attributes s = .ok (entries, rest)) : rest.length < s.length := by
  obtain ⟨list, h, -⟩ := attributes_eq_ok.mp h
  exact attributeList_length_lt h

/-- Ids, classes and attribute lists; `before` holds those read, last first. -/
def qualifiers (before : List Qualifier) : List Char → Scanned (List Qualifier)
  | '#' :: s =>
    match _hs : identifier .idName s with
    | .error failure => .error failure
    | .ok (name, rest) => qualifiers (.id name :: before) rest
  | '.' :: s =>
    match _hs : identifier .className s with
    | .error failure => .error failure
    | .ok (name, rest) => qualifiers (.className name :: before) rest
  | '[' :: s =>
    match _hs : attributes s with
    | .error failure => .error failure
    | .ok (entries, rest) => qualifiers (.attributes entries :: before) rest
  | s => .ok (before.reverse, s)
termination_by s => s.length
decreasing_by
  · exact Nat.lt_succ_of_lt (identifier_length_lt _hs)
  · exact Nat.lt_succ_of_lt (identifier_length_lt _hs)
  · exact Nat.lt_succ_of_lt (attributes_length_lt _hs)

theorem qualifiers_id (before : List Qualifier) {s rest : List Char} {name : Template}
    (h : identifier .idName s = .ok (name, rest)) :
    qualifiers before ('#' :: s) = qualifiers (.id name :: before) rest := by
  rw [qualifiers]
  split
  · next h' => rw [h] at h'; contradiction
  · next h' =>
    obtain ⟨rfl, rfl⟩ := Prod.mk.inj (Except.ok.inj (h.symm.trans h'))
    rfl

theorem qualifiers_className (before : List Qualifier) {s rest : List Char} {name : Template}
    (h : identifier .className s = .ok (name, rest)) :
    qualifiers before ('.' :: s) = qualifiers (.className name :: before) rest := by
  rw [qualifiers]
  split
  · next h' => rw [h] at h'; contradiction
  · next h' =>
    obtain ⟨rfl, rfl⟩ := Prod.mk.inj (Except.ok.inj (h.symm.trans h'))
    rfl

theorem qualifiers_attributes (before : List Qualifier) {s rest : List Char}
    {entries : List (String × Template)} (h : attributes s = .ok (entries, rest)) :
    qualifiers before ('[' :: s) = qualifiers (.attributes entries :: before) rest := by
  rw [qualifiers]
  split
  · next h' => rw [h] at h'; contradiction
  · next h' =>
    obtain ⟨rfl, rfl⟩ := Prod.mk.inj (Except.ok.inj (h.symm.trans h'))
    rfl

theorem qualifiers_end (before : List Qualifier) {s : List Char}
    (h : ∀ c ∈ s.head?, c ≠ '#' ∧ c ≠ '.' ∧ c ≠ '[') :
    qualifiers before s = .ok (before.reverse, s) := by
  rw [qualifiers]
  · rintro t rfl
    exact (h _ rfl).1 rfl
  · rintro t rfl
    exact (h _ rfl).2.1 rfl
  · rintro t rfl
    exact (h _ rfl).2.2 rfl

/-- Text whose opening brace is consumed. -/
def bracedText (s : List Char) : Scanned Template :=
  match Template.ofBraces? s with
  | none => .error (.unmet .textEnd true)
  | some result => .ok result

/-- The text that may end a tag. -/
def optionalText : List Char → Scanned (Option Template)
  | '{' :: s => (bracedText s).map fun (text, rest) => (some text, rest)
  | s => .ok (none, s)

/-- Everything of a tag that follows its name. -/
def tagBody (name : Template) (hasBody : Bool) (s : List Char) : Scanned Tag :=
  match qualifiers [] s with
  | .error failure => .error failure
  | .ok (found, s) => (optionalText s).map fun (text, rest) => (tagOf name hasBody found text, rest)

/-- The name of a tag and whether no `/` takes its body away. -/
def tagName (s : List Char) : List Char × Bool × List Char :=
  let name := s.takeWhile isNameChar
  match s.dropWhile isNameChar with
  | '/' :: rest => (name, false, rest)
  | rest => (name, true, rest)

/-- The word count of a filler marker without one. -/
def defaultFillerWords : Nat := 30

/-- The word count that a tag name asks for, if it is a filler marker: `lorem` or
`lipsum` and digits. A count that is no machine word counts as left out. -/
def fillerWords? (name : List Char) : Option Nat :=
  match name with
  | 'l' :: 'o' :: 'r' :: 'e' :: 'm' :: digits
  | 'l' :: 'i' :: 'p' :: 's' :: 'u' :: 'm' :: digits =>
    if digits.all Char.isDigit then some ((readWord? digits).getD defaultFillerWords) else none
  | _ => none

/-- The count of a multiplier, if one follows. -/
def repeatCount : List Char → Scanned (Option Nat)
  | '*' :: s =>
    match s.takeWhile isDecimalDigit with
    | [] => .error (.unmet .repeatCount true)
    | digits =>
      match readWord? digits with
      | none => .error (.unmet .wordCount true)
      | some count => .ok (some count, s.dropWhile isDecimalDigit)
  | s => .ok (none, s)

end Shorthand.Abbreviation
