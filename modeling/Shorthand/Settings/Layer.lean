import Shorthand.Settings.Value

/-! Laying settings over each other. Keys are kept in lower case. A table is laid
over a table entry by entry; anything else replaces what was there. A path leads
through tables and lists, and what stands in its way gives way to a table or a
list. -/
namespace Shorthand.Settings

namespace Value

def entries : Value → Table String Value
  | .table entries => entries
  | _ => []

def items : Value → List Value
  | .list items => items
  | _ => []

mutual

/-- Puts a value under a key of what is made a table, if it is none. -/
def put (root : Value) (key : String) : Value → Value
  | .table new =>
    let target := (Table.get? root.entries (lowerCase key)).getD (.table [])
    .table (Table.insert root.entries (lowerCase key) (putAll target new))
  | value => .table (Table.insert root.entries (lowerCase key) value)

/-- Without entries to put, what is there stays even if it is no table. -/
def putAll (target : Value) : List (String × Value) → Value
  | [] => target
  | (key, value) :: rest => putAll (target.put key value) rest

end

end Value

inductive Step where
  | key (name : String)
  | index (i : Int)
deriving DecidableEq

def isPathChar (c : Char) : Bool := c.isAlphanum || c == ' ' || c == '_' || c == '-'

def isSpace (c : Char) : Bool := c == ' ' || c == '\t'

/-- The list index in brackets, whose opening bracket is consumed. -/
def readIndex? (s : List Char) : Option (Int × List Char) :=
  let s := s.dropWhile isSpace
  let (negative, s) := match s with
    | '-' :: s => (true, s)
    | s => (false, s)
  match readWord? (s.takeWhile Char.isDigit), (s.dropWhile Char.isDigit).dropWhile isSpace with
  | some n, ']' :: rest =>
    if n ≤ signedMax ∨ (negative ∧ n = signedMax + 1) then
      some (if negative then -n else n, rest)
    else none
  | _, _ => none

/-- The steps after the first. Each consumes input, so its length bounds their number. -/
def readSteps? : Nat → List Char → Option (List Step)
  | _, [] => some []
  | bound + 1, '.' :: s =>
    match s.takeWhile isPathChar with
    | [] => none
    | name =>
      (readSteps? bound (s.dropWhile isPathChar)).map (.key (String.ofList name) :: ·)
  | bound + 1, '[' :: s =>
    match readIndex? s with
    | none => none
    | some (i, rest) => (readSteps? bound rest).map (.index i :: ·)
  | _, _ => none

/-- A path: a key, and then keys after points and indexes in brackets. -/
def readPath? (path : String) : Option (String × List Step) :=
  let s := path.toList
  match s.takeWhile isPathChar with
  | [] => none
  | name =>
    (readSteps? s.length (s.dropWhile isPathChar)).map fun steps => (String.ofList name, steps)

/-- The place of an index; negative ones count from the end. -/
def place? (i : Int) (length : Nat) : Option Nat :=
  if 0 ≤ i then some i.toNat
  else if (-i).toNat ≤ length then some (length - (-i).toNat) else none

namespace Value

def setAt (items : List Value) (place : Nat) (value : Value) : List Value :=
  (items ++ List.replicate (place + 1 - items.length) nothing).set place value

/-- What stands at a step into the root. -/
def child? (root : Value) : Step → Option Value
  | .key name => some ((Table.get? root.entries (lowerCase name)).getD nothing)
  | .index i => (place? i root.items.length).map fun place => root.items[place]?.getD nothing

/-- The root as a table or a list with another value at a step. -/
def setChild? (root : Value) : Step → Value → Option Value
  | .key name, value => some (.table (Table.insert root.entries (lowerCase name) value))
  | .index i, value =>
    (place? i root.items.length).map fun place => .list (setAt root.items place value)

/-- Puts a value where the steps lead from the root. -/
def assign? (root : Value) (step : Step) : List Step → Value → Option Value
  | [], value =>
    match step with
    | .key name => some (root.put name value)
    | .index _ => root.setChild? step value
  | next :: steps, value => do
    root.setChild? step (← (← root.child? step).assign? next steps value)

end Value

/-- Lays a file over the root: each of its keys, in lower case, is a path, or else a
plain key. -/
def layFile? (root : Value) (file : List (String × Value)) : Option Value :=
  file.foldlM (fun root (key, value) =>
    match readPath? (lowerCase key) with
    | some (name, steps) => root.assign? (.key name) steps value
    | none => some (root.put key value)) root

/-- Lays a single value over the root; its key has to be a path. -/
def layOverride? (root : Value) (path : String) (value : Value) : Option Value :=
  (readPath? path).bind fun (name, steps) => root.assign? (.key name) steps value

end Shorthand.Settings
