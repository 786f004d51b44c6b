import Shorthand.Settings.Toml.Item
import Shorthand.Settings.Toml.Scalar

/-! TOML documents. A table is defined once: by a header, by the keys of dotted
names, or inside braces. A header may still open a table that was only passed
through on the way to another, and dotted names may extend only tables that dotted
names made. -/
namespace Shorthand.Settings.Toml

/-- Changes the entries that a path leads to. Tables on the way are made as needed, and
of several tables under one name the last is meant. -/
def within? (dotted : Bool) : (path : List String) →
    (change : Origin → Entries → Option Entries) → Origin → Entries → Option Entries
  | [], change, origin, entries => change origin entries
  | key :: path, change, _, entries =>
    match Table.get? entries key with
    | none =>
      let origin := if dotted then .dotted else .passed
      (within? dotted path change origin []).map fun inner =>
        Table.insert entries key (.table origin inner)
    | some (.table origin inner) =>
      if origin = .braces ∨ (dotted ∧ origin = .header) then none
      else (within? dotted path change origin inner).map fun inner =>
        Table.insert entries key (.table origin inner)
    | some (.tables items) =>
      match items.getLast? with
      | none => none
      | some last => (within? dotted path change .header last).map fun last =>
        Table.insert entries key (.tables (items.dropLast ++ [last]))
    | some _ => none

/-- Adds an entry under a dotted name to the entries of a table. -/
def define? (path : List String) (item : Item) (origin : Origin) (entries : Entries) :
    Option Entries :=
  match path.getLast? with
  | none => none
  | some key =>
    within? true path.dropLast (fun origin entries =>
      if (1 < path.length ∧ origin ≠ .dotted) ∨ Table.has entries key then none
      else some (entries ++ [(key, item)])) origin entries

/-- Opens the table of a header, which comes behind the tables that are there. -/
def openTable? (path : List String) (entries : Entries) : Option Entries :=
  match path.getLast? with
  | none => none
  | some key =>
    within? false path.dropLast (fun _ entries =>
      match Table.get? entries key with
      | none => some (entries ++ [(key, .table .header [])])
      | some (.table .passed inner) =>
        some (Table.erase entries key ++ [(key, .table .header inner)])
      | _ => none) .header entries

/-- Opens one more table under the name of a header in double brackets. -/
def openTables? (path : List String) (entries : Entries) : Option Entries :=
  match path.getLast? with
  | none => none
  | some key =>
    within? false path.dropLast (fun _ entries =>
      match Table.get? entries key with
      | none => some (entries ++ [(key, .tables [[]])])
      | some (.tables items) => some (Table.insert entries key (.tables (items ++ [[]])))
      | _ => none) .header entries

/-- Values up to the closing bracket of a list. -/
def listItems? (item? : Reader Item) : (bound : Nat) → Reader (List Item)
  | 0, _ => none
  | bound + 1, s =>
    match skipTrivia false s with
    | ']' :: rest => some ([], rest)
    | s =>
      match item? s with
      | none => none
      | some (item, s) =>
        match skipTrivia false s with
        | ',' :: s => (listItems? item? bound s).map fun (items, rest) => (item :: items, rest)
        | ']' :: rest => some ([item], rest)
        | _ => none

/-- A key, `=`, and an item. -/
def entry? (item? : Reader Item) (s : List Char) : Option ((List String × Item) × List Char) :=
  match keyPath? s with
  | some (path, '=' :: s) =>
    (item? (skipSpaces s)).map fun (item, rest) => ((path, item), rest)
  | _ => none

/-- Entries up to the closing brace of a table. -/
def braceEntries? (item? : Reader Item) : (bound : Nat) → Entries → Reader Entries
  | 0, _, _ => none
  | bound + 1, entries, s =>
    match entry? item? s with
    | none => none
    | some ((path, item), s) =>
      match define? path item .braces entries with
      | none => none
      | some entries =>
        match skipSpaces s with
        | ',' :: s => braceEntries? item? bound entries s
        | '}' :: rest => some (entries, rest)
        | _ => none

/-- The table in braces after the opening one. -/
def braces? (item? : Reader Item) (s : List Char) : Option (Item × List Char) :=
  let entries? := match skipSpaces s with
    | '}' :: rest => some ([], rest)
    | s => braceEntries? item? s.length [] s
  entries?.map fun (entries, rest) => (.table .braces entries, rest)

/-- An item on the right of `=`, which nests lists and tables at most `levels` deep. -/
def item? : (levels : Nat) → Reader Item
  | levels + 1, '[' :: s =>
    (listItems? (item? levels) (s.length + 1) s).map fun (items, rest) => (.list items, rest)
  | levels + 1, '{' :: s => braces? (item? levels) s
  | _, s =>
    match moment? s with
    | some (moment, rest) => some (.moment moment, rest)
    | none => (scalar? s).map fun (v, rest) => (.scalar v, rest)

/-- The path in a header, up to its closing brackets and the end of the line. -/
def header? (closing : List Char) (s : List Char) : Option (List String × List Char) :=
  match keyPath? s with
  | none => none
  | some (path, s) =>
    if closing.isPrefixOf s then (lineEnd? (s.drop closing.length)).map (path, ·) else none

/-- Reads line by line; `current` is the path of the table that was opened last. -/
def lines? : (bound : Nat) → (current : List String) → Entries → List Char → Option Entries
  | 0, _, _, _ => none
  | bound + 1, current, entries, s =>
    match skipTrivia false s with
    | [] => some entries
    | '[' :: '[' :: s =>
      match header? [']', ']'] s with
      | none => none
      | some (path, rest) =>
        (openTables? path entries).bind fun entries => lines? bound path entries rest
    | '[' :: s =>
      match header? [']'] s with
      | none => none
      | some (path, rest) =>
        (openTable? path entries).bind fun entries => lines? bound path entries rest
    | s =>
      match entry? (item? maxLevels) s with
      | none => none
      | some ((path, item), s) =>
        match lineEnd? s, within? false current (define? path item) .header entries with
        | some rest, some entries => lines? bound current entries rest
        | _, _ => none

/-- The entries of a document; a byte order mark in front does not count. -/
def read? (source : String) : Option (List (String × Value)) :=
  let s := source.toList
  let s := if s.head? = some '\uFEFF' then s.tail else s
  match (lines? (s.length + 1) [] [] s).bind tableValue? with
  | some (.table entries) => some entries
  | _ => none

end Shorthand.Settings.Toml
