import Shorthand.Tables
import Shorthand.Text.Blank
import Shorthand.Text.Digit
import Shorthand.Text.Lines
import Shorthand.Text.Span

/-! Arguments of a declaration: numbers with units, hexadecimal colors, and words.
Blanks and `+` separate arguments, and a number or a color also ends where its
notation ends. A number without a unit is in pixels, or in ems when it is written
with a point. -/
namespace Shorthand.Style

inductive Argument where
  /-- A number; `inferred` when its unit was not written. -/
  | numeric (value unit : String) (inferred : Bool)
  /-- A color of six digits, to be printed in decimal channels or not. -/
  | color (digits : String) (channels : Bool) (suffix : Option String)
  | word (text : String)
deriving DecidableEq

def isHexDigit (c : Char) : Bool :=
  c.isDigit || ('a' ≤ c && c ≤ 'f') || ('A' ≤ c && c ≤ 'F')

def isSeparator (c : Char) : Bool := isBlank c || c == '+'

def isUnitChar (c : Char) : Bool := c.isAlpha || c == '%'

/-- Digits with an optional point among or before them; the rest follows. -/
def unsigned? (s : List Char) : Option (List Char × List Char) :=
  match s.takeWhile Char.isDigit, s.dropWhile Char.isDigit with
  | [], '.' :: s =>
    match s.takeWhile Char.isDigit with
    | [] => none
    | fraction => some ('.' :: fraction, s.dropWhile Char.isDigit)
  | [], _ => none
  | whole, '.' :: s => some (whole ++ '.' :: s.takeWhile Char.isDigit, s.dropWhile Char.isDigit)
  | whole, s => some (whole, s)

/-- A number with an optional minus sign. -/
def number? : List Char → Option (List Char × List Char)
  | '-' :: s => (unsigned? s).map fun (value, rest) => ('-' :: value, rest)
  | s => unsigned? s

def inferredUnit (value : List Char) : String := if '.' ∈ value then "em" else "px"

def numeric? (units : Table String String) (s : List Char) : Option (Argument × List Char) :=
  (number? s).map fun (value, s) =>
    match s.takeWhile isUnitChar with
    | [] => (.numeric (String.ofList value) (inferredUnit value) true, s)
    | unit =>
      let unit := String.ofList unit
      (.numeric (String.ofList value) ((units.get? unit).getD unit) false, s.dropWhile isUnitChar)

/-- Six digits for a run of digits: one or two digits are repeated, three are doubled
each, and of a longer run twice over the first six are taken. -/
def expandHex (digits : List Char) : List Char :=
  match (String.ofList digits).utf8ByteSize with
  | 1 => (List.replicate 6 digits).flatten
  | 2 => (List.replicate 3 digits).flatten
  | 3 => digits.flatMap fun c => [c, c]
  | _ => (digits ++ digits).take 6

/-- The least of the suffixes that stand at the front of the input. -/
def suffix? (suffixes : List String) (s : List Char) : Option String :=
  (suffixes.filter fun suffix => (dropLead? suffix.toList s).isSome).foldl (fun least suffix =>
    match least with
    | none => some suffix
    | some best => if suffix.length < best.length then some suffix else some best) none

/-- The letters that ask for decimal channels, and the rest. -/
def channelMark (s : List Char) : Bool × List Char :=
  match dropLead? ['r', 'g', 'b'] s with
  | some rest => (true, rest)
  | none => (false, s)

/-- Up to six digits after a `#`. -/
def hexRun (s : List Char) : List Char := (s.take 6).takeWhile isHexDigit

def color? (preferences : StylePreferences) : List Char → Option (Argument × List Char)
  | '#' :: s =>
    match hexRun s with
    | [] => none
    | digits =>
      let marked := channelMark (s.drop digits.length)
      let suffix := suffix? preferences.trailingAliases.keys marked.2
      some (.color (String.ofList (expandHex digits)) marked.1 suffix,
        marked.2.drop ((suffix.map String.length).getD 0))
  | _ => none

def word (s : List Char) : Argument × List Char :=
  (.word (String.ofList (s.takeWhile (!isBlank ·))), s.dropWhile (!isBlank ·))

/-- The argument at the front of the input. -/
def argument (tables : Tables) (s : List Char) : Argument × List Char :=
  match numeric? tables.unitAliases s with
  | some result => result
  | none => (color? tables.preferences s).getD (word s)

theorem unsigned?_length_lt {s value rest : List Char} (h : unsigned? s = some (value, rest)) :
    rest.length < s.length := by
  have hlen := congrArg List.length (List.takeWhile_append_dropWhile (p := Char.isDigit) (l := s))
  rw [List.length_append] at hlen
  have hdrop := length_dropWhile_le Char.isDigit
  unfold unsigned? at h
  split at h
  · next t _ hd =>
    rw [hd, List.length_cons] at hlen
    split at h
    · contradiction
    · obtain ⟨-, rfl⟩ := Prod.mk.inj (Option.some.inj h)
      exact Nat.lt_of_le_of_lt (hdrop t) (by omega)
  · contradiction
  · next t hd _ =>
    obtain ⟨-, rfl⟩ := Prod.mk.inj (Option.some.inj h)
    rw [hd, List.length_cons] at hlen
    exact Nat.lt_of_le_of_lt (hdrop t) (by omega)
  · next hne _ _ =>
    obtain ⟨-, rfl⟩ := Prod.mk.inj (Option.some.inj h)
    have := List.length_pos_iff.mpr hne
    omega

theorem number?_length_lt {s value rest : List Char} (h : number? s = some (value, rest)) :
    rest.length < s.length := by
  unfold number? at h
  split at h
  · obtain ⟨p, hp, heq⟩ := Option.map_eq_some_iff.mp h
    obtain ⟨-, rfl⟩ := Prod.mk.inj heq
    exact Nat.lt_succ_of_lt (unsigned?_length_lt hp)
  · exact unsigned?_length_lt h

theorem numeric?_length_lt {units : Table String String} {s rest : List Char} {arg : Argument}
    (h : numeric? units s = some (arg, rest)) : rest.length < s.length := by
  obtain ⟨p, hp, heq⟩ := Option.map_eq_some_iff.mp h
  have hlt := number?_length_lt hp
  dsimp only at heq
  split at heq
  · obtain ⟨-, rfl⟩ := Prod.mk.inj heq
    exact hlt
  · obtain ⟨-, rfl⟩ := Prod.mk.inj heq
    exact Nat.lt_of_le_of_lt (length_dropWhile_le _ _) hlt

theorem channelMark_length_le (s : List Char) : (channelMark s).2.length ≤ s.length := by
  unfold channelMark
  split
  · next rest h =>
    have := congrArg List.length (dropLead?_eq_some h)
    simp only [List.length_append, List.length_cons, List.length_nil] at this ⊢
    omega
  · exact Nat.le_refl _

theorem color?_length_lt {preferences : StylePreferences} {s rest : List Char} {arg : Argument}
    (h : color? preferences s = some (arg, rest)) : rest.length < s.length := by
  unfold color? at h
  split at h
  · next t =>
    split at h
    · contradiction
    · obtain ⟨-, rfl⟩ := Prod.mk.inj (Option.some.inj h)
      have := channelMark_length_le (t.drop (hexRun t).length)
      simp only [List.length_drop, List.length_cons] at this ⊢
      omega
  · contradiction

theorem argument_length_lt (tables : Tables) {c : Char} {s : List Char} (h : isBlank c = false) :
    (argument tables (c :: s)).2.length < (c :: s).length := by
  unfold argument
  split
  · next result hn => exact numeric?_length_lt hn
  · cases hc : color? tables.preferences (c :: s) with
    | some result => exact color?_length_lt hc
    | none =>
      simp only [Option.getD_none, word, List.dropWhile_cons, h, Bool.not_false, if_true]
      exact Nat.lt_succ_of_le (length_dropWhile_le _ _)

/-- All arguments of an argument text. -/
def arguments (tables : Tables) (s : List Char) : List Argument :=
  match _hs : s.dropWhile isSeparator with
  | [] => []
  | c :: rest =>
    let found := argument tables (c :: rest)
    found.1 :: arguments tables found.2
termination_by s.length
decreasing_by
  have hle := length_dropWhile_le isSeparator s
  have hsep : isSeparator c = false := by
    have := List.head?_dropWhile_not isSeparator s
    simpa [_hs] using this
  rw [_hs] at hle
  exact Nat.lt_of_lt_of_le
    (argument_length_lt tables (Bool.or_eq_false_iff.mp hsep).1) hle

end Shorthand.Style
