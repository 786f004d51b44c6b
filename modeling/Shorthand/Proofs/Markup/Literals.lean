import Shorthand.Markup.Hiccup
import Shorthand.Proofs.Markup.Marks
import Mathlib.Data.List.Basic

/-! String literals in Hiccup. A reader goes through a text and decodes the literals in it. What
is quoted reads as what it was. Where a text is moved to the right, so are its literals, and the
strings that are read gain blanks behind the line breaks in them. -/
namespace Shorthand.Hiccup

open Markup

/-- Where the reader stands. -/
inductive Place where
  | outside
  /-- In a string, behind some characters of it. -/
  | inside (seen : List Char)
  /-- In a string, behind a backslash. -/
  | escape (seen : List Char)

def readLiterals : Place → List Char → Option (List String)
  | .outside, [] => some []
  | .inside _, [] | .escape _, [] => none
  | .outside, c :: s => readLiterals (if c = '"' then .inside [] else .outside) s
  | .inside seen, c :: s =>
    if c = '"' then (readLiterals .outside s).map (String.ofList seen :: ·)
    else if c = '\\' then readLiterals (.escape seen) s
    else readLiterals (.inside (seen ++ [c])) s
  | .escape seen, c :: s =>
    if c = '"' ∨ c = '\\' then readLiterals (.inside (seen ++ [c])) s else none

/-- The strings whose literals stand in a text. -/
def literals (text : String) : Option (List String) := readLiterals .outside text.toList

section Reading

variable {s : List Char}

/-- What is read first does not depend on what follows. -/
theorem readLiterals_append {place : Place} {found : List String}
    (h : readLiterals place s = some found) (t : List Char) :
    readLiterals place (s ++ t) = (readLiterals .outside t).map (found ++ ·) := by
  induction s generalizing place found with
  | nil =>
    cases place with
    | outside =>
      obtain rfl := Option.some.inj h
      simp
    | inside seen | escape seen => contradiction
  | cons c s ih =>
    cases place with
    | outside =>
      rw [readLiterals] at h
      rw [List.cons_append, readLiterals]
      exact ih h
    | inside seen =>
      rw [readLiterals] at h
      rw [List.cons_append, readLiterals]
      split at h
      · next closing =>
        obtain ⟨rest, read, rfl⟩ := Option.map_eq_some_iff.mp h
        rw [if_pos closing, ih read, Option.map_map]
        rfl
      · next other =>
        rw [if_neg other]
        split at h
        · next escapes => rw [if_pos escapes]; exact ih h
        · next plain => rw [if_neg plain]; exact ih h
    | escape seen =>
      rw [readLiterals] at h
      rw [List.cons_append, readLiterals]
      split at h
      · next escaped => rw [if_pos escaped]; exact ih h
      · contradiction

theorem readLiterals_outside (unquoted : '"' ∉ s) : readLiterals .outside s = some [] := by
  induction s with
  | nil => rfl
  | cons c s ih =>
    obtain ⟨plain, unquoted⟩ := List.ne_and_not_mem_of_not_mem_cons unquoted
    rw [readLiterals, if_neg (Ne.symm plain)]
    exact ih unquoted

/-- How a character of a string is written. -/
def escaped (c : Char) : List Char := if c = '"' ∨ c = '\\' then ['\\', c] else [c]

/-- A string is read character by character. -/
theorem readLiterals_escaped (s seen t : List Char) :
    readLiterals (.inside seen) (s.flatMap escaped ++ t) =
      readLiterals (.inside (seen ++ s)) t := by
  have step (c : Char) (seen t : List Char) :
      readLiterals (.inside seen) (escaped c ++ t) = readLiterals (.inside (seen ++ [c])) t := by
    unfold escaped
    split
    · next special => simp [readLiterals, special]
    · next plain => simp [readLiterals, not_or.mp plain]
  induction s generalizing seen with
  | nil => simp
  | cons c s ih =>
    rw [List.flatMap_cons, List.append_assoc, step, ih, List.append_assoc, List.singleton_append]

theorem toList_quote (text : String) :
    (quote text).toList = '"' :: text.toList.flatMap escaped ++ ['"'] := by
  have each : ∀ c : Char,
      (if c = '\\' then ['\\', '\\'] else [c]).flatMap
        (fun d => if d = '"' then ['\\', '"'] else [d]) = escaped c := by
    intro c
    unfold escaped
    by_cases backslash : c = '\\'
    · subst backslash
      decide
    · by_cases quote : c = '"' <;> simp [backslash, quote]
  simp [quote, replaceChar, List.flatMap_assoc, each]

theorem literals_quote (text : String) : literals (quote text) = some [text] := by
  rw [literals, toList_quote, List.cons_append, readLiterals, if_pos rfl, readLiterals_escaped,
    List.nil_append]
  simp [readLiterals]

end Reading

section Moving

variable {unit : String}

/-- Where the reader stands when the text before it is moved. -/
def Place.expand (margin : List Char) : Place → Place
  | .outside => .outside
  | .inside seen => .inside (Markup.expand margin seen)
  | .escape seen => .escape (Markup.expand margin seen)

/-- Strings move with the text in which they stand. -/
theorem readLiterals_expand (blanks : ∀ c ∈ unit.toList, c = ' ') (place : Place) (s : List Char) :
    readLiterals (place.expand unit.toList) (expand unit.toList s) =
      (readLiterals place s).map (·.map (replaceChar '\n' ("\n" ++ unit))) := by
  have margin : ∀ c ∈ '\n' :: unit.toList, escaped c = [c] ∧ c ≠ '"' :=
    List.forall_mem_cons.mpr ⟨by decide, fun c member => blanks c member ▸ by decide⟩
  have plain : ('\n' :: unit.toList).flatMap escaped = '\n' :: unit.toList :=
    (List.flatMap_congr fun c member => (margin c member).1).trans (List.flatMap_singleton' _)
  have unquoted : '"' ∉ '\n' :: unit.toList := fun member => (margin '"' member).2 rfl
  have ofList (seen : List Char) : String.ofList (expand unit.toList seen) =
      replaceChar '\n' ("\n" ++ unit) (String.ofList seen) := by
    rw [← String.toList_inj, toList_replaceChar, String.toList_ofList, String.toList_ofList]
  have snoc {c : Char} (other : c ≠ '\n') (seen : List Char) :
      expand unit.toList (seen ++ [c]) = expand unit.toList seen ++ [c] := by
    rw [expand_append, expand_cons other]
    rfl
  induction s generalizing place with
  | nil => cases place <;> rfl
  | cons c s ih =>
    cases place with
    | outside =>
      by_cases same : c = '\n'
      · subst same
        rw [expand_break, Place.expand, readLiterals_append (readLiterals_outside unquoted)]
        exact (Option.map_id' ..).trans (ih .outside)
      · rw [expand_cons same, Place.expand, readLiterals, readLiterals]
        split
        · exact ih (.inside [])
        · exact ih .outside
    | inside seen =>
      by_cases same : c = '\n'
      · subst same
        have moved : expand unit.toList (seen ++ ['\n']) =
            expand unit.toList seen ++ '\n' :: unit.toList := by
          rw [expand_append, expand_break]
          simp [expand]
        have step := readLiterals_escaped ('\n' :: unit.toList) (expand unit.toList seen)
          (expand unit.toList s)
        rw [plain, ← moved] at step
        rw [expand_break, Place.expand, step]
        exact ih (.inside (seen ++ ['\n']))
      · rw [expand_cons same, Place.expand, readLiterals, readLiterals, ← snoc same]
        split
        · have later : readLiterals .outside (expand unit.toList s) = _ := ih .outside
          rw [later, Option.map_map, Option.map_map, ofList]
          rfl
        · split
          · exact ih (.escape seen)
          · exact ih (.inside (seen ++ [c]))
    | escape seen =>
      by_cases same : c = '\n'
      · subst same
        rfl
      · rw [expand_cons same, Place.expand, readLiterals, readLiterals, ← snoc same]
        split
        · exact ih (.inside (seen ++ [c]))
        · rfl

end Moving

end Shorthand.Hiccup
