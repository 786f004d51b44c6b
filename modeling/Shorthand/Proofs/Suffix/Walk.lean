import Shorthand.Abbreviation.Grammar

/-! Where the suffix begins. The place of a character follows from the characters before
it; a walk goes over a text from one place to the next and is held up by a `|` that
begins a suffix. -/
namespace Shorthand.Abbreviation

namespace Place

/-- The place behind a text, unless the suffix begins inside. -/
def walk (place : Place) : List Char → Option Place
  | [] => some place
  | c :: s => if c = '|' ∧ place.isOutside then none else walk (place.next c) s

@[simp] theorem walk_nil (place : Place) : place.walk [] = some place := rfl

theorem walk_append (place : Place) (s t : List Char) :
    place.walk (s ++ t) = (place.walk s).bind fun middle => middle.walk t := by
  induction s generalizing place with
  | nil => rfl
  | cons c s ih =>
    rw [List.cons_append, walk, walk]
    split
    · rfl
    · exact ih _

theorem walk_of_bar_not_mem (place : Place) {s : List Char} (h : '|' ∉ s) :
    (place.walk s).isSome := by
  induction s generalizing place with
  | nil => rfl
  | cons c s ih =>
    obtain ⟨first, rest⟩ := not_or.mp (mt List.mem_cons.mpr h)
    rw [walk, if_neg fun held => first held.1.symm]
    exact ih _ rest

end Place

theorem splitAt_append {place middle : Place} {s : List Char} (before t : List Char)
    (h : place.walk s = some middle) :
    splitAt place before (s ++ t) = splitAt middle (s.reverse ++ before) t := by
  induction s generalizing place before with
  | nil =>
    obtain rfl := Option.some.inj h
    rfl
  | cons c s ih =>
    rw [Place.walk] at h
    split at h
    · contradiction
    · next free =>
      rw [List.cons_append, splitAt, if_neg free, ih _ h, List.reverse_cons, List.append_assoc]
      rfl

/-- A text over which the walk is not held up has no suffix. -/
theorem splitFilters_of_walk {place : Place} {s : List Char}
    (h : Place.walk {} s = some place) : splitFilters s = (s, []) := by
  have whole : splitAt {} [] s = (s, none) := by
    have := splitAt_append [] [] h
    simpa [splitAt] using this
  rw [splitFilters, whole]

theorem splitFilters_of_bar_not_mem {s : List Char} (h : '|' ∉ s) : splitFilters s = (s, []) := by
  obtain ⟨place, walked⟩ := Option.isSome_iff_exists.mp (Place.walk_of_bar_not_mem {} h)
  exact splitFilters_of_walk walked

theorem read_of_splitFilters {limits : Limits} {aliases : AliasTable} {abbreviation : String}
    {body : List Char} {filters : List String}
    (h : splitFilters abbreviation.toList = (body, filters)) :
    (read limits aliases abbreviation).2 =
      ((complete (expression limits limits.maxDepth) body).run [] { aliases }).2.map
        (withFilters filters) := by
  unfold read
  rw [h]

theorem read_of_no_filters {limits : Limits} {aliases : AliasTable} {abbreviation : String}
    (h : splitFilters abbreviation.toList = (abbreviation.toList, [])) :
    (read limits aliases abbreviation).2 =
      ((complete (expression limits limits.maxDepth) abbreviation.toList).run []
        { aliases }).2 := by
  have unfiltered (result : Except Failure Node) : result.map (withFilters []) = result := by
    cases result <;> rfl
  rw [read_of_splitFilters h, unfiltered]

end Shorthand.Abbreviation
