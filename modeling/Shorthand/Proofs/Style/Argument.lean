import Mathlib
import Shorthand.Proofs.Scanning.Span
import Shorthand.Style.Argument

/-! Arguments in front of a separator. A number or a color ends at a separator at the
latest, and what stands behind is read anew; a word ends at a blank, but takes a `+` in. So
the arguments of a text are those in front of a `+` and those behind it, unless the part in
front ends in a word: that word goes on behind the `+`, up to the next blank. -/
namespace Shorthand.Style

variable {tables : Tables} {x : Char} {s t v rest : List Char} {arg : Argument}

section Separators

theorem isBlank_visible {c : Char} (visible : 0x21 ≤ c.toNat ∧ c.toNat ≤ 0x7E) :
    isBlank c = false := by
  have same : c.val.toNat = c.toNat := rfl
  simp [isBlank, ← UInt32.toNat_inj, UInt32.le_iff_toNat_le]
  omega

/-- What numbers and colors are made of are visible ASCII characters. -/
theorem separator_ends {p : Char → Bool}
    (visible : ∀ c, p c → 0x21 ≤ c.toNat ∧ c.toNat ≤ 0x7E) (plus : p '+' = false)
    (separator : isSeparator x) : p x = false := by
  obtain blank | same := Bool.or_eq_true_iff.mp separator
  · refine Bool.eq_false_iff.mpr fun held => ?_
    rw [isBlank_visible (visible x held)] at blank
    contradiction
  · rwa [beq_iff_eq.mp same]

theorem separator_isDigit (separator : isSeparator x) : x.isDigit = false := by
  refine separator_ends (fun c digit => ?_) (by decide) separator
  simp [Char.isDigit, UInt32.le_iff_toNat_le] at digit
  omega

theorem separator_isUnitChar (separator : isSeparator x) : isUnitChar x = false := by
  refine separator_ends (fun c unit => ?_) (by decide) separator
  simp [isUnitChar, Char.isAlpha, Char.isUpper, Char.isLower, UInt32.le_iff_toNat_le] at unit
  obtain letter | rfl := unit
  · omega
  · decide

theorem separator_isHexDigit (separator : isSeparator x) : isHexDigit x = false := by
  refine separator_ends (fun c digit => ?_) (by decide) separator
  simp [isHexDigit, Char.isDigit, Char.le_def, UInt32.le_iff_toNat_le] at digit
  omega

theorem separator_ne {c : Char} (visible : 0x21 ≤ c.toNat ∧ c.toNat ≤ 0x7E) (plus : c ≠ '+')
    (separator : isSeparator x) : x ≠ c := by
  have other : (x == c) = false := by
    refine separator_ends (p := (· == c)) (fun d same => ?_) (by simpa using plus.symm) separator
    rwa [beq_iff_eq.mp same]
  simpa using other

end Separators

section Locality

/-- A result of reading with more text behind what is left. -/
def withRest {α : Type} (more : List Char) (result : α × List Char) : α × List Char :=
  (result.1, result.2 ++ more)

theorem takeWhile_before {p : Char → Bool} (ends : p x = false) (s v : List Char) :
    (s ++ x :: v).takeWhile p = s.takeWhile p :=
  takeWhile_append_right fun _ => stops_cons.mpr ends

theorem dropWhile_before {p : Char → Bool} (ends : p x = false) (s v : List Char) :
    (s ++ x :: v).dropWhile p = s.dropWhile p ++ x :: v :=
  dropWhile_append_right fun _ => stops_cons.mpr ends

theorem unsigned?_before (separator : isSeparator x) (s v : List Char) :
    unsigned? (s ++ x :: v) = (unsigned? s).map (withRest (x :: v)) := by
  have digit := separator_isDigit separator
  have noPoint : x ≠ '.' := separator_ne (by decide) (by decide) separator
  unfold unsigned?
  rw [takeWhile_before digit, dropWhile_before digit]
  cases whole : s.takeWhile Char.isDigit with
  | nil =>
    cases after : s.dropWhile Char.isDigit with
    | nil => simp [noPoint]
    | cons c rest =>
      by_cases point : c = '.'
      · subst point
        simp only [List.cons_append, takeWhile_before digit, dropWhile_before digit]
        cases List.takeWhile Char.isDigit rest <;> rfl
      · simp [point]
  | cons d whole =>
    cases after : s.dropWhile Char.isDigit with
    | nil => simp [withRest, noPoint]
    | cons c rest =>
      by_cases point : c = '.'
      · subst point
        simp [withRest, takeWhile_before digit, dropWhile_before digit]
      · simp [withRest, point]

theorem number?_of_ne {c : Char} (plain : c ≠ '-') (s : List Char) :
    number? (c :: s) = unsigned? (c :: s) := by
  simp [number?, plain]

theorem number?_before (separator : isSeparator x) (s v : List Char) :
    number? (s ++ x :: v) = (number? s).map (withRest (x :: v)) := by
  cases s with
  | nil =>
    rw [List.nil_append, number?_of_ne (separator_ne (by decide) (by decide) separator)]
    exact unsigned?_before separator [] v
  | cons c s =>
    by_cases sign : c = '-'
    · subst sign
      simp only [List.cons_append, number?, unsigned?_before separator, Option.map_map]
      rfl
    · rw [List.cons_append, number?_of_ne sign, number?_of_ne sign, ← List.cons_append,
        unsigned?_before separator]

theorem numeric?_before (units : Table String String) (separator : isSeparator x)
    (s v : List Char) :
    numeric? units (s ++ x :: v) = (numeric? units s).map (withRest (x :: v)) := by
  have unit := separator_isUnitChar separator
  simp only [numeric?, number?_before separator, Option.map_map]
  congr 1
  funext ⟨value, rest⟩
  simp only [Function.comp, withRest, takeWhile_before unit, dropWhile_before unit]
  cases rest.takeWhile isUnitChar <;> rfl

theorem dropLead?_before {lead : List Char} (clean : x ∉ lead) (s v : List Char) :
    dropLead? lead (s ++ x :: v) = (dropLead? lead s).map (· ++ x :: v) := by
  fun_induction dropLead? lead s with
  | case1 => rfl
  | case2 lead c s ih => simp [dropLead?, ih (List.not_mem_of_not_mem_cons clean)]
  | case3 c lead d s different => simp [dropLead?, different]
  | case4 c lead => simp [dropLead?, (List.ne_of_not_mem_cons clean).symm]

theorem channelMark_before (separator : isSeparator x) (s v : List Char) :
    channelMark (s ++ x :: v) = withRest (x :: v) (channelMark s) := by
  have clean : x ∉ ['r', 'g', 'b'] := by
    have ne : ∀ c ∈ ['r', 'g', 'b'], x ≠ c := fun c member => by
      simp only [List.mem_cons, List.not_mem_nil, or_false] at member
      obtain rfl | rfl | rfl := member <;> exact separator_ne (by decide) (by decide) separator
    exact fun member => ne x member rfl
  unfold channelMark
  rw [dropLead?_before clean]
  cases dropLead? ['r', 'g', 'b'] s <;> rfl

/-- No suffix of a color holds the character. -/
def SuffixesAvoid (x : Char) (preferences : StylePreferences) : Prop :=
  ∀ suffix ∈ preferences.trailingAliases.keys, x ∉ suffix.toList

theorem suffix?_before {suffixes : List String} (clean : ∀ suffix ∈ suffixes, x ∉ suffix.toList)
    (s v : List Char) : suffix? suffixes (s ++ x :: v) = suffix? suffixes s := by
  have same : ∀ suffix ∈ suffixes, (dropLead? suffix.toList (s ++ x :: v)).isSome =
      (dropLead? suffix.toList s).isSome := fun suffix member => by
    rw [dropLead?_before (clean suffix member), Option.isSome_map]
  rw [suffix?, suffix?, List.filter_congr same]

theorem hexRun_before (separator : isSeparator x) (s v : List Char) :
    hexRun (s ++ x :: v) = hexRun s := by
  unfold hexRun
  rw [List.take_append]
  rcases Nat.eq_zero_or_pos (6 - s.length) with none | some
  · rw [none, List.take_zero, List.append_nil]
  · obtain ⟨n, more⟩ := Nat.exists_eq_add_of_lt some
    rw [more, Nat.zero_add, List.take_succ_cons, takeWhile_before (separator_isHexDigit separator)]

theorem hexRun_length_le (s : List Char) : (hexRun s).length ≤ s.length :=
  ((List.takeWhile_sublist _).trans (List.take_sublist 6 s)).length_le

/-- A suffix that is found stands at the front of the text. -/
theorem prefix_of_suffix? {suffixes : List String} {suffix : String}
    (found : suffix? suffixes s = some suffix) : suffix.toList <+: s := by
  have front : ∀ least ∈ suffix? suffixes s, least.toList <+: s := by
    unfold suffix?
    refine List.foldlRecOn _ _
      (motive := fun best : Option String => ∀ least ∈ best, least.toList <+: s)
      (by simp) fun best ih first member => ?_
    obtain ⟨rest, dropped⟩ := Option.isSome_iff_exists.mp (List.mem_filter.mp member).2
    have first : first.toList <+: s := ⟨rest, (dropLead?_eq_some dropped).symm⟩
    cases best with
    | none => exact fun _ same => Option.some.inj same ▸ first
    | some best =>
      dsimp only
      split
      · exact fun _ same => Option.some.inj same ▸ first
      · exact ih
  exact front suffix found

theorem suffix?_length_le (suffixes : List String) (s : List Char) :
    ((suffix? suffixes s).map String.length).getD 0 ≤ s.length := by
  cases found : suffix? suffixes s with
  | none => exact Nat.zero_le _
  | some suffix => exact (prefix_of_suffix? found).length_le

theorem color?_before {preferences : StylePreferences} (clean : SuffixesAvoid x preferences)
    (separator : isSeparator x) (s v : List Char) :
    color? preferences (s ++ x :: v) = (color? preferences s).map (withRest (x :: v)) := by
  have other : ∀ {c : Char}, c ≠ '#' → ∀ s, color? preferences (c :: s) = none :=
    fun hash s => by simp [color?, hash]
  cases s with
  | nil => exact other (separator_ne (by decide) (by decide) separator) v
  | cons c s =>
    by_cases hash : c = '#'
    · subst hash
      have marked : channelMark ((s ++ x :: v).drop (hexRun s).length) =
          withRest (x :: v) (channelMark (s.drop (hexRun s).length)) := by
        rw [List.drop_append_of_le_length (hexRun_length_le s), channelMark_before separator]
      simp only [List.cons_append, color?, hexRun_before separator]
      cases run : hexRun s with
      | nil => rfl
      | cons d digits =>
        rw [run] at marked
        simp only [marked, withRest, suffix?_before clean, Option.map_some,
          List.drop_append_of_le_length (suffix?_length_le _ _)]
    · rw [List.cons_append, other hash, other hash, Option.map_none]

end Locality

end Shorthand.Style
