import Mathlib
import Shorthand.Proofs.Style.Color

/-! Printed arguments are settled. What an argument is printed as is read again as one argument,
of the kind that prints it in the same way, so the texts of arguments with blanks between them
have themselves for texts. -/
namespace Shorthand.Style

/-- The texts of all arguments of a text. -/
def rendered (tables : Tables) (unitless : Bool) (s : List Char) : List String :=
  (arguments tables s).flatMap (Argument.texts tables.preferences unitless)

/-- A text that is one argument, and is printed as it stands. -/
structure Settled (tables : Tables) (unitless : Bool) (w : List Char) : Prop where
  filled : w ≠ []
  begins : Stops isSeparator w
  whole : (argument tables w).2 = []
  same : (argument tables w).1.texts tables.preferences unitless = [String.ofList w]

variable {tables : Tables} {unitless : Bool} {c : Char} {s t w : List Char}

section Consumption

/-- An argument takes at least the character that it begins with. -/
theorem argument_suffix_tail (tables : Tables) (solid : isSeparator c = false) (t : List Char) :
    (argument tables (c :: t)).2 <:+ t := by
  have visible : isBlank c = false := (Bool.or_eq_false_iff.mp solid).1
  obtain same | inside := List.suffix_cons_iff.mp (argument_suffix tables (c :: t))
  · have shorter := argument_length_lt tables (s := t) visible
    rw [same] at shorter
    exact absurd shorter (Nat.lt_irrefl _)
  · exact inside

theorem arguments_cons (tables : Tables) (solid : isSeparator c = false) (t : List Char) :
    arguments tables (c :: t) =
      (argument tables (c :: t)).1 :: arguments tables (argument tables (c :: t)).2 := by
  have begins : (c :: t).dropWhile isSeparator = c :: t :=
    (stops_cons.mpr solid).dropWhile_eq_self
  rw [arguments_eq, begins, if_neg (List.cons_ne_nil c t)]

/-- There are at most as many arguments as characters that separate nothing. -/
theorem length_arguments_le (tables : Tables) (s : List Char) :
    (arguments tables s).length ≤ s.countP (!isSeparator ·) := by
  fun_induction arguments tables s with
  | case1 => exact Nat.zero_le _
  | case2 s c rest begins found ih =>
    have solid : isSeparator c = false := stops_cons.mp (begins ▸ stops_dropWhile isSeparator s)
    have later : found.2.countP (!isSeparator ·) ≤ rest.countP (!isSeparator ·) :=
      (argument_suffix_tail tables solid rest).sublist.countP_le
    have here : (c :: rest).countP (!isSeparator ·) ≤ s.countP (!isSeparator ·) :=
      (begins ▸ List.dropWhile_sublist isSeparator).countP_le
    rw [List.countP_cons_of_pos (by simp [solid])] at here
    rw [List.length_cons]
    omega

end Consumption

section Join

theorem Settled.rendered (settled : Settled tables unitless w) :
    rendered tables unitless w = [String.ofList w] := by
  obtain ⟨c, t, rfl⟩ := List.exists_cons_of_ne_nil settled.filled
  rw [Style.rendered, arguments_cons tables (stops_cons.mp settled.begins), settled.whole,
    arguments_eq, List.flatMap_cons, settled.same]
  rfl

theorem rendered_append_blank (clean : SuffixesAvoid ' ' tables.preferences) (s t : List Char) :
    rendered tables unitless (s ++ ' ' :: t) =
      rendered tables unitless s ++ rendered tables unitless t := by
  rw [rendered, arguments_append (by decide) clean (fun solid => absurd solid (by decide)),
    List.flatMap_append]
  rfl

/-- Settled texts with blanks between them are printed as they stand. -/
theorem rendered_join (clean : SuffixesAvoid ' ' tables.preferences) {texts : List String}
    (settled : ∀ text ∈ texts, Settled tables unitless text.toList) :
    rendered tables unitless ([' '].intercalate (texts.map String.toList)) = texts := by
  induction texts with
  | nil => simp [rendered, arguments_eq]
  | cons text texts ih =>
    obtain ⟨first, later⟩ := List.forall_mem_cons.mp settled
    have here : rendered tables unitless text.toList = [text] := by
      rw [first.rendered, String.ofList_toList]
    cases texts with
    | nil => simpa using here
    | cons next texts =>
      have more := ih later
      rw [List.map_cons] at more
      rw [List.map_cons, List.map_cons, List.intercalate_cons_cons, List.append_assoc,
        List.singleton_append, rendered_append_blank clean, here, more, List.singleton_append]

end Join

section Words

theorem number?_eq_none (digit : c.isDigit = false) (sign : c ≠ '-') (point : c ≠ '.')
    (t : List Char) : number? (c :: t) = none := by
  rw [number?_of_ne sign, unsigned?, List.takeWhile_cons_of_neg (by simp [digit]),
    List.dropWhile_cons_of_neg (by simp [digit])]
  simp [point]

theorem color?_eq_none (preferences : StylePreferences) (hash : c ≠ '#') (t : List Char) :
    color? preferences (c :: t) = none := by
  simp [color?, hash]

theorem settled_word (number : numeric? tables.unitAliases w = none)
    (color : color? tables.preferences w = none) (solid : ∀ c ∈ w, isBlank c = false)
    (begins : Stops isSeparator w) (filled : w ≠ []) : Settled tables unitless w := by
  have all : ∀ c ∈ w, (!isBlank c) = true := fun c member => by rw [solid c member]; rfl
  have read : argument tables w = (.word (String.ofList w), []) := by
    rw [argument, number, color, Option.getD_none, word, List.takeWhile_eq_self_iff.mpr all,
      List.dropWhile_eq_nil_iff.mpr all]
  exact ⟨filled, begins, by rw [read], by rw [read]; rfl⟩

/-- A word that begins like neither a number nor a color. -/
theorem settled_letters (digit : c.isDigit = false) (sign : c ∉ ['-', '.', '#', '+'])
    (solid : ∀ d ∈ c :: t, isBlank d = false) : Settled tables unitless (c :: t) := by
  simp only [List.mem_cons, List.not_mem_nil, or_false, not_or] at sign
  obtain ⟨minus, point, hash, plus⟩ := sign
  have number : numeric? tables.unitAliases (c :: t) = none := by
    rw [numeric?, number?_eq_none digit minus point, Option.map_none]
  have begins : isSeparator c = false := by
    simp [isSeparator, solid c List.mem_cons_self, plus]
  exact settled_word number (color?_eq_none _ hash t) solid (stops_cons.mpr begins)
    (List.cons_ne_nil c t)

/-- A word is cut at a blank, in front of which nothing else is read than at the end. -/
theorem settled_takeWhile (clean : ∀ x, isSeparator x → SuffixesAvoid x tables.preferences)
    (begins : Stops isSeparator s) (filled : s ≠ []) (held : (argument tables s).1.isWord) :
    Settled tables unitless (s.takeWhile (!isBlank ·)) := by
  obtain ⟨number, color⟩ := not_number_of_isWord held
  have cut := List.takeWhile_append_dropWhile (p := (!isBlank ·)) (l := s)
  have stop := stops_dropWhile (!isBlank ·) s
  have solid : ∀ c ∈ s.takeWhile (!isBlank ·), isBlank c = false := fun c member => by
    simpa using List.mem_takeWhile_imp member
  obtain ⟨c, t, rfl⟩ := List.exists_cons_of_ne_nil filled
  have first : isSeparator c = false := stops_cons.mp begins
  have run : (c :: t).takeWhile (!isBlank ·) = c :: t.takeWhile (!isBlank ·) :=
    List.takeWhile_cons_of_pos (by simp [(Bool.or_eq_false_iff.mp first).1])
  generalize (c :: t).takeWhile (!isBlank ·) = text at run cut solid ⊢
  have front : Stops isSeparator text := run ▸ stops_cons.mpr first
  have nonempty : text ≠ [] := run ▸ List.cons_ne_nil _ _
  rw [← cut] at number color
  cases behind : (c :: t).dropWhile (!isBlank ·) with
  | nil =>
    rw [behind, List.append_nil] at number color
    exact settled_word number color solid front nonempty
  | cons x rest =>
    have blank : (!isBlank x) = false := stops_cons.mp (behind ▸ stop)
    have blank : isBlank x := by simpa using blank
    have separator : isSeparator x := by rw [isSeparator, blank, Bool.true_or]
    rw [behind, numeric?_before _ separator, Option.map_eq_none_iff] at number
    rw [behind, color?_before (clean x separator) separator, Option.map_eq_none_iff] at color
    exact settled_word number color solid front nonempty

end Words

section Numbers

variable {value rest unit : List Char}

/-- What can stand behind a number without being a part of it. -/
def EndsNumber (s : List Char) : Prop := ∀ c ∈ s.head?, c.isDigit = false ∧ c ≠ '.'

theorem EndsNumber.stops (ends : EndsNumber unit) : Stops Char.isDigit unit :=
  fun c here => (ends c here).1

theorem endsNumber_of_isUnitChar (unit : ∀ c ∈ s, isUnitChar c) : EndsNumber s := by
  intro c here
  have held := unit c (List.mem_of_mem_head? here)
  constructor
  · refine Bool.eq_false_iff.mpr fun digit => ?_
    simp [isUnitChar, Char.isAlpha, Char.isUpper, Char.isLower, Char.isDigit,
      UInt32.le_iff_toNat_le] at held digit
    obtain letter | rfl := held
    · omega
    · simp at digit
  · rintro rfl
    contradiction

/-- A number is read again with anything behind it that does not go on with it. -/
theorem unsigned?_again (read : unsigned? s = some (value, rest)) (ends : EndsNumber unit) :
    unsigned? (value ++ unit) = some (value, unit) := by
  have digits (t : List Char) : ∀ c ∈ t.takeWhile Char.isDigit, c.isDigit := fun _ member =>
    List.mem_takeWhile_imp member
  unfold unsigned? at read
  split at read
  · next t _ _ =>
    split at read
    · contradiction
    · obtain ⟨rfl, rfl⟩ := Prod.mk.inj (Option.some.inj read)
      rw [unsigned?, List.cons_append, List.takeWhile_cons_of_neg (by decide),
        List.dropWhile_cons_of_neg (by decide)]
      simp only [takeWhile_run (digits t) ends.stops, dropWhile_run (digits t) ends.stops]
  · contradiction
  · next t _ _ =>
    obtain ⟨rfl, rfl⟩ := Prod.mk.inj (Option.some.inj read)
    have stop : Stops Char.isDigit ('.' :: (t.takeWhile Char.isDigit ++ unit)) :=
      stops_cons.mpr (by decide)
    rw [unsigned?, List.append_assoc, List.cons_append, takeWhile_run (digits s) stop,
      dropWhile_run (digits s) stop]
    simp only [takeWhile_run (digits t) ends.stops, dropWhile_run (digits t) ends.stops]
  · next filled _ _ =>
    obtain ⟨rfl, rfl⟩ := Prod.mk.inj (Option.some.inj read)
    rw [unsigned?, takeWhile_run (digits s) ends.stops, dropWhile_run (digits s) ends.stops]
    cases whole : s.takeWhile Char.isDigit with
    | nil => exact absurd whole filled
    | cons d whole =>
      cases unit with
      | nil => rfl
      | cons c unit => simp [(ends c rfl).2]

theorem number?_again (read : number? s = some (value, rest)) (ends : EndsNumber unit) :
    number? (value ++ unit) = some (value, unit) := by
  unfold number? at read
  split at read
  · obtain ⟨⟨digits, more⟩, unsigned, same⟩ := Option.map_eq_some_iff.mp read
    obtain ⟨rfl, rfl⟩ := Prod.mk.inj same
    rw [List.cons_append, number?, unsigned?_again unsigned ends, Option.map_some]
  · next plain =>
    have again := unsigned?_again read ends
    cases value with
    | nil => exact absurd (unsigned?_length_lt again) (Nat.lt_irrefl _)
    | cons c value =>
      have unsigned : c ≠ '-' := by
        rintro rfl
        simp [unsigned?] at again
      rw [List.cons_append, number?_of_ne unsigned]
      exact again

/-- No number begins with a separator. -/
theorem begins_of_number? (read : number? s = some (value, rest)) : Stops isSeparator s := by
  intro c here
  obtain ⟨t, rfl⟩ := List.head?_eq_some_iff.mp here
  refine Bool.eq_false_iff.mpr fun separator => ?_
  have none := number?_before separator [] t
  rw [List.nil_append, read] at none
  contradiction

/-- The unit that is meant by what is written. -/
def unitOf (units : Table String String) (written : String) : String :=
  (units.get? written).getD written

theorem numeric?_again (read : number? s = some (value, rest))
    (letters : ∀ c ∈ unit, isUnitChar c) (filled : unit ≠ []) (units : Table String String) :
    numeric? units (value ++ unit) =
      some (.numeric (String.ofList value) (unitOf units (String.ofList unit)) false, []) := by
  rw [numeric?, number?_again read (endsNumber_of_isUnitChar letters), Option.map_some]
  dsimp only
  rw [List.takeWhile_eq_self_iff.mpr letters, List.dropWhile_eq_nil_iff.mpr letters]
  obtain ⟨c, unit, rfl⟩ := List.exists_cons_of_ne_nil filled
  rfl

theorem numeric?_bare (read : number? s = some (value, rest)) (units : Table String String) :
    numeric? units value =
      some (.numeric (String.ofList value) (inferredUnit value) true, []) := by
  have bare : EndsNumber [] := fun c here => nomatch here
  have again := number?_again read bare
  rw [List.append_nil] at again
  rw [numeric?, again]
  rfl

/-- A unit that stands for itself with the built-in abbreviations. -/
structure IsUnit (unit : String) : Prop where
  filled : unit.toList ≠ []
  letters : ∀ c ∈ unit.toList, isUnitChar c
  fixed : unitOf Tables.builtinUnits unit = unit

theorem isUnit_of_checked {unit : String}
    (checked : unit.toList ≠ [] ∧ unit.toList.all isUnitChar ∧
      unitOf Tables.builtinUnits unit = unit) : IsUnit unit :=
  ⟨checked.1, List.all_eq_true.mp checked.2.1, checked.2.2⟩

theorem isUnit_inferredUnit (value : List Char) : IsUnit (inferredUnit value) := by
  unfold inferredUnit
  split <;> exact isUnit_of_checked (by decide)

/-- What is meant by a unit is one, whether it is an abbreviation or not. -/
theorem isUnit_unitOf (filled : unit ≠ []) (letters : ∀ c ∈ unit, isUnitChar c) :
    IsUnit (unitOf Tables.builtinUnits (String.ofList unit)) := by
  have checked : ∀ entry ∈ Tables.builtinUnits,
      entry.2.toList ≠ [] ∧ entry.2.toList.all isUnitChar ∧
        unitOf Tables.builtinUnits entry.2 = entry.2 := by decide
  cases known : Tables.builtinUnits.get? (String.ofList unit) with
  | some meant =>
    rw [unitOf, known]
    exact isUnit_of_checked (checked _ (Table.mem_of_get? known))
  | none =>
    have same : unitOf Tables.builtinUnits (String.ofList unit) = String.ofList unit := by
      rw [unitOf, known, Option.getD_none]
    rw [same]
    exact ⟨by rwa [String.toList_ofList], by rwa [String.toList_ofList], same⟩

theorem filled_of_number? (read : number? s = some (value, rest)) : s ≠ [] := by
  rintro rfl
  contradiction

/-- A number without a unit is settled where units are not wanted. -/
theorem settled_bare (read : number? s = some (value, rest)) (wanted : unitless) :
    Settled tables unitless value := by
  have bare : EndsNumber [] := fun c here => nomatch here
  have again := number?_again read bare
  rw [List.append_nil] at again
  have found := numeric?_bare read tables.unitAliases
  refine ⟨filled_of_number? again, begins_of_number? again, by rw [argument, found], ?_⟩
  rw [argument, found, wanted]
  rfl

theorem settled_number (units : tables.unitAliases = Tables.builtinUnits)
    (read : number? s = some (value, rest)) {unit : String} (known : IsUnit unit) :
    Settled tables unitless (value ++ unit.toList) := by
  have again := number?_again read (endsNumber_of_isUnitChar known.letters)
  have found := numeric?_again read known.letters known.filled tables.unitAliases
  rw [units, String.ofList_toList, known.fixed, ← units] at found
  refine ⟨filled_of_number? again, begins_of_number? again, by rw [argument, found], ?_⟩
  rw [argument, found, String.ofList_append, String.ofList_toList]
  simp [Argument.texts]

theorem settled_of_numeric? (units : tables.unitAliases = Tables.builtinUnits)
    {found : Argument × List Char} (read : numeric? tables.unitAliases s = some found) :
    ∀ text ∈ found.1.texts tables.preferences unitless, Settled tables unitless text.toList := by
  obtain ⟨⟨value, rest⟩, number, rfl⟩ := Option.map_eq_some_iff.mp read
  have written : ∀ (unit : String) (inferred : Bool), IsUnit unit →
      ∀ text ∈ (Argument.numeric (String.ofList value) unit inferred).texts tables.preferences
        unitless, Settled tables unitless text.toList := by
    intro unit inferred known text member
    rw [Argument.texts] at member
    split at member
    · next dropped =>
      obtain rfl := List.mem_singleton.mp member
      rw [String.toList_ofList]
      exact settled_bare number (Bool.and_eq_true_iff.mp dropped).1
    · obtain rfl := List.mem_singleton.mp member
      rw [String.toList_append, String.toList_ofList]
      exact settled_number units number known
  dsimp only
  split
  · exact written _ true (isUnit_inferredUnit value)
  · next filled =>
    have known := isUnit_unitOf filled fun c member => List.mem_takeWhile_imp member
    rw [units]
    exact written _ false known

end Numbers

section Colors

variable {digits : List Char} {case : ColorCase}

/-- The digits of which a color is printed, in the case in which they are given. -/
def keptDigits (shorten : Bool) (digits : List Char) : List Char :=
  if shorten then shortHex digits else digits

theorem keptDigits_subset (shorten : Bool) (digits : List Char) :
    keptDigits shorten digits ⊆ digits := by
  cases shorten with
  | false => exact List.Subset.refl digits
  | true => exact shortHex_subset digits

theorem colorText_eq {preferences : StylePreferences} (hex : ∀ c ∈ digits, isHexDigit c) :
    colorText preferences digits false = String.ofList
      ('#' :: (keptDigits preferences.shorten digits).map (casedDigit preferences.colorCase)) := by
  rw [← apply_digits _ fun c member => hex c (keptDigits_subset _ digits member)]
  rfl

theorem shortHex_map (case : ColorCase) (six : IsSixDigits digits) :
    shortHex (digits.map (casedDigit case)) = (shortHex digits).map (casedDigit case) := by
  obtain ⟨r, s, g, h, b, c, rfl⟩ := six.eq
  have cased := six.cased case
  have same : ∀ d ∈ [r, s, g, h, b, c], hexValue (casedDigit case d) = hexValue d :=
    fun d member => (isCased case (six.hex d member)).value
  simp only [List.forall_mem_cons] at same
  obtain ⟨r', s', g', h', b', c', -⟩ := same
  simp only [List.map_cons, List.map_nil] at cased ⊢
  rw [shortHex_eq cased, shortHex_eq six, r', s', g', h', b', c']
  split <;> rfl

theorem expandHex_map (case : ColorCase) (hex : ∀ c ∈ digits, isHexDigit c) :
    expandHex (digits.map (casedDigit case)) = (expandHex digits).map (casedDigit case) := by
  rw [expandHex, expandHex, utf8ByteSize_digits hex, utf8ByteSize_digits (hex_cased case hex),
    List.length_map]
  split
  · rw [List.map_flatten, List.map_replicate]
  · rw [List.map_flatten, List.map_replicate]
  · rw [List.flatMap_map, List.map_flatMap]
    rfl
  · rw [List.map_take, List.map_append]

theorem map_casedDigit_again (case : ColorCase) (hex : ∀ c ∈ digits, isHexDigit c) :
    (digits.map (casedDigit case)).map (casedDigit case) = digits.map (casedDigit case) := by
  rw [List.map_map]
  exact List.map_congr_left fun c member => (isCased case (hex c member)).again

theorem expandHex_of_six (six : IsSixDigits digits) : expandHex digits = digits := by
  rw [expandHex, utf8ByteSize_digits six.hex, six.length]
  exact List.take_left' six.length

theorem keptDigits_map (shorten : Bool) (case : ColorCase) (six : IsSixDigits digits) :
    keptDigits shorten (digits.map (casedDigit case)) =
      (keptDigits shorten digits).map (casedDigit case) := by
  cases shorten with
  | false => rfl
  | true => exact shortHex_map case six

/-- Digits that are kept stand for six of which the same are kept. -/
structure IsKept (shorten : Bool) (digits : List Char) : Prop where
  filled : digits ≠ []
  short : digits.length ≤ 6
  six : IsSixDigits (expandHex digits)
  again : keptDigits shorten (expandHex digits) = digits

theorem IsKept.hex {shorten : Bool} (kept : IsKept shorten digits) : ∀ c ∈ digits, isHexDigit c :=
  fun c member => kept.six.hex c (keptDigits_subset shorten _ (kept.again.symm ▸ member))

theorem isKept_of_six {shorten : Bool} (six : IsSixDigits digits)
    (same : keptDigits shorten digits = digits) : IsKept shorten digits := by
  have expanded := expandHex_of_six six
  refine ⟨List.ne_nil_of_length_pos (six.length ▸ by decide), six.length.le, ?_, ?_⟩
  · rwa [expanded]
  · rwa [expanded]

theorem isKept_of_three {r g b : Char} (hex : ∀ c ∈ [r, g, b], isHexDigit c) :
    IsKept true [r, g, b] := by
  have pairs : expandHex [r, g, b] = [r, r, g, g, b, b] := by
    rw [expandHex, utf8ByteSize_digits hex]
    rfl
  have six : IsSixDigits [r, r, g, g, b, b] :=
    ⟨rfl, fun c member => hex c (expandHex_subset [r, g, b] (pairs ▸ member))⟩
  refine ⟨List.cons_ne_nil _ _, by simp, pairs ▸ six, ?_⟩
  rw [pairs]
  exact (shortHex_eq six).trans (if_pos ⟨rfl, rfl, rfl⟩)

theorem isKept_keptDigits (shorten : Bool) (six : IsSixDigits digits) :
    IsKept shorten (keptDigits shorten digits) := by
  cases shorten with
  | false => exact isKept_of_six six rfl
  | true =>
    obtain ⟨r, s, g, h, b, c, rfl⟩ := six.eq
    have kept : keptDigits true [r, s, g, h, b, c] = shortHex [r, s, g, h, b, c] := rfl
    rw [shortHex_eq six] at kept
    split at kept
    · have hex : ∀ d ∈ [r, g, b], isHexDigit d := fun d member =>
        six.hex d (keptDigits_subset true _ (kept ▸ member))
      rw [kept]
      exact isKept_of_three hex
    · rw [kept]
      exact isKept_of_six six kept

theorem color?_digits {preferences : StylePreferences}
    (suffixes : preferences.trailingAliases = [("i", mark)]) (hex : ∀ c ∈ digits, isHexDigit c)
    (filled : digits ≠ []) (short : digits.length ≤ 6) :
    color? preferences ('#' :: digits) =
      some (.color (String.ofList (expandHex digits)) false none, []) := by
  have run : hexRun digits = digits := by
    rw [hexRun, List.take_of_length_le short, List.takeWhile_eq_self_iff.mpr hex]
  obtain ⟨c, digits, rfl⟩ := List.exists_cons_of_ne_nil filled
  rw [color?, run]
  dsimp only
  rw [List.drop_length, suffixes]
  rfl

/-- The text of a color in digits is read as a color again. -/
theorem settled_digits (suffixes : tables.preferences.trailingAliases = [("i", mark)])
    (six : IsSixDigits digits) :
    Settled tables unitless (colorText tables.preferences digits false).toList := by
  rw [colorText_eq six.hex, String.toList_ofList]
  have kept := isKept_keptDigits tables.preferences.shorten six
  generalize keptDigits tables.preferences.shorten digits = shown at kept
  let case := tables.preferences.colorCase
  have hex := hex_cased case kept.hex
  have color := color?_digits suffixes hex (by simpa using kept.filled) (by simpa using kept.short)
  have number : numeric? tables.unitAliases ('#' :: shown.map (casedDigit case)) = none := by
    rw [numeric?, number?_eq_none (by decide) (by decide) (by decide), Option.map_none]
  have read : argument tables ('#' :: shown.map (casedDigit case)) =
      (.color (String.ofList (expandHex (shown.map (casedDigit case)))) false none, []) := by
    rw [argument, number, color, Option.getD_some]
  refine ⟨List.cons_ne_nil _ _, stops_cons.mpr (by decide), by rw [read], ?_⟩
  rw [read, Argument.texts, String.toList_ofList, expandHex_map case kept.hex,
    colorText_eq (kept.six.cased case).hex, keptDigits_map _ case kept.six, kept.again,
    map_casedDigit_again case kept.hex]
  rfl

theorem isBlank_decimalText (n : Nat) : ∀ c ∈ (decimalText n).toList, isBlank c = false := by
  intro c member
  rw [decimalText, String.toList_ofList] at member
  have digit := isDigit_of_mem_toDigits member
  simp [Char.isDigit, UInt32.le_iff_toNat_le] at digit
  exact isBlank_visible ⟨by omega, by omega⟩

/-- The text of a color in decimal channels is read as a word. -/
theorem settled_decimal (preferences : StylePreferences) (digits : List Char) :
    Settled tables unitless (colorText preferences digits true).toList := by
  have front : ∀ c ∈ "rgb(".toList, isBlank c = false := forall_mem_of_all (by decide)
  have comma : ∀ c ∈ ",".toList, isBlank c = false := forall_mem_of_all (by decide)
  have back : ∀ c ∈ ")".toList, isBlank c = false := forall_mem_of_all (by decide)
  have solid : ∀ c ∈ (colorText preferences digits true).toList, isBlank c = false := by
    rw [colorText, if_pos rfl]
    simp only [String.toList_append, List.forall_mem_append]
    exact ⟨⟨⟨⟨⟨⟨front, isBlank_decimalText _⟩, comma⟩, isBlank_decimalText _⟩, comma⟩,
      isBlank_decimalText _⟩, back⟩
  obtain ⟨more, text⟩ : ∃ more, (colorText preferences digits true).toList = 'r' :: more := by
    simp [colorText]
  rw [text] at solid ⊢
  exact settled_letters (by decide) (by decide) solid

theorem settled_mark : Settled tables unitless mark.toList := by
  have solid : ∀ c ∈ mark.toList, isBlank c = false := forall_mem_of_all (by decide)
  exact settled_letters (by decide) (by decide) solid

theorem settled_of_color? (suffixes : tables.preferences.trailingAliases = [("i", mark)])
    {found : Argument × List Char} (read : color? tables.preferences s = some found) :
    ∀ text ∈ found.1.texts tables.preferences unitless, Settled tables unitless text.toList := by
  unfold color? at read
  split at read
  · next t =>
    split at read
    · contradiction
    · next filled =>
      obtain rfl := Option.some.inj read
      obtain ⟨-, -, short, hex, -⟩ := hexRun_spec t
      obtain ⟨six, -⟩ := expandHex_spec hex filled short
      have color (decimal : Bool) : Settled tables unitless
          (colorText tables.preferences (expandHex (hexRun t)) decimal).toList := by
        cases decimal with
        | false => exact settled_digits suffixes six
        | true => exact settled_decimal _ _
      intro text member
      rw [Argument.texts, String.toList_ofList, List.mem_cons] at member
      obtain rfl | second := member
      · exact color _
      · obtain ⟨letter, -, known⟩ := Option.bind_eq_some_iff.mp (Option.mem_toList.mp second)
        have member := Table.mem_of_get? known
        rw [suffixes, List.mem_singleton] at member
        obtain ⟨-, rfl⟩ := Prod.mk.inj member
        exact settled_mark
  · contradiction

end Colors

section Arguments

/-- No built-in suffix of a color holds a separator. -/
theorem suffixesAvoid_separator {preferences : StylePreferences}
    (suffixes : preferences.trailingAliases = [("i", mark)]) (x : Char) (separator : isSeparator x) :
    SuffixesAvoid x preferences := by
  intro suffix member inside
  rw [suffixes] at member
  obtain rfl := List.mem_singleton.mp member
  obtain rfl := List.mem_singleton.mp inside
  contradiction

/-- Whatever an argument is printed as is settled. -/
theorem settled_of_argument (units : tables.unitAliases = Tables.builtinUnits)
    (suffixes : tables.preferences.trailingAliases = [("i", mark)]) (begins : Stops isSeparator s)
    (filled : s ≠ []) : ∀ text ∈ (argument tables s).1.texts tables.preferences unitless,
      Settled tables unitless text.toList := by
  cases number : numeric? tables.unitAliases s with
  | some found =>
    rw [argument, number]
    exact settled_of_numeric? units number
  | none =>
    cases color : color? tables.preferences s with
    | some found =>
      rw [argument, number, color]
      exact settled_of_color? suffixes color
    | none =>
      have read : argument tables s = word s := by
        rw [argument, number, color]
        rfl
      have settled : Settled tables unitless (s.takeWhile (!isBlank ·)) :=
        settled_takeWhile (suffixesAvoid_separator suffixes) begins filled (by rw [read]; rfl)
      intro text member
      rw [read, word, Argument.texts] at member
      obtain rfl := List.mem_singleton.mp member
      rwa [String.toList_ofList]

/-- The texts that the arguments of a text are printed as have, with blanks between them,
themselves for texts. And an argument takes at least one character, so that reading them ends. -/
theorem rendered_join_rendered (units : tables.unitAliases = Tables.builtinUnits)
    (suffixes : tables.preferences.trailingAliases = [("i", mark)]) (unitless : Bool)
    (s : List Char) :
    rendered tables unitless (" ".intercalate (rendered tables unitless s)).toList =
        rendered tables unitless s ∧
      (∀ c t, isSeparator c = false → ∃ rest, rest <:+ t ∧
        arguments tables (c :: t) = (argument tables (c :: t)).1 :: arguments tables rest) ∧
      (arguments tables s).length ≤ s.countP (!isSeparator ·) := by
  have settled : ∀ text ∈ rendered tables unitless s, Settled tables unitless text.toList := by
    intro text member
    obtain ⟨arg, inside, member⟩ := List.mem_flatMap.mp member
    obtain ⟨t, -, filled, begins, rfl⟩ := exists_argument_of_mem inside
    exact settled_of_argument units suffixes begins filled text member
  have clean : SuffixesAvoid ' ' tables.preferences :=
    suffixesAvoid_separator suffixes ' ' (by decide)
  refine ⟨?_, fun c t solid => ?_, length_arguments_le tables s⟩
  · rw [String.toList_intercalate]
    exact rendered_join clean settled
  · exact ⟨_, argument_suffix_tail tables solid t, arguments_cons tables solid t⟩

theorem rendered_join_rendered_capitals :
    let capitals := { Tables.builtin with preferences := { colorCase := .up } }
    let texts := ["10", "-20", "1.5%", "auto+5", "#FA0", "!important", "rgb(18,18,18)"]
    rendered capitals true "10-20 1.5p auto+5 #Fa0i #12rgb".toList = texts ∧
      rendered capitals true "10 -20 1.5% auto+5 #FA0 !important rgb(18,18,18)".toList =
        texts := by
  intro capitals texts
  have first : rendered capitals true "10-20 1.5p auto+5 #Fa0i #12rgb".toList = texts := by cbv
  have units : capitals.unitAliases = Tables.builtinUnits := rfl
  obtain ⟨again, -, -⟩ := rendered_join_rendered units rfl true
    "10-20 1.5p auto+5 #Fa0i #12rgb".toList
  rw [first] at again
  exact ⟨first, again⟩

end Arguments

end Shorthand.Style
