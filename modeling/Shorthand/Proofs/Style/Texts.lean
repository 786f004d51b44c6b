import Shorthand.Proofs.Markup.Attributes
import Shorthand.Proofs.Style.Arguments
import Shorthand.Style.Color

/-! The texts of arguments. With the tables of the library, numbers and colors are written with
letters, digits and a few signs, and a word as it was read. So no argument breaks a line, and an
exclamation mark is that of a word or comes from the suffix of a color, which stands for a text
of its own. -/
namespace Shorthand.Style

/-- The mark of importance. -/
def mark : String := "!important"

/-- A character that neither ends a line nor begins a mark of importance. -/
def IsQuiet (c : Char) : Prop := c ≠ '!' ∧ c ≠ '\n'

instance : DecidablePred IsQuiet := fun _ => inferInstanceAs (Decidable (_ ∧ _))

section Characters

variable {c : Char} {s digits : List Char}

theorem isQuiet_of {p : Char → Bool} (mark : p '!' = false) (line : p '\n' = false) (held : p c) :
    IsQuiet c := by
  constructor <;>
  · rintro rfl
    simp_all

theorem quiet_takeWhile {p : Char → Bool} (mark : p '!' = false) (line : p '\n' = false)
    (s : List Char) : ∀ c ∈ s.takeWhile p, IsQuiet c :=
  fun _ member => isQuiet_of mark line (List.mem_takeWhile_imp member)

theorem quiet_unsigned? {found : List Char × List Char} (h : unsigned? s = some found) :
    ∀ c ∈ found.1, IsQuiet c := by
  have digits (s : List Char) : ∀ c ∈ s.takeWhile Char.isDigit, IsQuiet c :=
    quiet_takeWhile (by decide) (by decide) s
  unfold unsigned? at h
  split at h
  · next t _ _ =>
    split at h
    · contradiction
    · obtain rfl := Option.some.inj h
      exact List.forall_mem_cons.mpr ⟨by decide, digits t⟩
  · contradiction
  · next t _ _ =>
    obtain rfl := Option.some.inj h
    exact List.forall_mem_append.mpr
      ⟨digits s, List.forall_mem_cons.mpr ⟨by decide, digits t⟩⟩
  · obtain rfl := Option.some.inj h
    exact digits s

theorem quiet_number? {found : List Char × List Char} (h : number? s = some found) :
    ∀ c ∈ found.1, IsQuiet c := by
  unfold number? at h
  split at h
  · obtain ⟨unsigned, read, rfl⟩ := Option.map_eq_some_iff.mp h
    exact List.forall_mem_cons.mpr ⟨by decide, quiet_unsigned? read⟩
  · exact quiet_unsigned? h

theorem quiet_decimalText (n : Nat) : ∀ c ∈ (decimalText n).toList, IsQuiet c := by
  intro c member
  rw [decimalText, String.toList_ofList] at member
  exact isQuiet_of (by decide) (by decide)
    (Nat.isDigit_of_mem_toDigits (by decide) (by decide) member)

theorem expandHex_subset (digits : List Char) : expandHex digits ⊆ digits := by
  intro c member
  unfold expandHex at member
  split at member
  · simpa using member
  · simpa using member
  · simpa using member
  · simpa using List.mem_of_mem_take member

theorem shortHex_subset (digits : List Char) : shortHex digits ⊆ digits := by
  unfold shortHex
  split
  · split
    · intro c member
      simp only [List.mem_cons, List.not_mem_nil, or_false] at member ⊢
      tauto
    · exact List.Subset.refl _
  · exact List.Subset.refl _

theorem quiet_colorText {preferences : StylePreferences} (case : preferences.colorCase = .auto)
    (quiet : ∀ c ∈ digits, IsQuiet c) (channels : Bool) :
    ∀ c ∈ (colorText preferences digits channels).toList, IsQuiet c := by
  unfold colorText
  split
  · have front : ∀ c ∈ "rgb(".toList, IsQuiet c := forall_mem_of_all (by decide)
    have comma : ∀ c ∈ ",".toList, IsQuiet c := forall_mem_of_all (by decide)
    have back : ∀ c ∈ ")".toList, IsQuiet c := forall_mem_of_all (by decide)
    simp only [String.toList_append, List.forall_mem_append]
    exact ⟨⟨⟨⟨⟨⟨front, quiet_decimalText _⟩, comma⟩, quiet_decimalText _⟩, comma⟩,
      quiet_decimalText _⟩, back⟩
  · rw [String.toList_ofList, case]
    refine List.forall_mem_cons.mpr ⟨by decide, fun c member => ?_⟩
    change c ∈ (if preferences.shorten then shortHex digits else digits) at member
    split at member
    · exact quiet c (shortHex_subset digits member)
    · exact quiet c member

end Characters

namespace Argument

/-- A color with a suffix. -/
def isMarked : Argument → Bool
  | .color _ _ (some _) => true
  | _ => false

end Argument

section Texts

variable {tables : Tables} {s : List Char} {arg : Argument}

/-- The texts of an argument: one without a mark, and the mark that a suffix stands for. -/
def HasQuietText (preferences : StylePreferences) (arg : Argument) : Prop :=
  ∀ unitless, ∃ text : String, (∀ c ∈ text.toList, IsQuiet c) ∧
    arg.texts preferences unitless = text :: if arg.isMarked then [mark] else []

theorem quiet_units : ∀ entry ∈ Tables.builtinUnits, ∀ c ∈ entry.2.toList, IsQuiet c := by
  have checked : ∀ entry ∈ Tables.builtinUnits, entry.2.toList.all fun c => IsQuiet c := by decide
  exact fun entry member => forall_mem_of_all (checked entry member)

theorem hasQuietText_numeric? (builtin : tables.IsBuiltin) {found : Argument × List Char}
    (read : numeric? tables.unitAliases s = some found) :
    HasQuietText tables.preferences found.1 := by
  obtain ⟨aliases, rfl⟩ := builtin
  obtain ⟨⟨value, rest⟩, number, rfl⟩ := Option.map_eq_some_iff.mp read
  have valueQuiet := quiet_number? number
  have written : ∀ unit : String, (∀ c ∈ unit.toList, IsQuiet c) → ∀ inferred,
      HasQuietText {} (.numeric (String.ofList value) unit inferred) := by
    intro unit unitQuiet inferred unitless
    simp only [Argument.texts, Argument.isMarked]
    split
    · exact ⟨_, by simpa using valueQuiet, rfl⟩
    · refine ⟨_, ?_, rfl⟩
      rw [String.toList_append, String.toList_ofList]
      exact List.forall_mem_append.mpr ⟨valueQuiet, unitQuiet⟩
  have inferred : ∀ c ∈ (inferredUnit value).toList, IsQuiet c := by
    unfold inferredUnit
    split <;> exact forall_mem_of_all (by decide)
  have given : ∀ c ∈ rest.takeWhile isUnitChar, IsQuiet c :=
    quiet_takeWhile (by decide) (by decide) rest
  dsimp only
  split
  · exact written _ inferred true
  · refine written _ ?_ false
    cases held : Table.get? Tables.builtinUnits (String.ofList (rest.takeWhile isUnitChar)) with
    | none => simpa [Tables.builtin, held] using given
    | some unit =>
      have quiet := quiet_units _ (Table.mem_of_get? held)
      simpa [Tables.builtin, held] using quiet

theorem suffix?_builtin {suffix : String} (found : suffix? ["i"] s = some suffix) :
    suffix = "i" := by
  unfold suffix? at found
  rw [List.filter_cons] at found
  split at found
  · exact (Option.some.inj found).symm
  · contradiction

theorem hasQuietText_color {digits : List Char} (quiet : ∀ c ∈ digits, IsQuiet c)
    (channels : Bool) {suffix : Option String} (known : ∀ letter ∈ suffix, letter = "i") :
    HasQuietText {} (.color (String.ofList digits) channels suffix) := by
  intro unitless
  refine ⟨colorText {} digits channels, quiet_colorText rfl quiet channels, ?_⟩
  rw [Argument.texts, String.toList_ofList]
  cases suffix with
  | none => rfl
  | some letter =>
    obtain rfl := known letter rfl
    rfl

theorem hasQuietText_color? (builtin : tables.IsBuiltin) {found : Argument × List Char}
    (read : color? tables.preferences s = some found) :
    HasQuietText tables.preferences found.1 := by
  obtain ⟨aliases, rfl⟩ := builtin
  unfold color? at read
  split at read
  · next s =>
    split at read
    · contradiction
    · obtain rfl := Option.some.inj read
      have run : ∀ c ∈ hexRun s, IsQuiet c := quiet_takeWhile (by decide) (by decide) _
      exact hasQuietText_color (fun c member => run c (expandHex_subset _ member)) _
        fun letter found => suffix?_builtin found
  · contradiction

theorem hasQuietText_word (free : '!' ∉ s) : HasQuietText tables.preferences (word s).1 := by
  intro unitless
  refine ⟨_, fun c member => ?_, rfl⟩
  rw [String.toList_ofList] at member
  have solid : isBlank c = false := by simpa using List.mem_takeWhile_imp member
  refine ⟨?_, ?_⟩
  · rintro rfl
    exact free ((List.takeWhile_sublist _).subset member)
  · rintro rfl
    contradiction

theorem hasQuietText_argument (builtin : tables.IsBuiltin) (free : '!' ∉ s) :
    HasQuietText tables.preferences (argument tables s).1 := by
  unfold argument
  split
  · next found number => exact hasQuietText_numeric? builtin number
  · cases colored : color? tables.preferences s with
    | some found => exact hasQuietText_color? builtin colored
    | none => exact hasQuietText_word free

theorem hasQuietText_arguments (builtin : tables.IsBuiltin) (free : '!' ∉ s) :
    ∀ arg ∈ arguments tables s, HasQuietText tables.preferences arg := by
  fun_induction arguments tables s with
  | case1 => exact List.forall_mem_nil _
  | case2 s c rest begins found ih =>
    have front : '!' ∉ c :: rest := fun member =>
      free ((List.dropWhile_suffix _).subset (begins ▸ member))
    have behind : '!' ∉ found.2 := fun member => front ((argument_suffix tables _).subset member)
    exact List.forall_mem_cons.mpr ⟨hasQuietText_argument builtin front, ih behind⟩

end Texts

end Shorthand.Style
