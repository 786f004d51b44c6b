import Shorthand.Proofs.Style.Plus

/-! Where the key of a declaration ends and its number begins. The key runs up to the first
digit and then hands one character back, so a sign or a point in front of the digits goes to
the number. Of a sign and a point only the point does: the sign stays behind in the key. -/
namespace Shorthand.Style

variable {tables : Tables} {c d mark : Char} {k s t lead rest : List Char}

section Number

/-- What a number begins with, up to its first digit: there may be a sign in front of it, a
point, or a sign and a point. -/
def IsNumberLead (lead : List Char) : Prop :=
  ∃ d, d.isDigit ∧ (lead = [d] ∨ lead = ['-', d] ∨ lead = ['.', d] ∨ lead = ['-', '.', d])

def BeginsNumber (s : List Char) : Prop := ∃ lead, IsNumberLead lead ∧ lead <+: s

theorem unsigned?_digit (digit : d.isDigit) (t : List Char) :
    ∃ value rest, unsigned? (d :: t) = some (value, rest) ∧ [d] <+: value := by
  have whole : (d :: t).takeWhile Char.isDigit = d :: t.takeWhile Char.isDigit :=
    List.takeWhile_cons_of_pos digit
  unfold unsigned?
  rw [whole]
  split
  · contradiction
  · contradiction
  · exact ⟨_, _, rfl, List.prefix_append [d] _⟩
  · exact ⟨_, _, rfl, List.prefix_append [d] _⟩

theorem unsigned?_point (digit : d.isDigit) (t : List Char) :
    ∃ value rest, unsigned? ('.' :: d :: t) = some (value, rest) ∧ ['.', d] <+: value := by
  have fraction : (d :: t).takeWhile Char.isDigit = d :: t.takeWhile Char.isDigit :=
    List.takeWhile_cons_of_pos digit
  have none : ('.' :: d :: t).takeWhile Char.isDigit = [] := List.takeWhile_cons_of_neg (by decide)
  have all : ('.' :: d :: t).dropWhile Char.isDigit = '.' :: d :: t :=
    List.dropWhile_cons_of_neg (by decide)
  unfold unsigned?
  rw [none, all]
  simp only [fraction]
  exact ⟨_, _, rfl, List.prefix_append ['.', d] _⟩

theorem number?_lead (number : IsNumberLead lead) (t : List Char) :
    ∃ value rest, number? (lead ++ t) = some (value, rest) ∧ lead <+: value := by
  obtain ⟨d, digit, form⟩ := number
  obtain rfl | rfl | rfl | rfl := form
  · have plain : d ≠ '-' := by
      rintro rfl
      contradiction
    rw [List.cons_append, number?_of_ne plain]
    exact unsigned?_digit digit t
  · obtain ⟨value, rest, read, front⟩ := unsigned?_digit digit t
    exact ⟨'-' :: value, rest, by simp [number?, read], List.cons_prefix_cons.mpr ⟨rfl, front⟩⟩
  · exact unsigned?_point digit t
  · obtain ⟨value, rest, read, front⟩ := unsigned?_point digit t
    exact ⟨'-' :: value, rest, by simp [number?, read], List.cons_prefix_cons.mpr ⟨rfl, front⟩⟩

theorem numeric?_of_number? (units : Table String String) {value : List Char}
    (read : number? s = some (value, rest)) :
    ∃ unit inferred after,
      numeric? units s = some (.numeric (String.ofList value) unit inferred, after) := by
  rw [numeric?, read, Option.map_some]
  dsimp only
  split <;> exact ⟨_, _, _, rfl⟩

/-- A digit follows where a number begins with a sign and a point. -/
theorem digit_of_lead_sign (number : IsNumberLead lead) (front : lead <+: '-' :: '.' :: t) :
    ∃ d rest, d.isDigit ∧ t = d :: rest := by
  obtain ⟨d, digit, form⟩ := number
  obtain rfl | rfl | rfl | rfl := form
  · obtain ⟨rfl, -⟩ := List.cons_prefix_cons.mp front
    contradiction
  · obtain ⟨-, front⟩ := List.cons_prefix_cons.mp front
    obtain ⟨rfl, -⟩ := List.cons_prefix_cons.mp front
    contradiction
  · obtain ⟨other, -⟩ := List.cons_prefix_cons.mp front
    exact absurd other (by decide)
  · obtain ⟨rest, same⟩ := front
    exact ⟨d, rest, digit, by simpa using same.symm⟩

theorem isSeparator_lead (number : IsNumberLead lead) (t : List Char) :
    Stops isSeparator (lead ++ t) := by
  obtain ⟨d, digit, form⟩ := number
  have solid : isSeparator d = false := by
    refine Bool.eq_false_iff.mpr fun separator => ?_
    rw [separator_isDigit separator] at digit
    contradiction
  obtain rfl | rfl | rfl | rfl := form
  · exact stops_cons.mpr solid
  all_goals exact stops_cons.mpr (by decide)

/-- A number at the front of a text is its first argument, with all that it begins with. -/
theorem arguments_lead (tables : Tables) (number : IsNumberLead lead) (front : lead <+: s) :
    ∃ value unit inferred more, lead <+: value ∧
      arguments tables s = .numeric (String.ofList value) unit inferred :: more := by
  obtain ⟨t, rfl⟩ := front
  obtain ⟨value, rest, read, front⟩ := number?_lead number t
  have begins : (lead ++ t).dropWhile isSeparator = lead ++ t :=
    (isSeparator_lead number t).dropWhile_eq_self
  have filled : lead ++ t ≠ [] := by
    intro none
    rw [none] at read
    contradiction
  obtain ⟨unit, inferred, after, found⟩ := numeric?_of_number? tables.unitAliases read
  have first : argument tables (lead ++ t) =
      (.numeric (String.ofList value) unit inferred, after) := by
    rw [argument, found]
  refine ⟨value, unit, inferred, arguments tables after, front, ?_⟩
  rw [arguments_eq, begins, if_neg filled, first]

end Number

section Key

theorem visible_of_isAlpha (letter : c.isAlpha) : 0x41 ≤ c.toNat ∧ c.toNat ≤ 0x7A := by
  simp [Char.isAlpha, Char.isUpper, Char.isLower, UInt32.le_iff_toNat_le] at letter
  omega

theorem isKeyChar_of_isAlpha (letter : c.isAlpha) : isKeyChar c := by
  have visible := visible_of_isAlpha letter
  have solid : isBlank c = false := isBlank_visible ⟨by omega, by omega⟩
  have hash : c ≠ '#' := by
    rintro rfl
    contradiction
  have digit : c.isDigit = false := by
    simp [Char.isDigit, UInt32.le_iff_toNat_le]
    omega
  simp [isKeyChar, solid, hash, digit]

/-- A key that ends in neither a sign nor a point takes no character from the arguments. -/
theorem keyPart_append_of_stops (key : ∀ c ∈ k, isKeyChar c)
    (last : ∀ c ∈ k.getLast?, c ≠ '-' ∧ c ≠ '.') (stop : Stops isKeyChar s) :
    keyPart (k ++ s) = (k, s) := by
  unfold keyPart
  rw [takeWhile_run key stop, dropWhile_run key stop]
  dsimp only
  split
  · next mark c rest here =>
    obtain ⟨sign, point⟩ := last mark here
    rw [if_neg (by simp [sign, point])]
  · rfl

/-- The character in front of a digit goes to the number. -/
theorem keyPart_mark (key : ∀ c ∈ k, isKeyChar c) (nonempty : k ≠ [])
    (sign : mark = '-' ∨ mark = '.') (digit : d.isDigit) (t : List Char) :
    keyPart (k ++ mark :: d :: t) = (k, mark :: d :: t) := by
  have whole : k ++ mark :: d :: t = (k ++ [mark]) ++ d :: t := by simp
  have taken : isKeyChar mark := by
    obtain rfl | rfl := sign <;> decide
  have all : ∀ c ∈ k ++ [mark], isKeyChar c :=
    List.forall_mem_append.mpr ⟨key, List.forall_mem_singleton.mpr taken⟩
  have stop : Stops isKeyChar (d :: t) := stops_cons.mpr (by simp [isKeyChar, digit])
  have length : 1 < (k ++ [mark]).length := by
    have := List.length_pos_iff.mpr nonempty
    simp only [List.length_append, List.length_singleton]
    omega
  unfold keyPart
  rw [whole, takeWhile_run all stop, dropWhile_run all stop]
  dsimp only
  rw [List.getLast?_concat]
  dsimp only
  rw [if_pos ⟨sign, length, digit⟩, List.dropLast_concat]

/-- What begins a number or a color leaves the letters in front to the key, unless it is a
sign and a point. -/
theorem keyPart_letters (letters : ∀ c ∈ k, c.isAlpha) (nonempty : k ≠ [])
    (begins : BeginsNumber s ∨ s.head? = some '#') (apart : ¬ ['-', '.'] <+: s) :
    keyPart (k ++ s) = (k, s) := by
  have key : ∀ c ∈ k, isKeyChar c := fun c member => isKeyChar_of_isAlpha (letters c member)
  have last : ∀ c ∈ k.getLast?, c ≠ '-' ∧ c ≠ '.' := by
    intro c here
    have letter := letters c (List.mem_of_getLast? here)
    constructor <;>
    · rintro rfl
      contradiction
  obtain ⟨lead, ⟨d, digit, form⟩, t, rfl⟩ | hash := begins
  · obtain rfl | rfl | rfl | rfl := form
    · exact keyPart_append_of_stops key last (stops_cons.mpr (by simp [isKeyChar, digit]))
    · exact keyPart_mark key nonempty (.inl rfl) digit t
    · exact keyPart_mark key nonempty (.inr rfl) digit t
    · exact absurd ⟨d :: t, rfl⟩ apart
  · obtain ⟨t, rfl⟩ := List.head?_eq_some_iff.mp hash
    exact keyPart_append_of_stops key last (stops_cons.mpr (by decide))

/-- Of a sign and a point in front of a digit the point alone is handed back. -/
theorem keyPart_letters_sign (letters : ∀ c ∈ k, c.isAlpha)
    (begins : BeginsNumber s ∨ s.head? = some '#') (signed : ['-', '.'] <+: s) :
    keyPart (k ++ s) = (k ++ ['-'], s.tail) := by
  obtain ⟨t, rfl⟩ := signed
  have key : ∀ c ∈ k ++ ['-'], isKeyChar c :=
    List.forall_mem_append.mpr ⟨fun c member => isKeyChar_of_isAlpha (letters c member),
      List.forall_mem_singleton.mpr (by decide)⟩
  obtain ⟨lead, number, front⟩ | hash := begins
  · obtain ⟨d, rest, digit, rfl⟩ := digit_of_lead_sign number front
    have whole : k ++ (['-', '.'] ++ d :: rest) = (k ++ ['-']) ++ '.' :: d :: rest := by simp
    rw [whole, keyPart_mark key (by simp) (.inr rfl) digit rest]
    rfl
  · simp at hash

theorem importantPart_eq_self (last : s.getLast? ≠ some '!') : importantPart s = (s, false) := by
  rw [importantPart, dropLast?, if_neg last]

/-- Behind letters nothing stands in front of the key, and all that follows is key and
arguments. -/
theorem declaration_letters (tables : Tables) (letters : ∀ c ∈ k, c.isAlpha) (nonempty : k ≠ [])
    (filled : s ≠ []) (solid : ∀ c ∈ s.getLast?, isBlank c = false ∧ c ≠ '!') :
    declaration tables (k ++ s) =
      { key := String.ofList (keyPart (k ++ s)).1, vendors := .none, important := false
        args := arguments tables (keyPart (k ++ s)).2 } := by
  have last : (k ++ s).getLast? = s.getLast? :=
    getLast?_eq_of_suffix (List.suffix_append k s) filled
  obtain ⟨c, k, rfl⟩ := List.exists_cons_of_ne_nil nonempty
  have visible := visible_of_isAlpha (letters c List.mem_cons_self)
  have front : Stops isBlank (c :: k ++ s) :=
    stops_cons.mpr (isBlank_visible ⟨by omega, by omega⟩)
  have whole : trim (c :: k ++ s) = c :: k ++ s := by
    apply trim_eq_self front
    rw [last]
    intro c here
    exact (solid c here).1
  have unmarked : importantPart (c :: k ++ s) = (c :: k ++ s, false) := by
    apply importantPart_eq_self
    rw [last]
    intro mark
    exact (solid '!' mark).2 rfl
  have plain : c ≠ '-' := by
    rintro rfl
    contradiction
  simp only [declaration, whole, unmarked]
  rw [List.cons_append, vendorPart_of_ne plain]

end Key

/-- Letters in front of a number or a color are the key and leave all that follows to the
arguments, exactly if the number does not begin with a sign and a point. If it does, the sign
goes to the key. A number is read whole as an argument if it is left to the arguments. -/
theorem key_leaves_number_iff (tables : Tables) (letters : ∀ c ∈ k, c.isAlpha) (nonempty : k ≠ [])
    (begins : BeginsNumber s ∨ s.head? = some '#')
    (solid : ∀ c ∈ s.getLast?, isBlank c = false ∧ c ≠ '!') :
    (declaration tables (k ++ s) =
        { key := String.ofList k, vendors := .none, important := false
          args := arguments tables s } ↔
      ¬ ['-', '.'] <+: s) ∧
    (['-', '.'] <+: s → declaration tables (k ++ s) =
      { key := String.ofList (k ++ ['-']), vendors := .none, important := false
        args := arguments tables s.tail }) ∧
    (∀ lead, IsNumberLead lead → lead <+: s →
      ∃ value unit inferred more, lead <+: value ∧
        arguments tables s = .numeric (String.ofList value) unit inferred :: more) := by
  have filled : s ≠ [] := by
    rintro rfl
    obtain ⟨lead, ⟨d, -, form⟩, front⟩ | hash := begins
    · obtain rfl := List.prefix_nil.mp front
      simp at form
    · simp at hash
  have read := declaration_letters tables letters nonempty filled solid
  refine ⟨⟨?_, ?_⟩, ?_, ?_⟩
  · intro same signed
    rw [read, keyPart_letters_sign letters begins signed] at same
    have longer := congrArg String.length (Declaration.mk.inj same).1
    simp at longer
  · intro apart
    rw [read, keyPart_letters letters nonempty begins apart]
  · intro signed
    rw [read, keyPart_letters_sign letters begins signed]
  · intro lead number front
    exact arguments_lead tables number front

/-- A negative margin with a second one behind it, whose sign stands in front of a point. -/
theorem key_leaves_number_margins :
    BeginsNumber "-1.5-.5".toList ∧ ¬ ['-', '.'] <+: "-1.5-.5".toList ∧
      declaration Tables.builtin "ml-1.5-.5".toList =
        { key := "ml", args := [.numeric "-1.5" "em" true, .numeric "-.5" "em" true] } := by
  have begins : BeginsNumber "-1.5-.5".toList :=
    ⟨['-', '1'], ⟨'1', by decide, .inr (.inl rfl)⟩, by decide⟩
  have apart : ¬ ['-', '.'] <+: "-1.5-.5".toList := by decide
  have letters : ∀ c ∈ "ml".toList, c.isAlpha := forall_mem_of_all (by decide)
  have solid : ∀ c ∈ "-1.5-.5".toList.getLast?, isBlank c = false ∧ c ≠ '!' := by
    intro c last
    obtain rfl : '5' = c := Option.some.inj last
    decide
  have read := (key_leaves_number_iff Tables.builtin letters (by decide) (.inl begins) solid).1
  refine ⟨begins, apart, (read.mpr apart).trans ?_⟩
  cbv

/-- The sign in front of a point stays in the key, though it is part of the number. -/
theorem sign_stays_in_key :
    BeginsNumber "-.5".toList ∧
      declaration Tables.builtin "op-.5".toList =
        { key := "op-", args := [.numeric ".5" "em" true] } ∧
      arguments Tables.builtin "-.5".toList = [.numeric "-.5" "em" true] ∧
      declaration Tables.builtin "op-.5".toList ≠
        { key := "op", args := arguments Tables.builtin "-.5".toList } := by
  have begins : BeginsNumber "-.5".toList :=
    ⟨['-', '.', '5'], ⟨'5', by decide, .inr (.inr (.inr rfl))⟩, by decide⟩
  have read : declaration Tables.builtin "op-.5".toList =
      { key := "op-", args := [.numeric ".5" "em" true] } := by cbv
  refine ⟨begins, read, by cbv, ?_⟩
  rw [read]
  intro same
  exact absurd (Declaration.mk.inj same).1 (by decide)

end Shorthand.Style
