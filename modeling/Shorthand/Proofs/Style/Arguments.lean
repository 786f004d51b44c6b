import Shorthand.Proofs.Style.Argument

/-! All arguments of a text with a `+`. Where the part in front of the `+` ends in a word,
the word takes the `+` in; else the arguments are those in front and those behind. -/
namespace Shorthand.Style

variable {tables : Tables} {x : Char} {s t v : List Char}

section Argument

def Argument.isWord : Argument → Bool
  | .word _ => true
  | _ => false

theorem isWord_of_numeric? {units : Table String String} {found : Argument × List Char}
    (h : numeric? units s = some found) : found.1.isWord = false := by
  obtain ⟨⟨value, rest⟩, -, rfl⟩ := Option.map_eq_some_iff.mp h
  dsimp only
  split <;> rfl

theorem isWord_of_color? {preferences : StylePreferences} {found : Argument × List Char}
    (h : color? preferences s = some found) : found.1.isWord = false := by
  unfold color? at h
  split at h
  · split at h
    · contradiction
    · obtain rfl := Option.some.inj h
      rfl
  · contradiction

/-- Only what is neither a number nor a color is read as a word. -/
theorem not_number_of_isWord (held : (argument tables s).1.isWord) :
    numeric? tables.unitAliases s = none ∧ color? tables.preferences s = none := by
  unfold argument at held
  split at held
  · next found number =>
    rw [isWord_of_numeric? number] at held
    contradiction
  · next number =>
    cases colored : color? tables.preferences s with
    | none => exact ⟨number, rfl⟩
    | some found =>
      rw [colored, Option.getD_some, isWord_of_color? colored] at held
      contradiction

theorem argument_eq_word (held : (argument tables s).1.isWord) : argument tables s = word s := by
  obtain ⟨number, colored⟩ := not_number_of_isWord held
  rw [argument, number, colored]
  rfl

theorem word_before (ends : s.dropWhile (!isBlank ·) = [] → isBlank x) (v : List Char) :
    word (s ++ x :: v) = withRest (x :: v) (word s) := by
  have stop : s.dropWhile (!isBlank ·) = [] → Stops (!isBlank ·) (x :: v) := fun none =>
    stops_cons.mpr (by rw [ends none]; rfl)
  rw [word, takeWhile_append_right stop, dropWhile_append_right stop]
  rfl

/-- In front of a separator an argument is read as at the end, unless it is a word that goes
on. -/
theorem argument_before (separator : isSeparator x)
    (clean : SuffixesAvoid x tables.preferences)
    (ends : (argument tables s).1.isWord → (argument tables s).2 = [] → isBlank x)
    (v : List Char) :
    argument tables (s ++ x :: v) = withRest (x :: v) (argument tables s) := by
  have numbers := numeric?_before tables.unitAliases separator s v
  have colors := color?_before clean separator s v
  cases number : numeric? tables.unitAliases s with
  | some found =>
    rw [argument, argument, numbers, number]
    rfl
  | none =>
    cases colored : color? tables.preferences s with
    | some found =>
      rw [argument, argument, numbers, number, colors, colored]
      rfl
    | none =>
      have read : argument tables s = word s := by
        rw [argument, number, colored]
        rfl
      rw [read] at ends
      rw [read, argument, numbers, number, colors, colored]
      exact word_before (ends rfl) v

/-- A word that reaches to a separator other than a blank takes it in. -/
theorem argument_of_open (separator : isSeparator x) (solid : isBlank x = false)
    (clean : SuffixesAvoid x tables.preferences) (held : (argument tables s).1.isWord)
    (rest : (argument tables s).2 = []) (v : List Char) :
    (argument tables s).1 = .word (String.ofList s) ∧
      argument tables (s ++ x :: v) =
        (.word (String.ofList (s ++ x :: v.takeWhile (!isBlank ·))),
          v.dropWhile (!isBlank ·)) := by
  obtain ⟨number, colored⟩ := not_number_of_isWord held
  rw [argument_eq_word held] at rest ⊢
  have all : ∀ c ∈ s, (!isBlank c) = true := List.dropWhile_eq_nil_iff.mp rest
  have whole : s.takeWhile (!isBlank ·) = s := List.takeWhile_eq_self_iff.mpr all
  constructor
  · rw [word, whole]
  · rw [argument, numeric?_before _ separator, number, color?_before clean separator, colored]
    change word (s ++ x :: v) = _
    rw [word, List.takeWhile_append_of_pos all, List.dropWhile_append_of_pos all]
    simp [solid]

theorem unsigned?_suffix {found : List Char × List Char} (h : unsigned? s = some found) :
    found.2 <:+ s := by
  have whole := List.dropWhile_suffix Char.isDigit (l := s)
  unfold unsigned? at h
  split at h
  · next t _ rest =>
    have fraction : t.dropWhile Char.isDigit <:+ s :=
      (List.dropWhile_suffix _).trans ((List.suffix_cons '.' t).trans (rest ▸ whole))
    split at h
    · contradiction
    · obtain rfl := Option.some.inj h
      exact fraction
  · contradiction
  · next t rest _ =>
    obtain rfl := Option.some.inj h
    exact (List.dropWhile_suffix _).trans ((List.suffix_cons '.' t).trans (rest ▸ whole))
  · obtain rfl := Option.some.inj h
    exact whole

theorem number?_suffix {found : List Char × List Char} (h : number? s = some found) :
    found.2 <:+ s := by
  unfold number? at h
  split at h
  · obtain ⟨unsigned, read, rfl⟩ := Option.map_eq_some_iff.mp h
    exact (unsigned?_suffix read).trans (List.suffix_cons _ _)
  · exact unsigned?_suffix h

theorem numeric?_suffix {units : Table String String} {found : Argument × List Char}
    (h : numeric? units s = some found) : found.2 <:+ s := by
  obtain ⟨⟨value, rest⟩, read, rfl⟩ := Option.map_eq_some_iff.mp h
  have value := number?_suffix read
  dsimp only
  split
  · exact value
  · exact (List.dropWhile_suffix _).trans value

theorem channelMark_suffix (s : List Char) : (channelMark s).2 <:+ s := by
  unfold channelMark
  split
  · next rest marked => exact ⟨_, (dropLead?_eq_some marked).symm⟩
  · exact List.suffix_rfl

theorem color?_suffix {preferences : StylePreferences} {found : Argument × List Char}
    (h : color? preferences s = some found) : found.2 <:+ s := by
  unfold color? at h
  split at h
  · next t =>
    split at h
    · contradiction
    · obtain rfl := Option.some.inj h
      exact (List.drop_suffix _ _).trans ((channelMark_suffix _).trans
        ((List.drop_suffix _ _).trans (List.suffix_cons '#' t)))
  · contradiction

theorem argument_suffix (tables : Tables) (s : List Char) : (argument tables s).2 <:+ s := by
  unfold argument
  split
  · next found number => exact numeric?_suffix number
  · cases colored : color? tables.preferences s with
    | some found => exact color?_suffix colored
    | none => exact List.dropWhile_suffix _

end Argument

section Arguments

/-- The arguments of a text are those behind its separators. -/
theorem arguments_eq (tables : Tables) (s : List Char) :
    arguments tables s =
      if s.dropWhile isSeparator = [] then []
      else (argument tables (s.dropWhile isSeparator)).1 ::
        arguments tables (argument tables (s.dropWhile isSeparator)).2 := by
  rw [arguments]
  split
  · next none => rw [if_pos none]
  · next c rest some => rw [if_neg (by simp [some]), some]

/-- Every argument is read where the text goes on behind separators. -/
theorem exists_argument_of_mem {arg : Argument} (member : arg ∈ arguments tables s) :
    ∃ t, t <:+ s ∧ t ≠ [] ∧ Stops isSeparator t ∧ (argument tables t).1 = arg := by
  fun_induction arguments tables s with
  | case1 => contradiction
  | case2 s c rest begins found ih =>
    have suffix : c :: rest <:+ s := begins ▸ List.dropWhile_suffix isSeparator
    obtain rfl | later := List.mem_cons.mp member
    · exact ⟨c :: rest, suffix, List.cons_ne_nil _ _, begins ▸ stops_dropWhile _ s, rfl⟩
    · obtain ⟨t, inner, read⟩ := ih later
      exact ⟨t, (inner.trans (argument_suffix tables _)).trans suffix, read⟩

theorem arguments_separator (separator : isSeparator x) (v : List Char) :
    arguments tables (x :: v) = arguments tables v := by
  rw [arguments_eq tables (x :: v), arguments_eq tables v, List.dropWhile_cons, if_pos separator]

theorem arguments_of_separators (all : ∀ c ∈ s, isSeparator c) (v : List Char) :
    arguments tables (s ++ v) = arguments tables v := by
  rw [arguments_eq tables (s ++ v), arguments_eq tables v, List.dropWhile_append_of_pos all]

/-- Whether the last argument of a text without `+` is a word that reaches to the end. -/
def endsInWord (tables : Tables) (s : List Char) : Bool :=
  (arguments tables s).getLast?.any Argument.isWord && s.getLast?.any (!isBlank ·)

theorem getLast?_eq_of_suffix {r : List Char} (suffix : r <:+ s) (nonempty : r ≠ []) :
    s.getLast? = r.getLast? := by
  obtain ⟨front, rfl⟩ := suffix
  rw [List.getLast?_append, List.getLast?_eq_some_getLast nonempty, Option.some_or]

theorem endsInWord_nil : endsInWord tables [] = false := by simp [endsInWord]

theorem endsInWord_step (clean : '+' ∉ s) (begins : s.dropWhile isSeparator ≠ []) :
    endsInWord tables s =
      if (argument tables (s.dropWhile isSeparator)).2 = [] then
        (argument tables (s.dropWhile isSeparator)).1.isWord
      else endsInWord tables (argument tables (s.dropWhile isSeparator)).2 := by
  have suffix := List.dropWhile_suffix isSeparator (l := s)
  have last := getLast?_eq_of_suffix suffix begins
  have read := arguments_eq tables s
  rw [if_neg begins] at read
  generalize s.dropWhile isSeparator = t at suffix begins last read ⊢
  have restSuffix := argument_suffix tables t
  split
  · next none =>
    have single : arguments tables s = [(argument tables t).1] := by
      rw [read, none, arguments_eq]
      rfl
    rw [endsInWord, single, List.getLast?_singleton, Option.any_some]
    cases held : (argument tables t).1.isWord with
    | false => rfl
    | true =>
      -- A word to the end has no blank, hence neither at the end.
      rw [argument_eq_word held] at none
      have all := List.dropWhile_eq_nil_iff.mp none
      rw [last, List.getLast?_eq_some_getLast begins, Option.any_some, Bool.true_and]
      exact all _ (List.getLast_mem begins)
  · next some =>
    rw [endsInWord, endsInWord, read, last, getLast?_eq_of_suffix restSuffix some]
    cases later : arguments tables (argument tables t).2 with
    | cons second rest => rw [List.getLast?_cons_cons]
    | nil =>
      -- Only separators follow, and the last of them is a blank.
      have none : (argument tables t).2.dropWhile isSeparator = [] := by
        by_contra more
        rw [arguments_eq, if_neg more] at later
        contradiction
      have here := List.getLast_mem some
      have separator := List.dropWhile_eq_nil_iff.mp none _ here
      have solid : (argument tables t).2.getLast some ≠ '+' := fun same =>
        clean ((restSuffix.trans suffix).subset (same ▸ here))
      have blank : isBlank ((argument tables t).2.getLast some) := by
        simpa [isSeparator, solid] using separator
      simp [List.getLast?_eq_some_getLast some, blank]

/-- The first argument of a text that has one may depend on all that follows. -/
theorem arguments_append_eq (begins : s.dropWhile isSeparator ≠ []) (v : List Char) :
    arguments tables (s ++ v) =
      (argument tables (s.dropWhile isSeparator ++ v)).1 ::
        arguments tables (argument tables (s.dropWhile isSeparator ++ v)).2 := by
  have inside : (s ++ v).dropWhile isSeparator = s.dropWhile isSeparator ++ v :=
    dropWhile_append_of_ends begins v
  rw [arguments_eq, inside, if_neg fun none => begins (List.append_eq_nil_iff.mp none).1]

/-- The arguments of a text are those in front of a separator and those behind it, if no word
goes on from one part to the other. -/
theorem arguments_append (separator : isSeparator x)
    (clean : SuffixesAvoid x tables.preferences)
    (ends : isBlank x = false → '+' ∉ s ∧ endsInWord tables s = false) (v : List Char) :
    arguments tables (s ++ x :: v) = arguments tables s ++ arguments tables v := by
  fun_induction arguments tables s with
  | case1 s none =>
    have all := List.dropWhile_eq_nil_iff.mp none
    rw [arguments_of_separators all, arguments_separator separator, List.nil_append]
  | case2 s c rest some found ih =>
    have begins : s.dropWhile isSeparator ≠ [] := by simp [some]
    have step : isBlank x = false → endsInWord tables s = _ := fun solid =>
      endsInWord_step (ends solid).1 begins
    rw [some] at step
    have suffix : found.2 <:+ s :=
      (argument_suffix tables _).trans (some ▸ List.dropWhile_suffix isSeparator)
    have inFront : argument tables ((c :: rest) ++ x :: v) = withRest (x :: v) found := by
      refine argument_before separator clean (fun word last => ?_) v
      by_contra solid
      have solid := Bool.eq_false_iff.mpr solid
      have held := step solid
      rw [if_pos last, word, (ends solid).2] at held
      contradiction
    have later : isBlank x = false → '+' ∉ found.2 ∧ endsInWord tables found.2 = false := by
      intro solid
      refine ⟨fun member => (ends solid).1 (suffix.subset member), ?_⟩
      have held := step solid
      rw [(ends solid).2] at held
      split at held
      · next last =>
        rw [last]
        exact endsInWord_nil
      · exact held.symm
    rw [arguments_append_eq begins, some, inFront]
    exact congrArg _ (ih later)

/-- A word that reaches to the end goes on behind a separator other than a blank. -/
theorem arguments_of_endsInWord (separator : isSeparator x) (solid : isBlank x = false)
    (clean : SuffixesAvoid x tables.preferences) (unbroken : '+' ∉ s)
    (reaches : endsInWord tables s) (v : List Char) :
    ∃ first text, arguments tables s = first ++ [.word text] ∧
      arguments tables (s ++ x :: v) =
        first ++ .word (text ++ String.ofList (x :: v.takeWhile (!isBlank ·))) ::
          arguments tables (v.dropWhile (!isBlank ·)) := by
  fun_induction arguments tables s with
  | case1 s none => simp [endsInWord, arguments_eq tables s, none] at reaches
  | case2 s c rest some found ih =>
    have begins : s.dropWhile isSeparator ≠ [] := by simp [some]
    have suffix : found.2 <:+ s :=
      (argument_suffix tables _).trans (some ▸ List.dropWhile_suffix isSeparator)
    rw [endsInWord_step unbroken begins, some] at reaches
    rw [arguments_append_eq begins, some]
    split at reaches
    · next last =>
      obtain ⟨word, read⟩ := argument_of_open separator solid clean reaches last v
      refine ⟨[], String.ofList (c :: rest), ?_, ?_⟩
      · rw [last, arguments_eq, word]
        rfl
      · rw [read, ← String.ofList_append]
        rfl
    · next more =>
      obtain ⟨first, text, front, read⟩ :=
        ih (fun member => unbroken (suffix.subset member)) reaches
      have inFront : argument tables ((c :: rest) ++ x :: v) = withRest (x :: v) found :=
        argument_before separator clean (fun _ last => absurd last more) v
      refine ⟨found.1 :: first, text, congrArg _ front, ?_⟩
      rw [inFront]
      exact congrArg _ read

end Arguments

end Shorthand.Style
