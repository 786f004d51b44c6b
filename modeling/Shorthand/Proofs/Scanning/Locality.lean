import Shorthand.Proofs.Scanning.Token

/-! Scanning with more text behind. What a scanner reads off the front of a text it
also reads with more text behind, provided that it stopped before the end of the
first text or that what follows would have stopped it. A quote is the exception: one
without a partner begins a bare value, and text behind it may supply the partner. -/
namespace Shorthand

namespace Numbering

theorem readSuffix_descending (width : Nat) (s : List Char) :
    readSuffix width ('@' :: '-' :: s) =
      (⟨width, false, firstNumber (s.takeWhile isDecimalDigit)⟩, s.dropWhile isDecimalDigit) := rfl

theorem readSuffix_ascending {width : Nat} {s : List Char} (h : s.head? ≠ some '-') :
    readSuffix width ('@' :: s) =
      (⟨width, true, firstNumber (s.takeWhile isDecimalDigit)⟩, s.dropWhile isDecimalDigit) := by
  rw [readSuffix.eq_2 _ _ (ne_cons_of_head?_ne h)]

theorem readSuffix_plain {width : Nat} {s : List Char} (h : s.head? ≠ some '@') :
    readSuffix width s = (⟨width, true, 1⟩, s) := by
  rw [readSuffix.eq_3 _ _ (fun t => ne_cons_of_head?_ne h _) (ne_cons_of_head?_ne h)]

/-- A character that a token can go on with. -/
def isTokenChar (c : Char) : Bool := c == '$' || c == '@' || c == '-' || isDecimalDigit c

theorem head?_ne_of_stops {c : Char} {x : List Char} (token : isTokenChar c)
    (stop : Stops isTokenChar x) : x.head? ≠ some c :=
  fun here => Bool.false_ne_true ((stop c here).symm.trans token)

theorem stops_digit {x : List Char} (stop : Stops isTokenChar x) : Stops isDecimalDigit x := by
  intro c here
  have none := stop c here
  simp only [isTokenChar, Bool.or_eq_false_iff] at none
  exact none.2

theorem readSuffix_append {width : Nat} {s x : List Char}
    (next : (readSuffix width s).2 = [] → Stops isTokenChar x) :
    readSuffix width (s ++ x) = ((readSuffix width s).1, (readSuffix width s).2 ++ x) := by
  fun_cases readSuffix width s with
  | case1 s =>
    rw [readSuffix_descending] at next
    rw [List.cons_append, List.cons_append, readSuffix_descending,
      takeWhile_append_right fun ends => stops_digit (next ends),
      dropWhile_append_right fun ends => stops_digit (next ends)]
  | case2 s notMinus =>
    have head : s.head? ≠ some '-' := head?_ne_of_ne_cons notMinus
    rw [readSuffix_ascending head] at next
    have unsigned : s = [] → x.head? ≠ some '-' := by
      rintro rfl
      exact head?_ne_of_stops (by decide) (next rfl)
    rw [List.cons_append, readSuffix_ascending (head?_append_ne head unsigned),
      takeWhile_append_right fun ends => stops_digit (next ends),
      dropWhile_append_right fun ends => stops_digit (next ends)]
  | case3 s _ notAt =>
    have head : s.head? ≠ some '@' := head?_ne_of_ne_cons notAt
    rw [readSuffix_plain head] at next
    exact readSuffix_plain
      (head?_append_ne head fun empty => head?_ne_of_stops (by decide) (next empty))

/-- A token is read the same with more text behind, if something stands between the two or the
text behind does not go on with the token. -/
theorem read_append {s x : List Char} (next : (read s).2 = [] → Stops isTokenChar x) :
    read (s ++ x) = ((read s).1, (read s).2 ++ x) := by
  have stop (ends : s.dropWhile (· == '$') = []) : Stops (· == '$') x := by
    rw [read, ends] at next
    exact fun c here => beq_eq_false_iff_ne.mpr fun same =>
      head?_ne_of_stops (by decide) (next rfl) (same ▸ here)
  unfold read
  rw [takeWhile_append_right stop, dropWhile_append_right stop]
  exact readSuffix_append next

end Numbering

/-- Text is read up to its brace, and no further. -/
theorem Template.braced?_append {before : List Piece} {s rest : List Char} {text : Template}
    (x : List Char) (h : braced? before s = some (text, rest)) :
    braced? before (s ++ x) = some (text, rest ++ x) := by
  fun_induction braced? before s with
  | case1 => contradiction
  | case2 before s =>
    obtain ⟨rfl, rfl⟩ := Prod.mk.inj (Option.some.inj h)
    exact braced?_close before _
  | case3 => contradiction
  | case4 before d s _ ih => exact (braced?_escape before d _).trans (ih h)
  | case5 before s _ _ ih =>
    have more : (Numbering.read s).2 ≠ [] := by
      intro hs
      rw [hs, braced?_nil] at h
      contradiction
    rw [List.cons_append, braced?_number, Numbering.read_append fun none => absurd none more]
    exact ih h
  | case6 before c s close escape number ih =>
    rw [List.cons_append, braced?_char before _ close escape number]
    exact ih h

namespace Abbreviation

variable {s rest : List Char}

/-- The text stops whatever an atom could go on with: it begins with an operator, a
closing parenthesis or a `|`, if with anything. -/
def EndsAtom (x : List Char) : Prop := ∀ c ∈ x.head?, c ∈ [')', '|', '+', '>', '*']

theorem EndsAtom.stops {x : List Char} (ends : EndsAtom x) {p : Char → Bool}
    (h : [')', '|', '+', '>', '*'].all fun c => p c = false) : Stops p x :=
  fun c hc => forall_mem_of_all h c (ends c hc)

theorem EndsAtom.head?_ne {x : List Char} (ends : EndsAtom x) {c : Char}
    (h : c ∉ [')', '|', '+', '>', '*']) : x.head? ≠ some c :=
  fun hc => h (ends c hc)

/-- No quote in `x` can be the partner of one that stands open in `s`. -/
def QuotesApart (s x : List Char) : Prop :=
  '"' ∈ x → ∀ entry ∈ writtenAttributes s, entry.2.isOpen = false

theorem QuotesApart.of_takes {x : List Char} (apart : QuotesApart s x) (taken : Takes s rest) :
    QuotesApart rest x :=
  fun quote entry mem => apart quote entry (taken.attributes_subset mem)

theorem identifier_append {missing : Expected} {name : Template} {x : List Char}
    (h : identifier missing s = .ok (name, rest)) (ends : rest = [] → EndsAtom x) :
    identifier missing (s ++ x) = .ok (name, rest ++ x) := by
  unfold identifier at h ⊢
  split at h
  · contradiction
  · next nonempty =>
    obtain ⟨rfl, rfl⟩ := Prod.mk.inj (Except.ok.inj h)
    have stop (h : s.dropWhile isIdentifierChar = []) : Stops isIdentifierChar x :=
      (ends h).stops (by decide)
    rw [takeWhile_append_right stop, dropWhile_append_right stop]
    split
    · contradiction
    · rfl

theorem quoted?_append {value : List Char} (x : List Char) (h : quoted? s = some (value, rest)) :
    quoted? (s ++ x) = some (value, rest ++ x) := by
  unfold quoted? at h
  split at h
  · next s =>
    split at h
    · contradiction
    · next c rest' hs =>
      obtain ⟨rfl, rfl⟩ := Prod.mk.inj (Option.some.inj h)
      have inside : s.dropWhile (· ≠ '"') ≠ [] := by
        rw [hs]
        exact List.cons_ne_nil _ _
      simp only [List.cons_append, quoted?]
      rw [takeWhile_append_of_ends inside x,
        dropWhile_append_of_ends inside x, hs]
      rfl
  · contradiction

theorem quoted?_eq_none_of_head? (h : s.head? ≠ some '"') : quoted? s = none :=
  quoted?.eq_2 s (ne_cons_of_head?_ne h)

theorem quoted?_eq_none_iff : quoted? ('"' :: s) = none ↔ '"' ∉ s := by
  have empty : s.dropWhile (· ≠ '"') = [] ↔ '"' ∉ s := by
    rw [List.dropWhile_eq_nil_iff]
    constructor
    · intro all mem
      exact absurd (all _ mem) (by decide)
    · rintro none c hc
      exact decide_eq_true fun h => none (h ▸ hc)
  rw [← empty, quoted?]
  split
  · next h => simp only [h]
  · next h => simp only [h, reduceCtorEq]

/-- A quote without a partner stays without one when no quote follows. -/
theorem quoted?_append_eq_none {x : List Char} (h : quoted? s = none) (inside : s ≠ [])
    (apart : s.head? = some '"' → '"' ∉ x) : quoted? (s ++ x) = none := by
  by_cases head : s.head? = some '"'
  · obtain ⟨s, rfl⟩ := List.head?_eq_some_iff.mp head
    have left : '"' ∉ s := quoted?_eq_none_iff.mp h
    apply quoted?_eq_none_iff.mpr
    intro mem
    rcases List.mem_append.mp mem with hs | hx
    · exact left hs
    · exact apart rfl hx
  · exact quoted?_eq_none_of_head? (head?_append_ne_of_ne_nil head inside x)

theorem attributeValue_append {value : Written} {x : List Char}
    (h : attributeValue s = (value, rest)) (inside : rest ≠ []) (apart : value.isOpen → '"' ∉ x) :
    attributeValue (s ++ x) = (value, rest ++ x) := by
  unfold attributeValue at h
  split at h
  · next s =>
    rw [List.cons_append, attributeValue]
    split at h
    · next text after hs =>
      obtain ⟨rfl, rfl⟩ := Prod.mk.inj h
      rw [quoted?_append x hs]
    · next hs =>
      obtain ⟨rfl, rfl⟩ := Prod.mk.inj h
      have more : s ≠ [] := by
        rintro rfl
        exact inside rfl
      have quote (head : s.head? = some '"') : '"' ∉ x := by
        obtain ⟨s, rfl⟩ := List.head?_eq_some_iff.mp head
        exact apart rfl
      rw [quoted?_append_eq_none hs more quote]
      rw [takeWhile_append_of_ends inside x,
        dropWhile_append_of_ends inside x]
  · next equals =>
    obtain ⟨rfl, rfl⟩ := Prod.mk.inj h
    have head : s.head? ≠ some '=' := head?_ne_of_ne_cons equals
    exact attributeValue.eq_2 (s ++ x)
      (ne_cons_of_head?_ne (head?_append_ne_of_ne_nil head inside x))

theorem attributeList_before_subset {before list : List (List Char × Written)}
    (h : attributeList before s = .ok (list, rest)) : before ⊆ list := by
  fun_induction attributeList before s with
  | case1 before s s' _ =>
    obtain ⟨rfl, -⟩ := Prod.mk.inj (Except.ok.inj h)
    exact fun _ mem => List.mem_reverse.mpr mem
  | case2 => contradiction
  | case3 => next ih => exact fun _ mem => ih h (List.mem_cons_of_mem _ mem)

theorem attributeList_ne_nil {before list : List (List Char × Written)}
    (h : attributeList before s = .ok (list, rest)) : s ≠ [] := by
  rintro rfl
  rw [attributeList] at h
  contradiction

theorem attributeList_append {before list : List (List Char × Written)} {x : List Char}
    (h : attributeList before s = .ok (list, rest))
    (apart : '"' ∈ x → ∀ entry ∈ list, entry.2.isOpen = false) :
    attributeList before (s ++ x) = .ok (list, rest ++ x) := by
  fun_induction attributeList before s with
  | case1 before s s' close =>
    obtain ⟨rfl, rfl⟩ := Prod.mk.inj (Except.ok.inj h)
    obtain ⟨t, ht⟩ := List.head?_eq_some_iff.mp close
    have inside : trimStart s ≠ [] := ne_of_eq_of_ne ht (List.cons_ne_nil _ _)
    have start : trimStart (s ++ x) = ']' :: (t ++ x) :=
      (dropWhile_append_of_ends inside x).trans (congrArg (· ++ x) ht)
    rw [attributeList_close before start, ht]
    rfl
  | case2 => contradiction
  | case3 before s s' _ key hkey value ih =>
    have after : value.2 ≠ [] := attributeList_ne_nil h
    have entry : (key, value.1) ∈ list := attributeList_before_subset h List.mem_cons_self
    have inside : trimStart s ≠ [] := fun h => hkey (congrArg (List.takeWhile isKeyChar) h)
    have more : s'.dropWhile isKeyChar ≠ [] := fun h => after (congrArg (attributeValue · |>.2) h)
    have start : trimStart (s ++ x) = s' ++ x :=
      dropWhile_append_of_ends inside x
    have name : (s' ++ x).takeWhile isKeyChar = key :=
      takeWhile_append_of_ends more x
    have next : attributeValue ((s' ++ x).dropWhile isKeyChar) = (value.1, value.2 ++ x) := by
      rw [dropWhile_append_of_ends more x]
      apply attributeValue_append rfl after
      intro isOpen quote
      exact Bool.false_ne_true ((apart quote _ entry).symm.trans isOpen)
    rw [attributeList_entry before (by rwa [start, name]), start, name, next]
    exact ih h

theorem attributes_append {entries : List (String × Template)} {x : List Char}
    (h : attributes s = .ok (entries, rest)) (apart : QuotesApart ('[' :: s) x) :
    attributes (s ++ x) = .ok (entries, rest ++ x) := by
  obtain ⟨list, hlist, rfl⟩ := attributes_eq_ok.mp h
  refine attributes_eq_ok.mpr ⟨list, attributeList_append hlist fun quote entry mem => ?_, rfl⟩
  refine apart quote entry ?_
  rw [writtenAttributes_list hlist]
  exact List.mem_append_left _ mem

theorem qualifiers_append {before found : List Qualifier} {x : List Char}
    (h : qualifiers before s = .ok (found, rest)) (ends : rest = [] → EndsAtom x)
    (apart : QuotesApart s x) : qualifiers before (s ++ x) = .ok (found, rest ++ x) := by
  have inner {middle : List Char} {before : List Qualifier}
      (hmiddle : qualifiers before middle = .ok (found, rest)) (hnil : middle = []) :
      EndsAtom x := by
    subst hnil
    rw [qualifiers_end before (by simp)] at hmiddle
    exact ends (Prod.mk.inj (Except.ok.inj hmiddle)).2.symm
  fun_induction qualifiers before s with
  | case1 => contradiction
  | case2 before s name middle hs ih =>
    have taken : Takes ('#' :: s) middle :=
      .next (by decide) (identifier_takes hs)
    rw [List.cons_append, qualifiers_id before (identifier_append hs (inner h))]
    exact ih h (apart.of_takes taken)
  | case3 => contradiction
  | case4 before s name middle hs ih =>
    have taken : Takes ('.' :: s) middle :=
      .next (by decide) (identifier_takes hs)
    rw [List.cons_append, qualifiers_className before (identifier_append hs (inner h))]
    exact ih h (apart.of_takes taken)
  | case5 => contradiction
  | case6 before s entries middle hs ih =>
    obtain ⟨list, hlist, -⟩ := attributes_eq_ok.mp hs
    rw [List.cons_append, qualifiers_attributes before (attributes_append hs apart)]
    exact ih h (apart.of_takes (.list hlist (.done _)))
  | case7 before s id className list =>
    obtain ⟨rfl, rfl⟩ := Prod.mk.inj (Except.ok.inj h)
    apply qualifiers_end before
    intro c hc
    cases s with
    | nil =>
      have close : ∀ c ∈ [')', '|', '+', '>', '*'], c ≠ '#' ∧ c ≠ '.' ∧ c ≠ '[' :=
        forall_mem_of_all (by decide)
      exact close c (ends rfl c hc)
    | cons d s =>
      obtain rfl : d = c := Option.some.inj hc
      exact ⟨fun h => id s (h ▸ rfl), fun h => className s (h ▸ rfl), fun h => list s (h ▸ rfl)⟩

theorem optionalText_append {text : Option Template} {x : List Char}
    (h : optionalText s = .ok (text, rest)) (ends : rest = [] → EndsAtom x) :
    optionalText (s ++ x) = .ok (text, rest ++ x) := by
  unfold optionalText at h
  split at h
  · next s =>
    obtain ⟨⟨content, middle⟩, hs, heq⟩ := map_eq_ok.mp h
    obtain ⟨rfl, rfl⟩ := Prod.mk.inj heq
    have braced := Template.braced?_append x (bracedText_eq_ok.mp hs)
    exact map_eq_ok.mpr ⟨(content, middle ++ x), bracedText_eq_ok.mpr braced, rfl⟩
  · next brace =>
    obtain ⟨rfl, rfl⟩ := Prod.mk.inj (Except.ok.inj h)
    have head : (s ++ x).head? ≠ some '{' :=
      head?_append_ne (head?_ne_of_ne_cons brace) fun h => (ends h).head?_ne (by decide)
    exact optionalText.eq_2 _ (ne_cons_of_head?_ne head)

theorem tagBody_append {name : Template} {hasBody : Bool} {tag : Tag} {x : List Char}
    (h : tagBody name hasBody s = .ok (tag, rest)) (ends : rest = [] → EndsAtom x)
    (apart : QuotesApart s x) : tagBody name hasBody (s ++ x) = .ok (tag, rest ++ x) := by
  obtain ⟨found, middle, text, hfound, htext, rfl⟩ := tagBody_eq_ok.mp h
  have inner (hnil : middle = []) : EndsAtom x := by
    subst hnil
    exact ends (Prod.mk.inj (Except.ok.inj htext)).2.symm
  exact tagBody_eq_ok.mpr
    ⟨found, middle ++ x, text, qualifiers_append hfound inner apart,
      optionalText_append htext ends, rfl⟩

theorem tagName_append {x : List Char} (ends : (tagName s).2.2 = [] → EndsAtom x) :
    tagName (s ++ x) = ((tagName s).1, (tagName s).2.1, (tagName s).2.2 ++ x) := by
  by_cases slash : (s.dropWhile isNameChar).head? = some '/'
  · obtain ⟨rest, hs⟩ := List.head?_eq_some_iff.mp slash
    have inside : s.dropWhile isNameChar ≠ [] := ne_of_eq_of_ne hs (List.cons_ne_nil _ _)
    have longer : (s ++ x).dropWhile isNameChar = '/' :: (rest ++ x) := by
      rw [dropWhile_append_of_ends inside x, hs]
      rfl
    rw [tagName_slash hs, tagName_slash longer, takeWhile_append_of_ends inside x]
  · rw [tagName_plain slash] at ends ⊢
    have stop (h : s.dropWhile isNameChar = []) : Stops isNameChar x := (ends h).stops (by decide)
    rw [tagName_plain, takeWhile_append_right stop, dropWhile_append_right stop]
    rw [dropWhile_append_right stop]
    exact head?_append_ne slash fun h => (ends h).head?_ne (by decide)

theorem repeatCount_append {count : Option Nat} {x : List Char}
    (h : repeatCount s = .ok (count, rest)) (ends : rest = [] → EndsAtom x)
    (star : rest = [] → x.head? ≠ some '*') :
    repeatCount (s ++ x) = .ok (count, rest ++ x) := by
  obtain ⟨t, n, rfl, hn, rfl, rfl⟩ | ⟨head, rfl, rfl⟩ := repeatCount_eq_ok h
  · have stop (h : t.dropWhile isDecimalDigit = []) : Stops isDecimalDigit x :=
      (ends h).stops (by decide +kernel)
    rw [List.cons_append, repeatCount_some (by rwa [takeWhile_append_right stop]),
      dropWhile_append_right stop]
  · exact repeatCount_none (head?_append_ne head star)

end Abbreviation

end Shorthand
