import Shorthand.Proofs.Scanning.Locality
import Shorthand.Proofs.Suffix.Walk

/-! Where the place of a character agrees with the grammar. The place is told from single
characters, the grammar reads whole tokens. Text in braces looks the same to both. In an
attribute list they part at an attribute name with a `{` and at a bare value whose quotes
do not pair up; a list with neither is left where it was entered. -/
namespace Shorthand

theorem Numbering.readSuffix_split (width : Nat) (s : List Char) :
    ∃ token, s = token ++ (readSuffix width s).2 ∧
      ∀ c ∈ token, c = '$' ∨ c = '@' ∨ c = '-' ∨ isDecimalDigit c := by
  have digits (t : List Char) : ∀ c ∈ t.takeWhile isDecimalDigit, isDecimalDigit c :=
    fun _ => List.mem_takeWhile_imp
  fun_cases readSuffix width s with
  | case1 t =>
    refine ⟨'@' :: '-' :: t.takeWhile isDecimalDigit, by simp, ?_⟩
    simp only [List.mem_cons]
    rintro c (rfl | rfl | hc)
    · exact .inr (.inl rfl)
    · exact .inr (.inr (.inl rfl))
    · exact .inr (.inr (.inr (digits t c hc)))
  | case2 t _ =>
    refine ⟨'@' :: t.takeWhile isDecimalDigit, by simp, ?_⟩
    simp only [List.mem_cons]
    rintro c (rfl | hc)
    · exact .inr (.inl rfl)
    · exact .inr (.inr (.inr (digits t c hc)))
  | case3 => exact ⟨[], rfl, by simp⟩

/-- The characters of a numbering token, behind its first `$`. -/
theorem Numbering.read_split (s : List Char) :
    ∃ token, s = token ++ (read s).2 ∧
      ∀ c ∈ token, c = '$' ∨ c = '@' ∨ c = '-' ∨ isDecimalDigit c := by
  obtain ⟨token, split, chars⟩ :=
    readSuffix_split ((s.takeWhile (· == '$')).length + 1) (s.dropWhile (· == '$'))
  refine ⟨s.takeWhile (· == '$') ++ token, ?_, ?_⟩
  · rw [List.append_assoc]
    exact (List.takeWhile_append_dropWhile).symm.trans (congrArg _ split)
  · intro c hc
    rcases List.mem_append.mp hc with run | suffix
    · exact .inl (eq_of_beq (List.mem_takeWhile_imp (p := (· == '$')) run))
    · exact chars c suffix

namespace Abbreviation

namespace Place

variable {place : Place} {c : Char} {s : List Char}

theorem walk_cons (inside : place.isOutside = false) :
    place.walk (c :: s) = (place.next c).walk s := by
  rw [walk, if_neg]
  simp [inside]

/-- Characters that leave the place as it is. -/
theorem walk_of_fixed (inside : place.isOutside = false) (h : ∀ c ∈ s, place.next c = place) :
    place.walk s = some place := by
  induction s with
  | nil => rfl
  | cons c s ih =>
    rw [walk_cons inside, h c List.mem_cons_self]
    exact ih fun d hd => h d (List.mem_cons_of_mem c hd)

theorem next_inText (escape : c ≠ '\\') (close : c ≠ '}') :
    next { inText := true } c = { inText := true } := by
  simp [next, escape, close]

end Place

/-- Text in braces is left where it ends. -/
theorem walk_text {before : List Piece} {s rest : List Char} {text : Template}
    (h : Template.braced? before s = some (text, rest)) :
    ∃ token, s = token ++ rest ∧ Place.walk { inText := true } token = some {} := by
  fun_induction Template.braced? before s with
  | case1 => contradiction
  | case2 before s =>
    obtain ⟨-, rfl⟩ := Prod.mk.inj (Option.some.inj h)
    exact ⟨['}'], rfl, rfl⟩
  | case3 => contradiction
  | case4 before d s _ ih =>
    obtain ⟨token, rfl, walked⟩ := ih h
    refine ⟨'\\' :: d :: token, rfl, ?_⟩
    rw [Place.walk_cons rfl, Place.walk_cons rfl]
    exact walked
  | case5 before s _ _ ih =>
    obtain ⟨token, split, walked⟩ := ih h
    obtain ⟨number, split', chars⟩ := Numbering.read_split s
    refine ⟨'$' :: (number ++ token), ?_, ?_⟩
    · rw [List.cons_append, List.append_assoc, ← split, ← split']
    · have fixed : ∀ c ∈ number, Place.next { inText := true } c = { inText := true } := by
        intro c hc
        rcases chars c hc with rfl | rfl | rfl | digit
        · rfl
        · rfl
        · rfl
        · have notDigit {d : Char} (hd : isDecimalDigit d = false) : c ≠ d := by
            rintro rfl
            exact Bool.false_ne_true (hd.symm.trans digit)
          exact Place.next_inText (notDigit (by decide +kernel)) (notDigit (by decide +kernel))
      rw [Place.walk_cons rfl]
      change Place.walk { inText := true } (number ++ token) = _
      rw [Place.walk_append, Place.walk_of_fixed rfl fixed]
      exact walked
  | case6 before c s close escape number ih =>
    obtain ⟨token, rfl, walked⟩ := ih h
    refine ⟨c :: token, rfl, ?_⟩
    rw [Place.walk_cons rfl, Place.next_inText escape close]
    exact walked

/-- Both readings of an attribute agree on where it ends: its name holds no `{`, and the
quotes in a bare value pair up. -/
def IsPlain (entry : List Char × Written) : Prop :=
  '{' ∉ entry.1 ∧ ∀ text, entry.2 = .bare text → text.count '"' % 2 = 0

namespace Place

/-- In an attribute list only quotes change the place, and braces and brackets outside
quotes. -/
theorem next_inList {inQuotes : Bool} {c : Char} (quote : c ≠ '"')
    (unquoted : inQuotes = false → c ≠ '{' ∧ c ≠ ']') :
    next { inBrackets := true, inQuotes } c = { inBrackets := true, inQuotes } := by
  unfold next
  cases inQuotes with
  | false =>
    obtain ⟨brace, bracket⟩ := unquoted rfl
    split_ifs <;> simp_all
  | true => split_ifs <;> simp_all

/-- A bare value is left inside a quotation where its quotes do not pair up. -/
theorem walk_bare {inQuotes : Bool} {s : List Char} (bare : ∀ c ∈ s, isBareChar c) :
    walk { inBrackets := true, inQuotes } s =
      some { inBrackets := true, inQuotes := inQuotes ^^ (s.count '"' % 2 == 1) } := by
  induction s generalizing inQuotes with
  | nil => simp
  | cons c s ih =>
    have rest := fun d hd => bare d (List.mem_cons_of_mem c hd)
    have hc : isBareChar c := bare c List.mem_cons_self
    rw [walk_cons rfl]
    by_cases quote : c = '"'
    · subst quote
      have flipped : next { inBrackets := true, inQuotes } '"' =
          { inBrackets := true, inQuotes := !inQuotes } := by
        cases inQuotes <;> rfl
      rw [flipped, ih rest, List.count_cons_self]
      rcases Nat.mod_two_eq_zero_or_one (s.count '"') with even | odd
      · simp [Nat.add_mod, even]
      · simp [Nat.add_mod, odd]
    · have fixed : next { inBrackets := true, inQuotes } c = { inBrackets := true, inQuotes } := by
        refine next_inList quote fun _ => ⟨?_, ?_⟩
        · rintro rfl; exact absurd hc (by decide)
        · rintro rfl; exact absurd hc (by decide)
      rw [fixed, ih rest, List.count_cons_of_ne quote]

end Place

theorem isBlank_fixed {c : Char} (blank : isBlank c) :
    Place.next { inBrackets := true } c = { inBrackets := true } := by
  refine Place.next_inList ?_ fun _ => ⟨?_, ?_⟩
  · rintro rfl; exact absurd blank (by decide)
  · rintro rfl; exact absurd blank (by decide)
  · rintro rfl; exact absurd blank (by decide)

theorem isKeyChar_fixed {c : Char} (key : isKeyChar c) (brace : c ≠ '{') :
    Place.next { inBrackets := true } c = { inBrackets := true } := by
  refine Place.next_inList ?_ fun _ => ⟨brace, ?_⟩
  · rintro rfl; exact absurd key (by decide)
  · rintro rfl; exact absurd key (by decide)

/-- A quoted value, and a bare one whose quotes pair up, are left inside the list. -/
theorem walk_attributeValue {s rest : List Char} {value : Written}
    (h : attributeValue s = (value, rest))
    (paired : ∀ text, value = .bare text → text.count '"' % 2 = 0) :
    ∃ token, s = token ++ rest ∧
      Place.walk { inBrackets := true } token = some { inBrackets := true } := by
  unfold attributeValue at h
  split at h
  · next s =>
    split at h
    · next text after hs =>
      obtain ⟨rfl, rfl⟩ := Prod.mk.inj h
      obtain ⟨rfl, closed⟩ := quoted?_eq_some_iff.mp hs
      have inside : ∀ c ∈ text, Place.next { inBrackets := true, inQuotes := true } c =
          { inBrackets := true, inQuotes := true } := fun c hc =>
        Place.next_inList (fun h => closed (h ▸ hc)) nofun
      refine ⟨'=' :: '"' :: (text ++ ['"']), by simp, ?_⟩
      rw [Place.walk_cons rfl, Place.walk_cons rfl]
      change Place.walk { inBrackets := true, inQuotes := true } (text ++ ['"']) = _
      rw [Place.walk_append, Place.walk_of_fixed rfl inside]
      rfl
    · obtain ⟨rfl, rfl⟩ := Prod.mk.inj h
      refine ⟨'=' :: s.takeWhile isBareChar, ?_, ?_⟩
      · rw [List.cons_append, List.takeWhile_append_dropWhile]
      · rw [Place.walk_cons rfl]
        change Place.walk { inBrackets := true } (s.takeWhile isBareChar) = _
        rw [Place.walk_bare fun _ => List.mem_takeWhile_imp, paired _ rfl]
        rfl
  · obtain ⟨rfl, rfl⟩ := Prod.mk.inj h
    exact ⟨[], rfl, rfl⟩

/-- A plain attribute list is left where it ends. -/
theorem walk_attributeList {before list : List (List Char × Written)} {s rest : List Char}
    (h : attributeList before s = .ok (list, rest)) (plain : ∀ entry ∈ list, IsPlain entry) :
    ∃ token, s = token ++ rest ∧ Place.walk { inBrackets := true } token = some {} := by
  fun_induction attributeList before s with
  | case1 before s s' close =>
    obtain ⟨rfl, rfl⟩ := Prod.mk.inj (Except.ok.inj h)
    obtain ⟨t, ht⟩ := List.head?_eq_some_iff.mp close
    refine ⟨s.takeWhile isBlank ++ [']'], ?_, ?_⟩
    · rw [ht, List.append_assoc]
      exact (List.takeWhile_append_dropWhile).symm.trans (congrArg _ ht)
    · have blanks : ∀ c ∈ s.takeWhile isBlank,
          Place.next { inBrackets := true } c = { inBrackets := true } := fun c hc =>
        isBlank_fixed (List.mem_takeWhile_imp hc)
      rw [Place.walk_append, Place.walk_of_fixed rfl blanks]
      rfl
  | case2 => contradiction
  | case3 before s s' _ key hkey value ih =>
    obtain ⟨token, split, walked⟩ := ih h
    have entry := plain (key, value.1) (attributeList_before_subset h List.mem_cons_self)
    have valueRead : attributeValue (s'.dropWhile isKeyChar) = (value.1, value.2) := rfl
    obtain ⟨word, valueSplit, valueWalked⟩ := walk_attributeValue valueRead entry.2
    have blanks : ∀ c ∈ s.takeWhile isBlank,
        Place.next { inBrackets := true } c = { inBrackets := true } := fun c hc =>
      isBlank_fixed (List.mem_takeWhile_imp hc)
    have name : ∀ c ∈ key, Place.next { inBrackets := true } c = { inBrackets := true } :=
      fun c hc => isKeyChar_fixed (List.mem_takeWhile_imp hc) fun h => entry.1 (h ▸ hc)
    refine ⟨s.takeWhile isBlank ++ (key ++ (word ++ token)), ?_, ?_⟩
    · calc s = s.takeWhile isBlank ++ (key ++ s'.dropWhile isKeyChar) := by
            rw [List.takeWhile_append_dropWhile]
            exact (List.takeWhile_append_dropWhile).symm
        _ = s.takeWhile isBlank ++ (key ++ (word ++ (token ++ rest))) := by
            rw [valueSplit, ← split]
        _ = _ := by simp
    · rw [Place.walk_append, Place.walk_of_fixed rfl blanks, Option.bind_some, Place.walk_append,
        Place.walk_of_fixed rfl name, Option.bind_some, Place.walk_append, valueWalked]
      exact walked

/-- Whole tokens whose attributes are plain are left outside text and lists. -/
theorem Takes.walk {s rest : List Char} (taken : Takes s rest)
    (plain : ∀ entry ∈ writtenAttributes s, IsPlain entry) :
    ∃ tokens, s = tokens ++ rest ∧ Place.walk {} tokens = some {} := by
  induction taken with
  | done s => exact ⟨[], rfl, rfl⟩
  | @sign c s rest text list bar _ ih =>
    rw [writtenAttributes_sign s text list] at plain
    obtain ⟨tokens, rfl, walked⟩ := ih plain
    refine ⟨c :: tokens, rfl, ?_⟩
    have fixed : Place.next {} c = {} := by
      unfold Place.next
      split_ifs <;> simp_all
    rw [Place.walk, if_neg fun held => bar held.1, fixed]
    exact walked
  | @text s middle rest _ h _ ih =>
    rw [writtenAttributes_text h] at plain
    obtain ⟨tokens, rfl, walked⟩ := ih plain
    obtain ⟨token, rfl, inside⟩ := walk_text h
    refine ⟨'{' :: (token ++ tokens), by simp, ?_⟩
    change Place.walk { inText := true } (token ++ tokens) = _
    rw [Place.walk_append, inside]
    exact walked
  | @list s middle rest list h _ ih =>
    rw [writtenAttributes_list h] at plain
    obtain ⟨tokens, rfl, walked⟩ := ih fun entry mem => plain entry (List.mem_append_right _ mem)
    obtain ⟨token, rfl, inside⟩ :=
      walk_attributeList h fun entry mem => plain entry (List.mem_append_left _ mem)
    refine ⟨'[' :: (token ++ tokens), by simp, ?_⟩
    change Place.walk { inBrackets := true } (token ++ tokens) = _
    rw [Place.walk_append, inside]
    exact walked

end Abbreviation

end Shorthand
