import Shorthand.Proofs.Scanning.Remainder
import Shorthand.Proofs.Scanning.Span

/-! The tokens of an abbreviation. Text in braces and an attribute list are one token
each, whatever characters they hold; every other character is read as a sign of its
own. A reader of the grammar takes whole tokens off the front of its input. -/
namespace Shorthand

theorem isDecimalDigit_of_isDigit {c : Char} (h : c.isDigit) : isDecimalDigit c := by
  simp only [Char.isDigit, Bool.and_eq_true, decide_eq_true_eq] at h
  refine List.any_eq_true.mpr ⟨0x30, List.mem_cons_self, ?_⟩
  simp only [Bool.and_eq_true, decide_eq_true_eq]
  exact ⟨h.1, UInt32.lt_of_le_of_lt h.2 (by decide)⟩

theorem Template.braced?_length_le {before : List Piece} {s rest : List Char} {text : Template}
    (h : braced? before s = some (text, rest)) : rest.length ≤ s.length :=
  (braced?_suffix h).length_le

namespace Abbreviation

/-- A bare value whose first character is a quote without a partner. -/
def Written.isOpen : Written → Bool
  | .bare ('"' :: _) => true
  | _ => false

/-- A quoted value is what stands between two quotes. -/
theorem quoted?_eq_some_iff {s value rest : List Char} :
    quoted? s = some (value, rest) ↔ s = '"' :: (value ++ '"' :: rest) ∧ '"' ∉ value := by
  constructor
  · intro h
    unfold quoted? at h
    split at h
    · next s =>
      split at h
      · contradiction
      · next c rest' hs =>
        obtain ⟨rfl, rfl⟩ := Prod.mk.inj (Option.some.inj h)
        have stop : Stops (· ≠ '"') (c :: rest') := hs ▸ stops_dropWhile _ s
        obtain rfl : c = '"' := of_not_not (of_decide_eq_false (stops_cons.mp stop))
        refine ⟨?_, fun mem => absurd (List.mem_takeWhile_imp mem) (by decide)⟩
        rw [← hs, List.takeWhile_append_dropWhile]
    · contradiction
  · rintro ⟨rfl, closed⟩
    have all : ∀ c ∈ value, decide (c ≠ '"') := fun c hc =>
      decide_eq_true fun h => closed (h ▸ hc)
    have stop : Stops (· ≠ '"') ('"' :: rest) := stops_cons.mpr (by decide)
    rw [quoted?, takeWhile_run all stop, dropWhile_run all stop]

theorem identifier_run {missing : Expected} {s x : List Char} (nonempty : s ≠ [])
    (all : ∀ c ∈ s, isIdentifierChar c) (stop : Stops isIdentifierChar x) :
    identifier missing (s ++ x) = .ok (.ofSelector s, x) := by
  unfold identifier
  rw [takeWhile_run all stop, dropWhile_run all stop]
  split
  · contradiction
  · rfl

theorem attributeList_quoted (before : List (List Char × Written)) {key value x : List Char}
    (nonempty : key ≠ []) (all : ∀ c ∈ key, isKeyChar c) (closed : '"' ∉ value) :
    attributeList before (key ++ '=' :: '"' :: (value ++ '"' :: x)) =
      attributeList ((key, .quoted value) :: before) x := by
  have solid : ∀ c ∈ (key ++ '=' :: '"' :: (value ++ '"' :: x)).head?, isBlank c = false := by
    obtain ⟨c, rest, rfl⟩ := List.exists_cons_of_ne_nil nonempty
    intro d here
    obtain rfl : c = d := Option.some.inj here
    have free := all c List.mem_cons_self
    simp only [isKeyChar, Bool.not_eq_true', Bool.or_eq_false_iff] at free
    exact free.1.1.1
  have start := Stops.dropWhile_eq_self solid
  have stop : Stops isKeyChar ('=' :: '"' :: (value ++ '"' :: x)) := stops_cons.mpr (by decide)
  have quoted : quoted? ('"' :: (value ++ '"' :: x)) = some (value, x) :=
    quoted?_eq_some_iff.mpr ⟨rfl, closed⟩
  have read : attributeValue ('=' :: '"' :: (value ++ '"' :: x)) = (.quoted value, x) := by
    rw [attributeValue, quoted]
  rw [attributeList_entry before (by rwa [trimStart, start, takeWhile_run all stop]), trimStart,
    start, takeWhile_run all stop, dropWhile_run all stop, read]

/-- The attributes in an abbreviation, as they are written. -/
def writtenAttributes (s : List Char) : List (List Char × Written) :=
  match s with
  | [] => []
  | c :: s =>
    if c = '{' then
      match _h : Template.braced? [] s with
      | none => []
      | some (_, rest) => writtenAttributes rest
    else if c = '[' then
      match _h : attributeList [] s with
      | .error _ => []
      | .ok (list, rest) => list ++ writtenAttributes rest
    else writtenAttributes s
termination_by s.length
decreasing_by
  · exact Nat.lt_succ_of_le (Template.braced?_length_le _h)
  · exact Nat.lt_succ_of_lt (attributeList_length_lt _h)
  · exact Nat.lt_succ_self _

theorem writtenAttributes_text {s rest : List Char} {text : Template}
    (h : Template.braced? [] s = some (text, rest)) :
    writtenAttributes ('{' :: s) = writtenAttributes rest := by
  rw [writtenAttributes, if_pos rfl]
  split
  · next h' => rw [h] at h'; contradiction
  · next h' =>
    obtain ⟨-, rfl⟩ := Prod.mk.inj (Option.some.inj (h.symm.trans h'))
    rfl

theorem writtenAttributes_list {s rest : List Char} {list : List (List Char × Written)}
    (h : attributeList [] s = .ok (list, rest)) :
    writtenAttributes ('[' :: s) = list ++ writtenAttributes rest := by
  rw [writtenAttributes, if_neg (by decide), if_pos rfl]
  split
  · next h' => rw [h] at h'; contradiction
  · next h' =>
    obtain ⟨rfl, rfl⟩ := Prod.mk.inj (Except.ok.inj (h.symm.trans h'))
    rfl

theorem writtenAttributes_sign {c : Char} (s : List Char) (text : c ≠ '{') (list : c ≠ '[') :
    writtenAttributes (c :: s) = writtenAttributes s := by
  rw [writtenAttributes, if_neg text, if_neg list]

/-- What stands in front of `rest` in the first text is made up of whole tokens. A `|`
is none: it belongs to no abbreviation outside text and attribute lists. -/
inductive Takes : List Char → List Char → Prop where
  | done (s : List Char) : Takes s s
  | sign {c : Char} {s rest : List Char} (text : c ≠ '{') (list : c ≠ '[') (bar : c ≠ '|') :
      Takes s rest → Takes (c :: s) rest
  | text {s middle rest : List Char} {text : Template} :
      Template.braced? [] s = some (text, middle) → Takes middle rest → Takes ('{' :: s) rest
  | list {s middle rest : List Char} {list : List (List Char × Written)} :
      attributeList [] s = .ok (list, middle) → Takes middle rest → Takes ('[' :: s) rest

namespace Takes

variable {s middle rest : List Char}

theorem trans (first : Takes s middle) (last : Takes middle rest) : Takes s rest := by
  induction first with
  | done => exact last
  | sign text list bar _ ih => exact .sign text list bar (ih last)
  | text h _ ih => exact .text h (ih last)
  | list h _ ih => exact .list h (ih last)

/-- A character that begins nothing is a sign. -/
theorem next {c : Char} (h : c ∉ ['{', '[', '|']) (taken : Takes s rest) : Takes (c :: s) rest := by
  simp only [List.mem_cons, List.not_mem_nil, or_false, not_or] at h
  obtain ⟨text, list, bar⟩ := h
  exact .sign text list bar taken

theorem run {p : Char → Bool} (stops : ['{', '[', '|'].all fun c => p c = false)
    (s : List Char) : Takes s (s.dropWhile p) := by
  induction s with
  | nil => exact .done []
  | cons c s ih =>
    cases h : p c with
    | false =>
      simp only [List.dropWhile_cons, h, Bool.false_eq_true, if_false]
      exact .done _
    | true =>
      simp only [List.dropWhile_cons, h, if_true]
      refine .next (fun begins => ?_) ih
      have stopped := forall_mem_of_all stops c begins
      exact Bool.false_ne_true (stopped.symm.trans h)

theorem suffix (taken : Takes s rest) : rest <:+ s := by
  induction taken with
  | done => exact List.suffix_refl _
  | sign _ _ _ _ ih => exact ih.trans (List.suffix_cons _ _)
  | text h _ ih => exact (ih.trans (Template.braced?_suffix h)).trans (List.suffix_cons _ _)
  | list h _ ih => exact (ih.trans (attributeList_suffix h)).trans (List.suffix_cons _ _)

theorem length_le (taken : Takes s rest) : rest.length ≤ s.length :=
  taken.suffix.length_le

theorem eq_nil (taken : Takes [] rest) : rest = [] :=
  List.eq_nil_of_length_eq_zero (Nat.le_zero.mp taken.length_le)

theorem attributes_subset (taken : Takes s rest) :
    writtenAttributes rest ⊆ writtenAttributes s := by
  induction taken with
  | done => exact fun _ h => h
  | sign text list _ _ ih => rwa [writtenAttributes_sign _ text list]
  | text h _ ih => rwa [writtenAttributes_text h]
  | list h _ ih =>
    rw [writtenAttributes_list h]
    exact fun _ mem => List.mem_append_right _ (ih mem)

end Takes

theorem identifier_takes {missing : Expected} {s rest : List Char} {name : Template}
    (h : identifier missing s = .ok (name, rest)) : Takes s rest := by
  unfold identifier at h
  split at h
  · contradiction
  · obtain ⟨-, rfl⟩ := Prod.mk.inj (Except.ok.inj h)
    exact .run (by decide) s

theorem qualifiers_takes {before found : List Qualifier} {s rest : List Char}
    (h : qualifiers before s = .ok (found, rest)) : Takes s rest := by
  fun_induction qualifiers before s with
  | case1 => contradiction
  | case2 before s name middle hs ih =>
    exact .next (by decide) ((identifier_takes hs).trans (ih h))
  | case3 => contradiction
  | case4 before s name middle hs ih =>
    exact .next (by decide) ((identifier_takes hs).trans (ih h))
  | case5 => contradiction
  | case6 before s entries middle hs ih =>
    obtain ⟨list, hlist, -⟩ := attributes_eq_ok.mp hs
    exact .list hlist (ih h)
  | case7 before s =>
    obtain ⟨-, rfl⟩ := Prod.mk.inj (Except.ok.inj h)
    exact .done _

theorem bracedText_eq_ok {s rest : List Char} {text : Template} :
    bracedText s = .ok (text, rest) ↔ Template.braced? [] s = some (text, rest) := by
  rw [bracedText, Template.ofBraces?_eq]
  cases Template.braced? [] s <;> simp

theorem optionalText_takes {s rest : List Char} {text : Option Template}
    (h : optionalText s = .ok (text, rest)) : Takes s rest := by
  unfold optionalText at h
  split at h
  · obtain ⟨⟨content, middle⟩, hs, heq⟩ := map_eq_ok.mp h
    obtain ⟨-, rfl⟩ := Prod.mk.inj heq
    exact .text (bracedText_eq_ok.mp hs) (.done _)
  · obtain ⟨-, rfl⟩ := Prod.mk.inj (Except.ok.inj h)
    exact .done _

theorem tagBody_eq_ok {name : Template} {hasBody : Bool} {s rest : List Char} {tag : Tag} :
    tagBody name hasBody s = .ok (tag, rest) ↔
      ∃ found middle text, qualifiers [] s = .ok (found, middle) ∧
        optionalText middle = .ok (text, rest) ∧ tag = tagOf name hasBody found text := by
  unfold tagBody
  cases qualifiers [] s with
  | error failure => simp
  | ok result =>
    obtain ⟨found, middle⟩ := result
    simp only [map_eq_ok, Except.ok.injEq, Prod.mk.injEq, Prod.exists]
    constructor
    · rintro ⟨text, _, h, rfl, rfl⟩
      exact ⟨found, middle, text, ⟨rfl, rfl⟩, h, rfl⟩
    · rintro ⟨_, _, text, ⟨rfl, rfl⟩, h, rfl⟩
      exact ⟨text, rest, h, rfl, rfl⟩

theorem tagBody_takes {name : Template} {hasBody : Bool} {s rest : List Char} {tag : Tag}
    (h : tagBody name hasBody s = .ok (tag, rest)) : Takes s rest := by
  obtain ⟨found, middle, text, hfound, htext, -⟩ := tagBody_eq_ok.mp h
  exact (qualifiers_takes hfound).trans (optionalText_takes htext)

theorem tagName_slash {s rest : List Char} (h : s.dropWhile isNameChar = '/' :: rest) :
    tagName s = (s.takeWhile isNameChar, false, rest) := by
  simp only [tagName, h]

theorem tagName_plain {s : List Char} (h : (s.dropWhile isNameChar).head? ≠ some '/') :
    tagName s = (s.takeWhile isNameChar, true, s.dropWhile isNameChar) := by
  unfold tagName
  split
  · next rest hs => exact absurd hs (ne_cons_of_head?_ne h rest)
  · rfl

theorem tagName_takes (s : List Char) : Takes s (tagName s).2.2 := by
  have name : Takes s (s.dropWhile isNameChar) := .run (by decide) s
  by_cases slash : (s.dropWhile isNameChar).head? = some '/'
  · obtain ⟨rest, hs⟩ := List.head?_eq_some_iff.mp slash
    rw [tagName_slash hs]
    rw [hs] at name
    exact name.trans (.next (by decide) (.done _))
  · rw [tagName_plain slash]
    exact name

theorem repeatCount_none {s : List Char} (h : s.head? ≠ some '*') :
    repeatCount s = .ok (none, s) :=
  repeatCount.eq_2 s (ne_cons_of_head?_ne h)

theorem repeatCount_some {s : List Char} {count : Nat}
    (h : readWord? (s.takeWhile isDecimalDigit) = some count) :
    repeatCount ('*' :: s) = .ok (some count, s.dropWhile isDecimalDigit) := by
  rw [repeatCount]
  split
  · next empty => rw [empty] at h; contradiction
  · rw [h]

theorem repeatCount_eq_ok {s rest : List Char} {count : Option Nat}
    (h : repeatCount s = .ok (count, rest)) :
    (∃ t n, s = '*' :: t ∧ readWord? (t.takeWhile isDecimalDigit) = some n ∧
        count = some n ∧ rest = t.dropWhile isDecimalDigit) ∨
      s.head? ≠ some '*' ∧ count = none ∧ rest = s := by
  unfold repeatCount at h
  split at h
  · next t =>
    split at h
    · contradiction
    · split at h
      · contradiction
      · next n hn =>
        obtain ⟨rfl, rfl⟩ := Prod.mk.inj (Except.ok.inj h)
        exact .inl ⟨t, n, rfl, hn, rfl, rfl⟩
  · next noStar =>
    obtain ⟨rfl, rfl⟩ := Prod.mk.inj (Except.ok.inj h)
    exact .inr ⟨head?_ne_of_ne_cons noStar, rfl, rfl⟩

theorem repeatCount_takes {s rest : List Char} {count : Option Nat}
    (h : repeatCount s = .ok (count, rest)) : Takes s rest := by
  obtain ⟨t, n, rfl, -, -, rfl⟩ | ⟨-, -, rfl⟩ := repeatCount_eq_ok h
  · exact .next (by decide)
      (.run (by decide +kernel) t)
  · exact .done _

end Abbreviation

end Shorthand
