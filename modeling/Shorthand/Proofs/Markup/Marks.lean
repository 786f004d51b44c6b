import Shorthand.Options
import Shorthand.Text.Blank
import Shorthand.Text.Lines
import Mathlib.Data.List.Induction

/-! Reading markup. A reader goes through a text from left to right and gives the marks
that stand in it: start tags, end tags, empty tags and comments. A mark goes from `<` to
the next `>` that is not in quotes; a `>` in running text, or a `<` in a mark outside its
quotes, is no markup. Indentation, which puts blanks after line breaks, changes no mark. -/
namespace Shorthand.Markup

inductive Mark where
  | opens (name : String)
  | closes (name : String)
  | empty (name : String)
  | comment
deriving DecidableEq

def isNamePart (c : Char) : Bool := !isBlank c && c != '/'

/-- The name that a tag begins with. -/
def markName (s : List Char) : String := String.ofList (s.takeWhile isNamePart)

/-- What stands between `<` and `>` decides what the mark is. -/
def markOf (inner : List Char) : Mark :=
  if ['/'] <+: inner then .closes (markName inner.tail)
  else if ['!', '-', '-', ' '] <+: inner ∧ ['-', '-'] <:+ inner then .comment
  else if ['/'] <:+ inner then .empty (markName inner)
  else .opens (markName inner)

/-- Where the reader stands. -/
inductive Spot where
  | text
  /-- After `<` and `inner`. -/
  | mark (inner : List Char) (quoted : Bool)

def readMarks : Spot → List Char → Option (List Mark)
  | .text, [] => some []
  | .mark _ _, [] => none
  | .text, c :: s =>
    if c = '<' then readMarks (.mark [] false) s
    else if c = '>' then none
    else readMarks .text s
  | .mark inner quoted, c :: s =>
    if c = '>' ∧ quoted = false then (readMarks .text s).map (markOf inner :: ·)
    else if c = '<' ∧ quoted = false then none
    else readMarks (.mark (inner ++ [c]) (quoted ^^ c == '"')) s

/-- The marks of a text. -/
def marks (text : String) : Option (List Mark) := readMarks .text text.toList

/-- A character without a meaning in markup. -/
def isPlain (c : Char) : Bool := c != '<' && c != '>' && c != '"'

section Reading

variable {s : List Char}

/-- What is read first does not depend on what follows. -/
theorem readMarks_append {spot : Spot} {found : List Mark} (h : readMarks spot s = some found)
    (t : List Char) : readMarks spot (s ++ t) = (readMarks .text t).map (found ++ ·) := by
  induction s generalizing spot found with
  | nil =>
    cases spot with
    | text =>
      obtain rfl := Option.some.inj h
      simp
    | mark inner quoted => contradiction
  | cons c s ih =>
    cases spot with
    | text =>
      simp only [List.cons_append, readMarks] at h ⊢
      split at h
      · next opening => rw [if_pos opening]; exact ih h
      · next plain =>
        split at h
        · contradiction
        · next other => rw [if_neg plain, if_neg other]; exact ih h
    | mark inner quoted =>
      simp only [List.cons_append, readMarks] at h ⊢
      split at h
      · next closing =>
        obtain ⟨rest, read, rfl⟩ := Option.map_eq_some_iff.mp h
        rw [if_pos closing, ih read, Option.map_map]
        rfl
      · next other =>
        split at h
        · contradiction
        · next inside => rw [if_neg other, if_neg inside]; exact ih h

theorem readMarks_text (plain : s.all isPlain) : readMarks .text s = some [] := by
  induction s with
  | nil => rfl
  | cons c s ih =>
    simp only [List.all_cons, isPlain, Bool.and_eq_true, bne_iff_ne, ne_eq] at plain
    rw [readMarks, if_neg plain.1.1.1, if_neg plain.1.1.2]
    exact ih plain.2

theorem readMarks_close (inner t : List Char) :
    readMarks (.mark inner false) ('>' :: t) = (readMarks .text t).map (markOf inner :: ·) :=
  if_pos ⟨rfl, rfl⟩

theorem readMarks_quote (inner : List Char) (quoted : Bool) (t : List Char) :
    readMarks (.mark inner quoted) ('"' :: t) = readMarks (.mark (inner ++ ['"']) !quoted) t := by
  simp [readMarks]

theorem readMarks_plain (plain : s.all isPlain) (inner : List Char) (quoted : Bool)
    (t : List Char) :
    readMarks (.mark inner quoted) (s ++ t) = readMarks (.mark (inner ++ s) quoted) t := by
  induction s generalizing inner with
  | nil => simp
  | cons c s ih =>
    simp only [List.all_cons, isPlain, Bool.and_eq_true, bne_iff_ne, ne_eq] at plain
    obtain ⟨⟨⟨notOpening, notClosing⟩, notQuote⟩, plain⟩ := plain
    rw [List.cons_append, readMarks, if_neg fun h => notClosing h.1, if_neg fun h => notOpening h.1,
      beq_false_of_ne notQuote, Bool.xor_false, ih plain, List.append_assoc, List.singleton_append]

/-- Text that leaves a reader in the mark in which it finds him. -/
def StaysInMark (s : List Char) : Prop :=
  ∀ inner t, readMarks (.mark inner false) (s ++ t) = readMarks (.mark (inner ++ s) false) t

theorem StaysInMark.append {t : List Char} (first : StaysInMark s) (last : StaysInMark t) :
    StaysInMark (s ++ t) := by
  intro inner u
  rw [List.append_assoc, first, last, List.append_assoc]

theorem staysInMark_of_plain (plain : s.all isPlain) : StaysInMark s :=
  fun inner => readMarks_plain plain inner false

theorem staysInMark_quoted (plain : s.all isPlain) : StaysInMark ('"' :: s ++ ['"']) := by
  intro inner t
  rw [List.append_assoc, List.cons_append, readMarks_quote, readMarks_plain plain,
    List.singleton_append, readMarks_quote]
  simp

/-- A whole mark. -/
theorem readMarks_mark (stays : StaysInMark s) (t : List Char) :
    readMarks .text ('<' :: s ++ '>' :: t) = (readMarks .text t).map (markOf s :: ·) := by
  rw [List.cons_append, readMarks, if_pos rfl, stays, List.nil_append, readMarks_close]

end Reading

/-- The text with every line after the first moved to the right. -/
def expand (margin s : List Char) : List Char :=
  s.flatMap fun c => if c = '\n' then '\n' :: margin else [c]

section Expand

variable {margin : List Char}

theorem expand_append (s t : List Char) :
    expand margin (s ++ t) = expand margin s ++ expand margin t :=
  List.flatMap_append

theorem expand_break (s : List Char) :
    expand margin ('\n' :: s) = '\n' :: margin ++ expand margin s := by
  simp [expand]

theorem expand_cons {c : Char} (h : c ≠ '\n') (s : List Char) :
    expand margin (c :: s) = c :: expand margin s := by
  simp [expand, h]

theorem expand_nil_left (s : List Char) : expand [] s = s := by
  have each : (fun c : Char => if c = '\n' then ['\n'] else [c]) = fun c => [c] :=
    funext fun c => by split <;> simp_all
  rw [expand, each, List.flatMap_singleton']

theorem expand_eq_self {s : List Char} (single : '\n' ∉ s) : expand margin s = s := by
  induction s with
  | nil => rfl
  | cons c s ih =>
    obtain ⟨within, single⟩ := List.ne_and_not_mem_of_not_mem_cons single
    rw [expand_cons (Ne.symm within), ih single]

theorem expand_expand (outer : List Char) (single : '\n' ∉ margin) (s : List Char) :
    expand outer (expand margin s) = expand (outer ++ margin) s := by
  induction s with
  | nil => rfl
  | cons c s ih =>
    by_cases same : c = '\n'
    · subst same
      rw [expand_break, expand_break, List.cons_append, expand_break, expand_append,
        expand_eq_self single, ih]
      simp
    · rw [expand_cons same, expand_cons same, expand_cons same, ih]

theorem expand_eq_self_iff (s : List Char) : expand margin s = s ↔ margin = [] ∨ '\n' ∉ s := by
  have count : (expand margin s).length = s.length + s.count '\n' * margin.length := by
    induction s with
    | nil => simp [expand]
    | cons c s ih =>
      by_cases same : c = '\n'
      · subst same
        rw [expand_break, List.length_append, ih, List.count_cons_self, List.length_cons,
          List.length_cons, Nat.add_one_mul]
        omega
      · rw [expand_cons same, List.length_cons, ih, List.count_cons_of_ne same, List.length_cons]
        omega
  refine ⟨fun same => ?_, ?_⟩
  · rw [same, Nat.left_eq_add, Nat.mul_eq_zero, List.count_eq_zero, List.length_eq_zero_iff] at count
    exact count.symm
  · rintro (rfl | single)
    · exact expand_nil_left s
    · exact expand_eq_self single

theorem toList_replaceChar (margin text : String) :
    (replaceChar '\n' ("\n" ++ margin) text).toList = expand margin.toList text.toList := by
  simp [replaceChar, expand]

theorem toList_indent (unit text : String) :
    (indent unit text).toList = expand unit.toList ('\n' :: text.toList) := by
  simp [indent, toList_replaceChar, expand_break]

theorem eq_blank_of_mem_unit (options : RenderOptions) : ∀ c ∈ options.unit.toList, c = ' ' := by
  intro c member
  rw [RenderOptions.unit, String.toList_ofList] at member
  exact List.eq_of_mem_replicate member

theorem prefix_expand {w : List Char} (free : '\n' ∉ w) (s : List Char) :
    w <+: expand margin s ↔ w <+: s := by
  induction w generalizing s with
  | nil => simp
  | cons d w ih =>
    have notBreak := List.ne_of_not_mem_cons free
    have free := List.not_mem_of_not_mem_cons free
    cases s with
    | nil => rfl
    | cons c s =>
      by_cases same : c = '\n'
      · subst same
        rw [expand_break, List.cons_append, List.cons_prefix_cons, List.cons_prefix_cons]
        exact ⟨fun h => (notBreak h.1.symm).elim, fun h => (notBreak h.1.symm).elim⟩
      · rw [expand_cons same, List.cons_prefix_cons, List.cons_prefix_cons, ih free]

theorem snoc_suffix_snoc {w s : List Char} {c d : Char} :
    w ++ [d] <:+ s ++ [c] ↔ w <:+ s ∧ d = c := by
  have same : [d].length = [c].length := rfl
  rw [List.suffix_append_inj_of_length_eq same, List.singleton_inj]

theorem suffix_expand {w : List Char} (free : ∀ c ∈ '\n' :: margin, c ∉ w) (s : List Char) :
    w <:+ expand margin s ↔ w <:+ s := by
  induction w using List.reverseRecOn generalizing s with
  | nil => simp
  | append_singleton w d ih =>
    have ih := ih fun c member inside => free c member (List.mem_append_left _ inside)
    obtain rfl | ⟨s, c, rfl⟩ := s.eq_nil_or_concat
    · rfl
    rw [List.concat_eq_append, expand_append]
    by_cases same : c = '\n'
    · -- Every character that comes in here is foreign to `w`, so neither text ends in `d`.
      subst same
      obtain ⟨last, c, block⟩ := (List.eq_nil_or_concat ('\n' :: margin)).resolve_left (by simp)
      have foreign : d ≠ c := by
        rintro rfl
        exact free d (block ▸ by simp) (by simp)
      have breaks : expand margin ['\n'] = last ++ [c] := by simpa [expand] using block
      rw [breaks, ← List.append_assoc, snoc_suffix_snoc, snoc_suffix_snoc]
      have notBreak : d ≠ '\n' := by
        rintro rfl
        exact free _ List.mem_cons_self (by simp)
      simp [foreign, notBreak]
    · have kept : expand margin [c] = [c] := expand_cons same []
      rw [kept, snoc_suffix_snoc, snoc_suffix_snoc, ih]

theorem markName_expand (s : List Char) : markName (expand margin s) = markName s := by
  refine congrArg String.ofList ?_
  induction s with
  | nil => rfl
  | cons c s ih =>
    by_cases same : c = '\n'
    · subst same
      rw [expand_break]
      rfl
    · rw [expand_cons same, List.takeWhile_cons, List.takeWhile_cons, ih]

theorem markOf_expand (blanks : ∀ c ∈ margin, c = ' ') (s : List Char) :
    markOf (expand margin s) = markOf s := by
  have foreign : ∀ w : List Char, '\n' ∉ w → ' ' ∉ w → ∀ c ∈ '\n' :: margin, c ∉ w := by
    intro w noBreak noBlank c member
    rcases List.mem_cons.mp member with rfl | member
    · exact noBreak
    · exact blanks c member ▸ noBlank
  by_cases closing : ['/'] <+: s
  · obtain ⟨name, rfl⟩ := closing
    rw [List.singleton_append, expand_cons (by decide)]
    simp [markOf, markName_expand]
  · have kind := @prefix_expand margin ['!', '-', '-', ' '] (by decide) s
    have last := suffix_expand (foreign ['-', '-'] (by decide) (by decide)) s
    have slash := suffix_expand (foreign ['/'] (by decide) (by decide)) s
    simp only [markOf, prefix_expand (w := ['/']) (by decide), kind, last, slash, markName_expand,
      if_neg closing]

/-- Where the reader stands when the text before it is moved. -/
def Spot.expand (margin : List Char) : Spot → Spot
  | .text => .text
  | .mark inner quoted => .mark (Markup.expand margin inner) quoted

theorem readMarks_expand (blanks : ∀ c ∈ margin, c = ' ') (spot : Spot) (s : List Char) :
    readMarks (spot.expand margin) (expand margin s) = readMarks spot s := by
  have plain : ('\n' :: margin).all isPlain := by
    simp only [List.all_cons, Bool.and_eq_true, List.all_eq_true]
    exact ⟨rfl, fun c member => blanks c member ▸ rfl⟩
  induction s generalizing spot with
  | nil => cases spot <;> rfl
  | cons c s ih =>
    cases spot with
    | text =>
      by_cases same : c = '\n'
      · subst same
        rw [expand_break, Spot.expand, readMarks_append (readMarks_text plain)]
        exact (Option.map_id' ..).trans (ih .text)
      · rw [expand_cons same, Spot.expand, readMarks, readMarks]
        split
        · exact ih (.mark [] false)
        · split
          · rfl
          · exact ih .text
    | mark inner quoted =>
      by_cases same : c = '\n'
      · subst same
        have moved : expand margin (inner ++ ['\n']) = expand margin inner ++ '\n' :: margin := by
          rw [expand_append, expand_break]
          simp [expand]
        have step := readMarks_plain (s := ['\n']) (by decide) inner quoted s
        rw [List.singleton_append] at step
        rw [expand_break, Spot.expand, readMarks_plain plain, step, ← moved]
        exact ih (.mark (inner ++ ['\n']) quoted)
      · have moved : expand margin (inner ++ [c]) = expand margin inner ++ [c] := by
          rw [expand_append, expand_cons same]
          rfl
        rw [expand_cons same, Spot.expand, readMarks, readMarks, ← moved, markOf_expand blanks]
        split
        · exact congrArg (Option.map _) (ih .text)
        · split
          · rfl
          · exact ih (.mark (inner ++ [c]) _)

end Expand

end Shorthand.Markup
