import Mathlib.Data.List.Forall2
import Shorthand.Proofs.Text.Lines
import Shorthand.Text.Blank

/-! Texts moved sideways. Indenting a text changes how many blanks begin its lines and
nothing else. Where two texts differ in no more than that, so do the texts that are put
together from them in the same way, and those that come of indenting them. -/
namespace Shorthand

/-- Blanks that may begin a line. -/
def IsMargin (s : List Char) : Prop := ∀ c ∈ s, isBlank c ∧ c ≠ '\n'

theorem isMargin_nil : IsMargin [] := List.forall_mem_nil _

theorem IsMargin.append {first last : List Char} (before : IsMargin first)
    (after : IsMargin last) : IsMargin (first ++ last) :=
  List.forall_mem_append.mpr ⟨before, after⟩

theorem isMargin_lines {margin s : List Char} (blank : IsMargin margin) :
    (margin ++ s).splitOn '\n' = (s.splitOn '\n').modifyHead (margin ++ ·) := by
  induction margin with
  | nil =>
    rw [List.nil_append]
    cases s.splitOn '\n' <;> rfl
  | cons c margin ih =>
    obtain ⟨⟨-, within⟩, blank⟩ := List.forall_mem_cons.mp blank
    rw [List.cons_append, List.splitOn_cons_eq_if_modifyHead, if_neg (by simpa using within),
      ih blank, List.modifyHead_modifyHead]
    rfl

theorem trimStart_margin {margin : List Char} (blank : IsMargin margin) (s : List Char) :
    trimStart (margin ++ s) = trimStart s :=
  List.dropWhile_append_of_pos fun c member => (blank c member).1

/-- The texts are the same but for the blanks behind line breaks. -/
inductive Shift : List Char → List Char → Prop where
  | nil : Shift [] []
  | cons (c : Char) {s t : List Char} : Shift s t → Shift (c :: s) (c :: t)
  | margin {margin margin' s t : List Char} : IsMargin margin → IsMargin margin' → Shift s t →
      Shift ('\n' :: (margin ++ s)) ('\n' :: (margin' ++ t))

namespace Shift

variable {s t s' t' unit unit' : List Char}

theorem refl (s : List Char) : Shift s s := by
  induction s with
  | nil => exact .nil
  | cons c s ih => exact .cons c ih

theorem append (first : Shift s t) (last : Shift s' t') : Shift (s ++ s') (t ++ t') := by
  induction first with
  | nil => exact last
  | cons c _ ih => exact .cons c ih
  | margin blank blank' _ ih =>
    rw [List.cons_append, List.cons_append, List.append_assoc, List.append_assoc]
    exact .margin blank blank' ih

theorem eq_nil_iff (shift : Shift s t) : s = [] ↔ t = [] := by
  cases shift <;> simp

theorem mem_newline_iff (shift : Shift s t) : '\n' ∈ s ↔ '\n' ∈ t := by
  induction shift with
  | nil => exact Iff.rfl
  | cons c _ ih => rw [List.mem_cons, List.mem_cons, ih]
  | margin _ _ _ ih => exact iff_of_true List.mem_cons_self List.mem_cons_self

/-- The first lines are the same, and of each further line what follows its blanks. -/
theorem lines (shift : Shift s t) :
    ∃ first rest rest', s.splitOn '\n' = first :: rest ∧ t.splitOn '\n' = first :: rest' ∧
      rest.map trimStart = rest'.map trimStart := by
  induction shift with
  | nil => exact ⟨[], [], [], rfl, rfl, rfl⟩
  | cons c _ ih =>
    obtain ⟨first, rest, rest', eq, eq', same⟩ := ih
    rw [List.splitOn_cons_eq_if_modifyHead, List.splitOn_cons_eq_if_modifyHead, eq, eq']
    by_cases newline : c = '\n'
    · rw [if_pos (by simpa using newline), if_pos (by simpa using newline)]
      exact ⟨[], _, _, rfl, rfl, congrArg (trimStart first :: ·) same⟩
    · rw [if_neg (by simpa using newline), if_neg (by simpa using newline)]
      exact ⟨c :: first, rest, rest', rfl, rfl, same⟩
  | @margin margin margin' _ _ blank blank' _ ih =>
    obtain ⟨first, rest, rest', eq, eq', same⟩ := ih
    rw [List.splitOn_cons_eq_if_modifyHead, List.splitOn_cons_eq_if_modifyHead, if_pos (beq_self_eq_true _),
      if_pos (beq_self_eq_true _), isMargin_lines blank, isMargin_lines blank', eq, eq']
    refine ⟨[], (margin ++ first) :: rest, (margin' ++ first) :: rest', rfl, rfl, ?_⟩
    rw [List.map_cons, List.map_cons, trimStart_margin blank, trimStart_margin blank', same]

/-- A text with something put behind its line breaks. -/
theorem replace (shift : Shift s t) (blank : IsMargin unit) (blank' : IsMargin unit') :
    Shift (s.flatMap fun c => if c = '\n' then '\n' :: unit else [c])
      (t.flatMap fun c => if c = '\n' then '\n' :: unit' else [c]) := by
  have kept : ∀ {margin unit : List Char}, IsMargin margin →
      margin.flatMap (fun c => if c = '\n' then '\n' :: unit else [c]) = margin := by
    intro margin unit blank
    induction margin with
    | nil => rfl
    | cons c margin ih =>
      obtain ⟨⟨-, within⟩, blank⟩ := List.forall_mem_cons.mp blank
      rw [List.flatMap_cons, if_neg within, ih blank, List.singleton_append]
  induction shift with
  | nil => exact .nil
  | cons c _ ih =>
    rw [List.flatMap_cons, List.flatMap_cons]
    split
    · exact .margin blank blank' ih
    · exact .cons c ih
  | margin inner inner' _ ih =>
    rw [List.flatMap_cons, List.flatMap_cons, if_pos rfl, if_pos rfl, List.flatMap_append,
      List.flatMap_append, kept inner, kept inner', List.cons_append, List.cons_append,
      ← List.append_assoc, ← List.append_assoc]
    exact .margin (blank.append inner) (blank'.append inner') ih

end Shift

/-- The texts have the same lines but for the blanks that begin the further ones. -/
def Shifted (text text' : String) : Prop := Shift text.toList text'.toList

namespace Shifted

variable {text text' first first' unit unit' : String} {parts parts' : List String}

theorem refl (text : String) : Shifted text text := Shift.refl _

theorem append (before : Shifted first first') (after : Shifted text text') :
    Shifted (first ++ text) (first' ++ text') := by
  rw [Shifted, String.toList_append, String.toList_append]
  exact Shift.append before after

theorem isEmpty_eq (shifted : Shifted text text') : text.isEmpty = text'.isEmpty := by
  rw [Bool.eq_iff_iff, String.isEmpty_iff, String.isEmpty_iff, ← String.toList_eq_nil_iff,
    ← String.toList_eq_nil_iff]
  exact shifted.eq_nil_iff

theorem isMultiline_eq (shifted : Shifted text text') : isMultiline text = isMultiline text' := by
  rw [Bool.eq_iff_iff, isMultiline, isMultiline, List.contains_iff_mem, List.contains_iff_mem]
  exact shifted.mem_newline_iff

/-- The content of a snippet, each further line behind the margin. -/
theorem replaceChar (shifted : Shifted text text') (blank : IsMargin unit.toList)
    (blank' : IsMargin unit'.toList) :
    Shifted (Shorthand.replaceChar '\n' ("\n" ++ unit) text)
      (Shorthand.replaceChar '\n' ("\n" ++ unit') text') := by
  have shift := Shift.replace shifted blank blank'
  simpa [Shifted, Shorthand.replaceChar] using shift

theorem indent (shifted : Shifted text text') (blank : IsMargin unit.toList)
    (blank' : IsMargin unit'.toList) :
    Shifted (Shorthand.indent unit text) (Shorthand.indent unit' text') := by
  have lead : Shifted ("\n" ++ unit) ("\n" ++ unit') := by
    have shift := Shift.margin blank blank' .nil
    simpa [Shifted] using shift
  exact lead.append (shifted.replaceChar blank blank')

theorem join (each : List.Forall₂ Shifted parts parts') :
    Shifted (String.join parts) (String.join parts') := by
  induction each with
  | nil => exact .refl _
  | cons shifted _ ih =>
    rw [String.join_cons, String.join_cons]
    exact shifted.append ih

theorem breaks (each : List.Forall₂ Shifted parts parts') :
    Shifted (Shorthand.breaks parts) (Shorthand.breaks parts') :=
  .join (List.forall₂_map_left_iff.mpr (List.forall₂_map_right_iff.mpr
    (each.imp fun _ _ shifted => (refl "\n").append shifted)))

theorem joinLines (each : List.Forall₂ Shifted parts parts') :
    Shifted (Shorthand.joinLines parts) (Shorthand.joinLines parts') := by
  have shown : List.Forall₂ Shifted (parts.filter fun part => !part.isEmpty)
      (parts'.filter fun part => !part.isEmpty) := by
    induction each with
    | nil => exact .nil
    | cons shifted _ ih =>
      rw [List.filter_cons, List.filter_cons, shifted.isEmpty_eq]
      split
      · exact .cons shifted ih
      · exact ih
  unfold Shorthand.joinLines
  generalize parts.filter (fun part => !part.isEmpty) = shownParts at shown ⊢
  generalize parts'.filter (fun part => !part.isEmpty) = shownParts' at shown ⊢
  cases shown with
  | nil => exact .refl _
  | cons shifted rest =>
    rw [intercalate_cons, intercalate_cons]
    exact shifted.append (breaks rest)

theorem lines (shifted : Shifted text text') :
    (linesOf text).length = (linesOf text').length ∧
      (linesOf text).head? = (linesOf text').head? ∧
      (linesOf text).tail.map (trimStart ·.toList) =
        (linesOf text').tail.map (trimStart ·.toList) := by
  obtain ⟨first, rest, rest', eq, eq', same⟩ := Shift.lines shifted
  have count := congrArg List.length same
  rw [linesOf, linesOf, eq, eq']
  refine ⟨by simpa using count, rfl, ?_⟩
  simpa [Function.comp_def] using same

end Shifted

end Shorthand
