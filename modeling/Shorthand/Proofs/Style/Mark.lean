import Shorthand.Proofs.Style.Slots
import Shorthand.Proofs.Style.Texts

/-! The mark of importance in a line. A line is a row of slots with arguments in them, and it is
marked by a flag, which puts the mark behind the row, or by the suffix of a color, which stands
for an argument like any other and goes where the next argument goes. So the mark is written once
and last as long as there is one only, and what it comes from is the last argument, with no slot
left behind it. -/
namespace Shorthand.Style

/-- The mark stands in a line once at most, at the end or in front of the final semicolon. -/
structure MarkedOnce (line : List Char) : Prop where
  once : ∀ {front behind front' behind'}, line = front ++ mark.toList ++ behind →
    line = front' ++ mark.toList ++ behind' → front = front'
  last : ∀ {front behind}, line = front ++ mark.toList ++ behind → behind = [] ∨ behind = [';']

section Marks

variable {line front behind final : List Char}

theorem markedOnce_of_quiet (quiet : '!' ∉ line) : MarkedOnce line := by
  have never : ∀ {front behind}, line ≠ front ++ mark.toList ++ behind := by
    rintro front behind rfl
    exact quiet (List.mem_append_left _ (List.mem_append_right _ (by decide)))
  exact ⟨fun here => absurd here never, fun here => absurd here never⟩

/-- What follows the first mark decides. -/
theorem markedOnce_iff (quiet : '!' ∉ front) :
    MarkedOnce (front ++ mark.toList ++ behind) ↔ behind = [] ∨ behind = [';'] := by
  refine ⟨fun marked => marked.last rfl, fun final => ?_⟩
  have letters : '!' ∉ "important".toList ++ behind := by
    obtain rfl | rfl := final <;> decide
  have only : ∀ {front' behind'},
      front ++ mark.toList ++ behind = front' ++ mark.toList ++ behind' →
        front = front' ∧ behind = behind' := by
    intro front' behind' same
    have split (s t : List Char) :
        s ++ mark.toList ++ t = s ++ '!' :: ("important".toList ++ t) :=
      List.append_assoc s ('!' :: "important".toList) t
    rw [split, split, List.append_cons_inj_of_notMem quiet letters] at same
    exact ⟨same.1, List.append_cancel_left same.2.2⟩
  constructor
  · intro _ _ _ _ here there
    exact (only here).1.symm.trans (only there).1
  · intro _ _ here
    exact (only here).2 ▸ final

/-- A flag marks a line once. -/
theorem markedOnce_flag (quiet : ∀ c ∈ front, IsQuiet c) (flagged : Bool)
    (ends : final = [] ∨ final = [';']) :
    MarkedOnce (front ++ (if flagged then ' ' :: mark.toList else []) ++ final) := by
  have free : '!' ∉ front := fun member => (quiet '!' member).1 rfl
  cases flagged with
  | false =>
    refine markedOnce_of_quiet ?_
    obtain rfl | rfl := ends <;> simp [free]
  | true =>
    have whole : front ++ ' ' :: mark.toList ++ final =
        (front ++ [' ']) ++ mark.toList ++ final := by simp
    rw [if_pos rfl, whole, markedOnce_iff (by simp [free])]
    exact ends

/-- Behind a mark there is room for the final semicolon only. -/
theorem ends_iff {others : List (List Char)} {flagged : Bool} (ends : final = [] ∨ final = [';']) :
    (others.flatMap (' ' :: ·) ++ (if flagged then ' ' :: mark.toList else []) ++ final = [] ∨
      others.flatMap (' ' :: ·) ++ (if flagged then ' ' :: mark.toList else []) ++ final = [';']) ↔
    others = [] ∧ flagged = false := by
  cases others with
  | cons other rest => simp
  | nil =>
    cases flagged with
    | true => simp
    | false => simpa using ends

end Marks

section Arguments

variable {preferences : StylePreferences} {args : List Argument}

theorem texts_of_unmarked (quiet : ∀ arg ∈ args, HasQuietText preferences arg)
    (unmarked : ∀ arg ∈ args, arg.isMarked = false) (unitless : Bool) :
    (∀ text ∈ args.flatMap (Argument.texts preferences unitless), ∀ c ∈ text.toList, IsQuiet c) ∧
      (args.flatMap (Argument.texts preferences unitless)).length = args.length := by
  induction args with
  | nil => exact ⟨List.forall_mem_nil _, rfl⟩
  | cons arg rest ih =>
    obtain ⟨here, there⟩ := List.forall_mem_cons.mp quiet
    obtain ⟨plain, unmarked⟩ := List.forall_mem_cons.mp unmarked
    obtain ⟨text, clean, texts⟩ := here unitless
    obtain ⟨cleanRest, length⟩ := ih there unmarked
    rw [plain, if_neg Bool.false_ne_true] at texts
    rw [List.flatMap_cons, texts, List.singleton_append, List.length_cons, length, List.length_cons]
    exact ⟨List.forall_mem_cons.mpr ⟨clean, cleanRest⟩, rfl⟩

/-- The mark of the first argument that has one stands behind its text and those before. -/
theorem texts_of_marked {arg : Argument} {before behind : List Argument}
    (quiet : ∀ other ∈ before ++ arg :: behind, HasQuietText preferences other)
    (unmarked : ∀ other ∈ before, other.isMarked = false) (marked : arg.isMarked)
    (unitless : Bool) :
    ∃ texts : List String, texts.length = before.length + 1 ∧
      (∀ text ∈ texts, ∀ c ∈ text.toList, IsQuiet c) ∧
      (before ++ arg :: behind).flatMap (Argument.texts preferences unitless) =
        texts ++ mark :: behind.flatMap (Argument.texts preferences unitless) := by
  obtain ⟨quietBefore, quietRest⟩ := List.forall_mem_append.mp quiet
  obtain ⟨text, clean, texts⟩ := (List.forall_mem_cons.mp quietRest).1 unitless
  obtain ⟨cleanBefore, length⟩ := texts_of_unmarked quietBefore unmarked unitless
  rw [if_pos marked] at texts
  refine ⟨before.flatMap (Argument.texts preferences unitless) ++ [text], ?_, ?_, ?_⟩
  · rw [List.length_append, length]
    rfl
  · exact List.forall_mem_append.mpr ⟨cleanBefore, List.forall_mem_singleton.mpr clean⟩
  · rw [List.flatMap_append, List.flatMap_cons, texts, List.append_assoc]
    rfl

theorem texts_eq_nil_iff (quiet : ∀ arg ∈ args, HasQuietText preferences arg) (unitless : Bool) :
    args.flatMap (Argument.texts preferences unitless) = [] ↔ args = [] := by
  refine ⟨fun none => List.eq_nil_iff_forall_not_mem.mpr fun arg member => ?_, ?_⟩
  · obtain ⟨text, -, texts⟩ := quiet arg member unitless
    have empty := List.flatMap_eq_nil_iff.mp none arg member
    rw [texts] at empty
    contradiction
  · rintro rfl
    rfl

/-- No argument breaks a line, marked or not. -/
theorem single_texts (quiet : ∀ arg ∈ args, HasQuietText preferences arg) (unitless : Bool) :
    ∀ text ∈ args.flatMap (Argument.texts preferences unitless), ∀ c ∈ text.toList, c ≠ '\n' := by
  intro text member
  obtain ⟨arg, here, member⟩ := List.mem_flatMap.mp member
  obtain ⟨plain, clean, texts⟩ := quiet arg here unitless
  rw [texts] at member
  obtain rfl | marked := List.mem_cons.mp member
  · exact fun c inside => (clean c inside).2
  · have same : text = mark := by
      split at marked
      · exact List.mem_singleton.mp marked
      · contradiction
    rw [same]
    exact forall_mem_of_all (by decide)

end Arguments

/-- A row in which all slots but the first two have a blank in front; a row of slots is followed
by a semicolon. -/
structure IsRow (slots : List Slot) (body : List Char) : Prop where
  spaced : ∀ slot ∈ slots.drop 2, slot.gap = [' ']
  quiet : ∀ slot ∈ slots, ∀ c ∈ slot.gap ++ slot.fallback, IsQuiet c
  quietBody : ∀ c ∈ body, IsQuiet c
  closed : slots ≠ [] → body = []

/-- No argument is marked, or none is shown, or the last argument alone is marked, it takes the
last slot, and there is no flag besides. -/
def MarksOnce (slots : Nat) (flagged : Bool) (args : List Argument) : Prop :=
  (∀ arg ∈ args, arg.isMarked = false) ∨ slots = 0 ∨
    ((∀ arg ∈ args.dropLast, arg.isMarked = false) ∧ flagged = false ∧ slots ≤ args.length + 1)

section Line

variable {preferences : StylePreferences} {args : List Argument} {slots : List Slot}
  {body lead final : List Char} {flagged : Bool}

/-- What is written of a row, its arguments, and the flag. -/
def rowText (slots : List Slot) (body : List Char) (texts : List String) (flagged : Bool)
    (final : List Char) : List Char :=
  Slot.fill slots texts ++ body ++ (if flagged then ' ' :: mark.toList else []) ++ final

theorem single_row (row : IsRow slots body) (ends : final = [] ∨ final = [';'])
    {texts : List String} (single : ∀ text ∈ texts, ∀ c ∈ text.toList, c ≠ '\n') :
    ∀ c ∈ rowText slots body texts flagged final, c ≠ '\n' := by
  have filled := forall_mem_fill (by decide) (fun slot here c member =>
    (row.quiet slot here c member).2) single
  have flag : ∀ c ∈ (if flagged then ' ' :: mark.toList else []), c ≠ '\n' := by
    cases flagged with
    | false => exact List.forall_mem_nil _
    | true => exact forall_mem_of_all (by decide)
  have last : ∀ c ∈ final, c ≠ '\n' := by
    obtain rfl | rfl := ends
    · exact List.forall_mem_nil _
    · exact List.forall_mem_singleton.mpr (by decide)
  simp only [rowText, List.forall_mem_append]
  exact ⟨⟨⟨filled, fun c member => (row.quietBody c member).2⟩, flag⟩, last⟩

theorem markedOnce_row_of_quiet (row : IsRow slots body) (quietLead : ∀ c ∈ lead, IsQuiet c)
    (ends : final = [] ∨ final = [';']) {texts : List String}
    (quiet : ∀ c ∈ Slot.fill slots texts, IsQuiet c) :
    MarkedOnce (lead ++ rowText slots body texts flagged final) := by
  have front : ∀ c ∈ lead ++ (Slot.fill slots texts ++ body), IsQuiet c := by
    simp only [List.forall_mem_append]
    exact ⟨quietLead, quiet, row.quietBody⟩
  have marked := markedOnce_flag front flagged ends
  simpa only [rowText, List.append_assoc] using marked

/-- A mark that goes into a slot is written last if nothing goes into a slot behind it, no slot
is left, and there is no flag. -/
theorem markedOnce_row_iff_of_mark (row : IsRow slots body) (some : slots ≠ [])
    (quietLead : ∀ c ∈ lead, IsQuiet c) (ends : final = [] ∨ final = [';']) {before : List String}
    (quiet : ∀ text ∈ before, ∀ c ∈ text.toList, IsQuiet c) (second : 1 ≤ before.length)
    (behind : List String) :
    MarkedOnce
        (lead ++ rowText slots body (before ++ mark :: behind) flagged final) ↔
      behind = [] ∧ flagged = false ∧ slots.length ≤ before.length + 1 := by
  have spaced : ∀ slot ∈ slots.drop (before.length + 1), slot.gap = [' '] := by
    have later : before.length + 1 = 2 + (before.length - 1) := by omega
    rw [later, ← List.drop_drop]
    exact fun slot member => row.spaced slot (List.mem_of_mem_drop member)
  obtain ⟨front, clean, filled⟩ :=
    fill_behind (by decide : IsQuiet ' ') some row.quiet quiet spaced mark behind
  have free : '!' ∉ lead ++ front := fun member =>
    ((List.forall_mem_append.mpr ⟨quietLead, clean⟩) '!' member).1 rfl
  have whole : lead ++ rowText slots body (before ++ mark :: behind) flagged final =
      (lead ++ front) ++ mark.toList ++ ((behind.map String.toList ++
        (slots.drop (before ++ mark :: behind).length).map Slot.fallback).flatMap
          (' ' :: ·) ++ (if flagged then ' ' :: mark.toList else []) ++ final) := by
    rw [rowText, filled, row.closed some]
    simp only [List.append_assoc, List.nil_append]
  rw [whole, markedOnce_iff free, ends_iff ends, List.append_eq_nil_iff, List.map_eq_nil_iff,
    List.map_eq_nil_iff, List.drop_eq_nil_iff]
  constructor
  · rintro ⟨⟨rfl, none⟩, unflagged⟩
    exact ⟨rfl, unflagged, by simpa using none⟩
  · rintro ⟨rfl, unflagged, none⟩
    exact ⟨⟨rfl, by simpa using none⟩, unflagged⟩

theorem markedOnce_row_iff (row : IsRow slots body) (quietLead : ∀ c ∈ lead, IsQuiet c)
    (ends : final = [] ∨ final = [';'])
    (quiet : ∀ arg ∈ args, HasQuietText preferences arg) (unitless : Bool) :
    MarkedOnce (lead ++
        rowText slots body (args.flatMap (Argument.texts preferences unitless)) flagged final) ↔
      MarksOnce slots.length flagged args := by
  cases first : args.find? Argument.isMarked with
  | none =>
    have unmarked : ∀ arg ∈ args, arg.isMarked = false := by
      simpa using List.find?_eq_none.mp first
    have clean := (texts_of_unmarked quiet unmarked unitless).1
    have filled := forall_mem_fill (by decide) row.quiet clean
    exact iff_of_true (markedOnce_row_of_quiet row quietLead ends filled) (.inl unmarked)
  | some arg =>
    obtain ⟨marked, before, behind, rfl, others⟩ := List.find?_eq_some_iff_append.mp first
    have unmarked : ∀ other ∈ before, other.isMarked = false := by simpa using others
    by_cases none : slots = []
    · subst none
      exact iff_of_true (markedOnce_row_of_quiet row quietLead ends (List.forall_mem_nil _))
        (.inr (.inl rfl))
    obtain ⟨texts, length, clean, split⟩ := texts_of_marked quiet unmarked marked unitless
    have quietBehind : ∀ other ∈ behind, HasQuietText preferences other := fun other member =>
      quiet other (List.mem_append_right _ (List.mem_cons_of_mem _ member))
    rw [split, markedOnce_row_iff_of_mark row none quietLead ends clean (by omega),
      texts_eq_nil_iff quietBehind, length]
    constructor
    · rintro ⟨rfl, unflagged, enough⟩
      refine .inr (.inr ⟨?_, unflagged, ?_⟩)
      · rwa [List.dropLast_concat]
      · simpa using enough
    · rintro (all | empty | ⟨front, unflagged, enough⟩)
      · rw [all arg (by simp)] at marked
        contradiction
      · exact absurd (List.length_eq_zero_iff.mp empty) none
      · cases behind with
        | nil => exact ⟨rfl, unflagged, by simpa using enough⟩
        | cons next rest =>
          rw [front arg (by simp)] at marked
          contradiction

end Line

end Shorthand.Style
