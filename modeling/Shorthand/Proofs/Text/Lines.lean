import Mathlib.Data.List.Forall2
import Shorthand.Text.Lines

/-! Texts as lists of lines. Putting texts below one another and indenting them change
line breaks inside texts that are already put together; here both are said of the lines. -/
namespace Shorthand

section Pieces

variable {c : Char} {s piece : List Char}

theorem not_mem_of_mem_splitOn (member : piece ∈ s.splitOn c) : c ∉ piece := by
  induction s generalizing piece with
  | nil => simp_all
  | cons d s ih =>
    rw [List.splitOn_cons_eq_if_modifyHead] at member
    split at member
    · obtain rfl | later := List.mem_cons.mp member
      · exact List.not_mem_nil
      · exact ih later
    · next other =>
      cases split : s.splitOn c with
      | nil => exact absurd split (List.splitOn_ne_nil _ _)
      | cons first pieces =>
        rw [split] at ih member
        obtain rfl | later := List.mem_cons.mp member
        · have clean := ih List.mem_cons_self
          have ne : c ≠ d := fun same => other (beq_iff_eq.mpr same.symm)
          exact List.not_mem_cons_of_ne_of_not_mem ne clean
        · exact ih (List.mem_cons_of_mem _ later)

end Pieces

section Lines

variable {text new unit : String} {c : Char} {lines first last : List String}

/-- The lines of a text. The empty text is one line. -/
def linesOf (text : String) : List String := (text.toList.splitOn '\n').map String.ofList

/-- Lines below what precedes them. -/
def breaks (lines : List String) : String := String.join (lines.map ("\n" ++ ·))

theorem linesOf_ne_nil (text : String) : linesOf text ≠ [] := by
  rw [linesOf, Ne, List.map_eq_nil_iff]
  exact List.splitOn_ne_nil _ _

theorem isMultiline_of_mem_linesOf {line : String} (member : line ∈ linesOf text) :
    isMultiline line = false := by
  obtain ⟨piece, here, rfl⟩ := List.mem_map.mp member
  have clean := not_mem_of_mem_splitOn here
  simpa [isMultiline] using clean

theorem isMultiline_append (first last : String) :
    isMultiline (first ++ last) = (isMultiline first || isMultiline last) := by
  simp [isMultiline]

theorem intercalate_linesOf (text : String) : "\n".intercalate (linesOf text) = text := by
  have pieces : (linesOf text).map String.toList = text.toList.splitOn '\n' := by
    simp [linesOf, Function.comp_def]
  refine String.toList_injective ?_
  rw [String.toList_intercalate, pieces]
  exact List.intercalate_splitOn '\n'

theorem linesOf_intercalate (nonempty : lines ≠ [])
    (single : ∀ line ∈ lines, isMultiline line = false) :
    linesOf ("\n".intercalate lines) = lines := by
  have pieces : ∀ piece ∈ lines.map String.toList, '\n' ∉ piece :=
    List.forall_mem_map.mpr fun line member => by simpa [isMultiline] using single line member
  have split : (['\n'].intercalate (lines.map String.toList)).splitOn '\n' =
      lines.map String.toList := List.splitOn_intercalate '\n' pieces (by simpa using nonempty)
  have whole : ("\n".intercalate lines).toList = ['\n'].intercalate (lines.map String.toList) :=
    String.toList_intercalate
  rw [linesOf, whole, split, List.map_map]
  exact List.map_id'' (fun line => String.ofList_toList) _

theorem breaks_cons (line : String) (rest : List String) :
    breaks (line :: rest) = "\n" ++ line ++ breaks rest := String.join_cons

theorem breaks_append (first last : List String) :
    breaks (first ++ last) = breaks first ++ breaks last := by
  rw [breaks, List.map_append, String.join_append]
  rfl

theorem intercalate_cons (line : String) (rest : List String) :
    "\n".intercalate (line :: rest) = line ++ breaks rest := by
  induction rest generalizing line with
  | nil => rw [String.intercalate_singleton]; exact String.append_empty.symm
  | cons next rest ih =>
    rw [String.intercalate_cons_cons, ih, breaks_cons]
    simp only [String.append_assoc]

theorem intercalate_append (nonempty : first ≠ []) (last : List String) :
    "\n".intercalate (first ++ last) = "\n".intercalate first ++ breaks last := by
  cases first with
  | nil => contradiction
  | cons line rest =>
    rw [List.cons_append, intercalate_cons, intercalate_cons, breaks_append, String.append_assoc]

theorem replaceChar_append (first last : String) :
    replaceChar c new (first ++ last) = replaceChar c new first ++ replaceChar c new last := by
  simp [replaceChar]

theorem replaceChar_eq_self (absent : c ∉ text.toList) : replaceChar c new text = text := by
  have kept (s : List Char) (absent : c ∉ s) :
      s.flatMap (fun d => if d = c then new.toList else [d]) = s := by
    induction s with
    | nil => rfl
    | cons d s ih =>
      obtain ⟨ne, later⟩ := List.ne_and_not_mem_of_not_mem_cons absent
      rw [List.flatMap_cons, if_neg (Ne.symm ne), ih later, List.singleton_append]
  rw [replaceChar, kept _ absent, String.ofList_toList]

theorem replaceChar_newline (new : String) : replaceChar '\n' new "\n" = new := by
  simp [replaceChar]

theorem replaceChar_breaks (single : ∀ line ∈ lines, isMultiline line = false) :
    replaceChar '\n' ("\n" ++ unit) (breaks lines) = breaks (lines.map (unit ++ ·)) := by
  induction lines with
  | nil => rfl
  | cons line rest ih =>
    obtain ⟨alone, others⟩ := List.forall_mem_cons.mp single
    have kept : replaceChar '\n' ("\n" ++ unit) line = line :=
      replaceChar_eq_self (by simpa [isMultiline] using alone)
    rw [List.map_cons, breaks_cons, breaks_cons, replaceChar_append, replaceChar_append,
      replaceChar_newline, kept, ih others]
    simp only [String.append_assoc]

/-- Indented lines are the lines, each behind the unit. -/
theorem indent_intercalate (nonempty : lines ≠ [])
    (single : ∀ line ∈ lines, isMultiline line = false) :
    indent unit ("\n".intercalate lines) = breaks (lines.map (unit ++ ·)) := by
  have below : "\n" ++ "\n".intercalate lines = breaks lines := by
    obtain ⟨line, rest, rfl⟩ := List.exists_cons_of_ne_nil nonempty
    rw [intercalate_cons, breaks_cons, String.append_assoc]
  rw [← replaceChar_breaks single, ← below, replaceChar_append, replaceChar_newline]
  rfl

theorem intercalate_flatten {separator : String} {groups : List (List String)}
    (nonempty : [] ∉ groups) :
    separator.intercalate (groups.map separator.intercalate) =
      separator.intercalate groups.flatten := by
  induction groups with
  | nil => rfl
  | cons group rest ih =>
    obtain ⟨first, later⟩ := List.ne_and_not_mem_of_not_mem_cons nonempty
    rw [List.map_cons, List.flatten_cons]
    cases rest with
    | nil => simp
    | cons next rest =>
      have filled : (next :: rest).flatten ≠ [] := by
        have ne : next ≠ [] := fun empty => later (empty ▸ List.mem_cons_self)
        simp [ne]
      rw [String.intercalate_append_of_ne_nil (Ne.symm first) filled, ← ih later,
        String.intercalate_cons_of_ne_nil (by simp)]

theorem joinLines_eq_empty {parts : List String} :
    joinLines parts = "" ↔ ∀ part ∈ parts, part = "" := by
  have silent : (∀ part ∈ parts, part = "") ↔ parts.filter (fun part => !part.isEmpty) = [] := by
    simp [List.filter_eq_nil_iff]
  rw [silent, joinLines]
  cases shown : parts.filter (fun part => !part.isEmpty) with
  | nil => simp
  | cons first rest =>
    have nonempty : first ≠ "" := by
      have member : first ∈ parts.filter fun part => !part.isEmpty := shown ▸ List.mem_cons_self
      simpa using (List.mem_filter.mp member).2
    rw [intercalate_cons, String.append_eq_empty_iff]
    exact iff_of_false (fun empty => nonempty empty.1) (List.cons_ne_nil _ _)

/-- Texts below one another are all their lines, if no text with lines is empty. -/
theorem joinLines_intercalate {groups : List (List String)}
    (shown : ∀ group ∈ groups, "\n".intercalate group = "" → group = []) :
    joinLines (groups.map "\n".intercalate) = "\n".intercalate groups.flatten := by
  have filled : (groups.map "\n".intercalate).filter (fun part => !part.isEmpty) =
      (groups.filter (!·.isEmpty)).map "\n".intercalate := by
    rw [List.filter_map]
    refine congrArg _ (List.filter_congr fun group member => ?_)
    cases group with
    | nil => rfl
    | cons line rest =>
      have text : "\n".intercalate (line :: rest) ≠ "" := fun empty =>
        List.cons_ne_nil _ _ (shown _ member empty)
      simp [text]
  have nonempty : [] ∉ groups.filter (!·.isEmpty) := by simp
  rw [joinLines, filled, intercalate_flatten nonempty, List.flatten_filter_not_isEmpty]

theorem joinLines_singleton (part : String) : joinLines [part] = part := by
  by_cases empty : part = "" <;> simp [joinLines, empty]

theorem joinLines_append (first last : List String) :
    joinLines (first ++ last) = joinLines [joinLines first, joinLines last] := by
  let shown (parts : List String) : List String := parts.filter fun part => !part.isEmpty
  have silent (parts : List String) (empty : "\n".intercalate (shown parts) = "") :
      shown parts = [] := by
    simpa [shown] using joinLines_eq_empty.mp empty
  have both : ∀ group ∈ [shown first, shown last], "\n".intercalate group = "" → group = [] := by
    simp only [List.forall_mem_cons, List.not_mem_nil]
    exact ⟨silent first, silent last, fun _ none => none.elim⟩
  calc joinLines (first ++ last)
    _ = "\n".intercalate [shown first, shown last].flatten := by simp [joinLines, shown]
    _ = joinLines [joinLines first, joinLines last] := (joinLines_intercalate both).symm

/-- Parts that are joined already may as well be joined with the parts around them. -/
theorem joinLines_joinLines (before parts after : List String) :
    joinLines (before ++ joinLines parts :: after) = joinLines (before ++ parts ++ after) := by
  have joined : joinLines (joinLines parts :: after) = joinLines (parts ++ after) := by
    rw [← List.singleton_append, joinLines_append, joinLines_singleton, ← joinLines_append]
  rw [joinLines_append, joined, ← joinLines_append, List.append_assoc]

end Lines

section Additive

variable {α : Type} {reads : String → List α → Prop} {parts : List String} {found : List (List α)}

/-- What is read off a text is what is read off its parts, one after the other. -/
structure IsAdditive (reads : String → List α → Prop) : Prop where
  empty : reads "" []
  append {first last : String} {seen seen' : List α} :
    reads first seen → reads last seen' → reads (first ++ last) (seen ++ seen')

namespace IsAdditive

theorem join (additive : IsAdditive reads) (each : List.Forall₂ reads parts found) :
    reads (String.join parts) found.flatten := by
  induction each with
  | nil => exact additive.empty
  | cons first _ ih =>
    rw [String.join_cons, List.flatten_cons]
    exact additive.append first ih

theorem intercalate (additive : IsAdditive reads) {separator : String} (silent : reads separator [])
    (each : List.Forall₂ reads parts found) : reads (separator.intercalate parts) found.flatten := by
  induction each with
  | nil => exact additive.empty
  | @cons part seen parts found first rest ih =>
    cases rest with
    | nil =>
      rw [String.intercalate_singleton, List.flatten_cons, List.flatten_nil, List.append_nil]
      exact first
    | cons _ _ =>
      have behind := additive.append silent ih
      rw [String.intercalate_cons_cons, List.flatten_cons, String.append_assoc]
      exact additive.append first behind

/-- It does not matter that parts without characters are left out. -/
theorem joinLines (additive : IsAdditive reads) (silent : reads "\n" [])
    (each : List.Forall₂ reads parts found) : reads (joinLines parts) found.flatten := by
  unfold Shorthand.joinLines
  induction each with
  | nil => exact additive.empty
  | @cons part seen parts found first rest ih =>
    have both := additive.append first ih
    rw [List.flatten_cons, List.filter_cons]
    split
    · by_cases last : parts.filter (fun part => !part.isEmpty) = []
      · rw [last, String.intercalate_nil, String.append_empty] at both
        rwa [last, String.intercalate_singleton]
      · rw [String.intercalate_cons_of_ne_nil last, String.append_assoc]
        exact additive.append first (additive.append silent ih)
    · next empty =>
      obtain rfl : part = "" := by simpa using empty
      rwa [String.empty_append] at both

end IsAdditive

end Additive

end Shorthand
