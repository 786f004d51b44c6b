import Mathlib.Data.List.Forall2
import Shorthand.Markup.Dialect
import Shorthand.Proofs.Markup.Marks
import Shorthand.Proofs.Scanning.Span
import Shorthand.Proofs.Text.Lines

/-! The marks of an element. An element whose names and values hold no character of markup
is written as a start tag, what is inside it, and the end tag, or as one empty tag; the
comments around it in the commented dialect are seen as comments. -/
namespace Shorthand.Markup

/-- The marks that count: the commented dialect is read without its comments. -/
def visible (dialect : Dialect) (found : List Mark) : List Mark :=
  if dialect = .commentedHtml then found.filter (· ≠ .comment) else found

/-- The text reads as the given marks. -/
def Spells (dialect : Dialect) (text : String) (seen : List Mark) : Prop :=
  ∃ found, marks text = some found ∧ visible dialect found = seen

def isPlainText (text : String) : Bool := text.toList.all isPlain

section Spells

variable {dialect : Dialect} {s t : String} {seen seen' : List Mark}

theorem visible_append (first last : List Mark) :
    visible dialect (first ++ last) = visible dialect first ++ visible dialect last := by
  unfold visible
  split
  · exact List.filter_append _ _
  · rfl

theorem spells_of_plain (plain : isPlainText s) : Spells dialect s [] := by
  refine ⟨[], readMarks_text plain, ?_⟩
  unfold visible
  split <;> rfl

theorem Spells.append (first : Spells dialect s seen) (last : Spells dialect t seen') :
    Spells dialect (s ++ t) (seen ++ seen') := by
  obtain ⟨found, read, rfl⟩ := first
  obtain ⟨found', read', rfl⟩ := last
  refine ⟨found ++ found', ?_, visible_append found found'⟩
  rw [marks, String.toList_append, readMarks_append read, ← marks, read', Option.map_some]

theorem Spells.plain_append (plain : isPlainText s) (last : Spells dialect t seen) :
    Spells dialect (s ++ t) seen :=
  (spells_of_plain plain).append last

theorem Spells.append_plain (first : Spells dialect s seen) (plain : isPlainText t) :
    Spells dialect (s ++ t) seen := by
  have last : Spells dialect t [] := spells_of_plain plain
  have both := first.append last
  rwa [List.append_nil] at both

theorem spells_additive : IsAdditive (Spells dialect) := ⟨spells_of_plain rfl, Spells.append⟩

theorem Spells.indent (options : RenderOptions) (h : Spells dialect s seen) :
    Spells dialect (indent options.unit s) seen := by
  obtain ⟨found, read, rfl⟩ := h
  refine ⟨found, ?_, rfl⟩
  rw [marks, toList_indent]
  exact (readMarks_expand (eq_blank_of_mem_unit options) .text _).trans read

end Spells

/-- No name or value of the element holds a character of markup. -/
structure IsSafe (element : Element) (options : RenderOptions) : Prop where
  name_ne : element.name.toList ≠ []
  name_part : ∀ c ∈ element.name.toList, isNamePart c
  name : isPlainText element.name
  id : ∀ id ∈ element.id, isPlainText id
  classes : ∀ name ∈ element.classes, isPlainText name
  classAttribute : isPlainText options.classAttribute
  attributes : ∀ entry ∈ element.attributes, isPlainText entry.1 ∧ isPlainText entry.2
  text : ∀ text ∈ element.text, isPlainText text

section Tags

variable {name rest : List Char}

theorem markName_run (part : ∀ c ∈ name, isNamePart c) (stop : Stops isNamePart rest) :
    markName (name ++ rest) = String.ofList name :=
  congrArg String.ofList (takeWhile_run part stop)

theorem markOf_closes (part : ∀ c ∈ name, isNamePart c) :
    markOf ('/' :: name) = .closes (String.ofList name) := by
  have named := markName_run part stops_nil
  rw [List.append_nil] at named
  simp [markOf, named]

/-- What the attributes of a tag look like: nothing, or a blank first and a quote last. -/
def IsEntries (s : List Char) : Prop := s = [] ∨ ∃ t, s = ' ' :: t ++ ['"']

theorem first_ne_slash (nonempty : name ≠ []) (part : ∀ c ∈ name, isNamePart c)
    (rest : List Char) : ¬['/'] <+: name ++ rest := by
  obtain ⟨c, name, rfl⟩ := List.exists_cons_of_ne_nil nonempty
  rw [List.cons_append, List.cons_prefix_cons]
  rintro ⟨rfl, -⟩
  exact absurd (part _ List.mem_cons_self) (by decide)

theorem markOf_opens (nonempty : name ≠ []) (part : ∀ c ∈ name, isNamePart c)
    (entries : IsEntries rest) : markOf (name ++ rest) = .opens (String.ofList name) := by
  have foreign : ∀ c, isNamePart c = false → c ∉ name := fun c other member =>
    absurd (part c member) (by simp [other])
  rw [markOf, if_neg (first_ne_slash nonempty part rest)]
  obtain rfl | ⟨t, rfl⟩ := entries
  · have noComment : ¬['!', '-', '-', ' '] <+: name := fun h =>
      foreign ' ' (by decide) (h.subset (by simp))
    have noSlash : ¬['/'] <:+ name := fun h => foreign '/' (by decide) (h.subset (by simp))
    have named := markName_run part stops_nil
    rw [List.append_nil] at named ⊢
    rw [if_neg fun h => noComment h.1, if_neg noSlash, named]
  · have last : ∀ {w c}, w ++ [c] <:+ name ++ (' ' :: t ++ ['"']) → c = '"' := by
      intro w c h
      rw [← List.append_assoc] at h
      exact (snoc_suffix_snoc.mp h).2
    have noComment : ¬['-', '-'] <:+ name ++ (' ' :: t ++ ['"']) := fun h =>
      absurd (last (w := ['-']) h) (by decide)
    have noSlash : ¬['/'] <:+ name ++ (' ' :: t ++ ['"']) := fun h =>
      absurd (last (w := []) h) (by decide)
    have stop : Stops isNamePart (' ' :: t ++ ['"']) := by
      rw [List.cons_append]
      exact stops_cons.mpr (by decide)
    rw [if_neg fun h => noComment h.2, if_neg noSlash, markName_run part stop]

theorem markOf_empty (nonempty : name ≠ []) (part : ∀ c ∈ name, isNamePart c)
    (stop : Stops isNamePart (rest ++ ['/'])) :
    markOf (name ++ (rest ++ ['/'])) = .empty (String.ofList name) := by
  have noComment : ¬['-', '-'] <:+ name ++ (rest ++ ['/']) := by
    rw [← List.append_assoc]
    exact fun h => absurd (snoc_suffix_snoc (w := ['-']).mp h).2 (by decide)
  have slash : ['/'] <:+ name ++ (rest ++ ['/']) := ⟨name ++ rest, by simp⟩
  rw [markOf, if_neg (first_ne_slash nonempty part _), if_neg fun h => noComment h.2,
    if_pos slash, markName_run part stop]

theorem markOf_comment (s : List Char) :
    markOf ('!' :: '-' :: '-' :: ' ' :: s ++ [' ', '-', '-']) = .comment := by
  have first : ['!', '-', '-', ' '] <+: '!' :: '-' :: '-' :: ' ' :: s ++ [' ', '-', '-'] :=
    ⟨s ++ [' ', '-', '-'], by simp⟩
  have last : ['-', '-'] <:+ '!' :: '-' :: '-' :: ' ' :: s ++ [' ', '-', '-'] :=
    ⟨'!' :: '-' :: '-' :: ' ' :: s ++ [' '], by simp⟩
  rw [markOf, if_neg (by simp), if_pos ⟨first, last⟩]

end Tags

section Element

variable {element : Element} {options : RenderOptions}

/-- The attributes as they stand in a tag. -/
def entries (attributes : List (String × String)) : List Char :=
  attributes.flatMap fun entry => (Html.entry entry.1 entry.2).toList

theorem toList_opening (element : Element) (options : RenderOptions) :
    (Html.opening element options).toList =
      '<' :: (element.name.toList ++ entries (Html.attributesOf element options)) := by
  simp [Html.opening, entries, List.flatMap_map]

theorem toList_entry (key value : String) :
    (Html.entry key value).toList =
      ' ' :: (key.toList ++ ['=']) ++ ('"' :: value.toList ++ ['"']) := by
  simp [Html.entry]

theorem isEntries_entries (attributes : List (String × String)) :
    IsEntries (entries attributes) := by
  induction attributes with
  | nil => exact .inl rfl
  | cons entry attributes ih =>
    rw [entries, List.flatMap_cons, toList_entry, ← entries]
    obtain none | ⟨t, more⟩ := ih
    · rw [none]
      exact .inr ⟨entry.1.toList ++ ['='] ++ '"' :: entry.2.toList, by simp⟩
    · rw [more]
      exact .inr ⟨entry.1.toList ++ ['='] ++ '"' :: entry.2.toList ++ '"' :: ' ' :: t, by simp⟩

theorem staysInMark_entries {attributes : List (String × String)}
    (plain : ∀ entry ∈ attributes, isPlainText entry.1 ∧ isPlainText entry.2) :
    StaysInMark (entries attributes) := by
  induction attributes with
  | nil => exact staysInMark_of_plain rfl
  | cons entry attributes ih =>
    obtain ⟨⟨keyPlain, valuePlain⟩, plain⟩ := List.forall_mem_cons.mp plain
    rw [entries, List.flatMap_cons, toList_entry, ← entries]
    refine .append (.append (staysInMark_of_plain ?_) (staysInMark_quoted valuePlain)) (ih plain)
    simp only [List.all_cons, List.all_append, List.all_nil, Bool.and_true, Bool.and_eq_true]
    exact ⟨rfl, keyPlain, rfl⟩

theorem isPlainText_append {s t : String} (first : isPlainText s) (last : isPlainText t) :
    isPlainText (s ++ t) := by
  rw [isPlainText, String.toList_append, List.all_append, Bool.and_eq_true]
  exact ⟨first, last⟩

theorem isPlainText_intercalate {parts : List String} (plain : ∀ part ∈ parts, isPlainText part) :
    isPlainText (" ".intercalate parts) := by
  rw [isPlainText, String.toList_intercalate, List.all_eq_true]
  intro c member
  obtain rfl | ⟨part, inside, member⟩ := mem_intercalate member
  · rfl
  · obtain ⟨part, here, rfl⟩ := List.mem_map.mp inside
    exact List.all_eq_true.mp (plain part here) c member

theorem IsSafe.attributesOf (safe : IsSafe element options) :
    ∀ entry ∈ Html.attributesOf element options, isPlainText entry.1 ∧ isPlainText entry.2 := by
  intro entry member
  rw [Html.attributesOf, List.mem_append, List.mem_append] at member
  obtain (id | classes) | own := member
  · obtain ⟨value, here, rfl⟩ := List.mem_map.mp id
    exact ⟨(by decide : isPlainText "id"), safe.id value (Option.mem_toList.mp here)⟩
  · split at classes
    · contradiction
    · obtain rfl := List.mem_singleton.mp classes
      exact ⟨safe.classAttribute, isPlainText_intercalate safe.classes⟩
  · exact safe.attributes entry own

/-- The start tag, and the empty tag, up to their end. -/
theorem IsSafe.staysInMark (safe : IsSafe element options) :
    StaysInMark (element.name.toList ++ entries (Html.attributesOf element options)) :=
  (staysInMark_of_plain safe.name).append (staysInMark_entries safe.attributesOf)

variable {dialect : Dialect}

theorem spells_mark {text : String} {s : List Char} {mark : Mark} (stays : StaysInMark s)
    (eq : text.toList = '<' :: s ++ ['>']) (is : markOf s = mark) (counts : mark ≠ .comment) :
    Spells dialect text [mark] := by
  refine ⟨[mark], ?_, ?_⟩
  · rw [marks, eq, readMarks_mark stays, is]
    rfl
  · unfold visible
    split
    · simp [counts]
    · rfl

theorem spells_opening (safe : IsSafe element options) :
    Spells dialect (Html.opening element options ++ ">") [.opens element.name] := by
  have named := markOf_opens safe.name_ne safe.name_part
    (isEntries_entries (Html.attributesOf element options))
  rw [String.ofList_toList] at named
  refine spells_mark safe.staysInMark ?_ named (by simp)
  rw [String.toList_append, toList_opening]
  simp

theorem spells_closing (safe : IsSafe element options) :
    Spells dialect ("</" ++ element.name ++ ">") [.closes element.name] := by
  have named := markOf_closes safe.name_part
  rw [String.ofList_toList] at named
  have stays : StaysInMark ('/' :: element.name.toList) :=
    staysInMark_of_plain (List.all_cons.trans (Bool.and_eq_true_iff.mpr ⟨rfl, safe.name⟩))
  refine spells_mark stays ?_ named (by simp)
  simp

theorem spells_empty (safe : IsSafe element options) (slash : options.selfClosing ≠ .bare) :
    Spells dialect (Html.opening element options ++ options.selfClosing.terminator)
      [.empty element.name] := by
  -- A blank or nothing stands before the slash.
  obtain ⟨before, terminator, plain, stops⟩ : ∃ before : List Char,
      options.selfClosing.terminator.toList = before ++ ['/', '>'] ∧
        (before ++ ['/']).all isPlain ∧ Stops isNamePart (before ++ ['/']) := by
    cases style : options.selfClosing with
    | spaceSlash => exact ⟨[' '], rfl, rfl, stops_cons.mpr (by decide)⟩
    | slash => exact ⟨[], rfl, rfl, stops_cons.mpr (by decide)⟩
    | bare => exact absurd style slash
  have stop :
      Stops isNamePart (entries (Html.attributesOf element options) ++ before ++ ['/']) := by
    rw [List.append_assoc]
    obtain none | ⟨t, some⟩ := isEntries_entries (Html.attributesOf element options)
    · rwa [none, List.nil_append]
    · rw [some]
      exact stops_cons.mpr (by decide)
  have named := markOf_empty safe.name_ne safe.name_part stop
  rw [String.ofList_toList] at named
  have stays := safe.staysInMark.append (staysInMark_of_plain plain)
  refine spells_mark stays ?_ ?_ Mark.noConfusion
  · rw [String.toList_append, toList_opening, terminator]
    simp
  · simpa using named

/-- The text of an element has no marks; its written children have theirs. -/
theorem spells_parts (safe : IsSafe element options) {seen : List Mark}
    (content : ∀ content ∈ element.content, Spells dialect content seen)
    (nothing : element.content = none → seen = []) :
    ∃ marks, List.Forall₂ (Spells dialect) element.parts marks ∧ marks.flatten = seen := by
  have text : List.Forall₂ (Spells dialect) element.text.toList
      (element.text.toList.map fun _ => []) :=
    List.forall₂_map_right_iff.mpr (List.forall₂_same.mpr fun text here =>
      spells_of_plain (safe.text text (Option.mem_toList.mp here)))
  have children : List.Forall₂ (Spells dialect) element.content.toList
      (element.content.toList.map fun _ => seen) :=
    List.forall₂_map_right_iff.mpr (List.forall₂_same.mpr fun text here =>
      content text (Option.mem_toList.mp here))
  refine ⟨_, List.rel_append text children, ?_⟩
  have silent : (element.text.toList.map fun _ => ([] : List Mark)).flatten = [] := by
    cases element.text <;> rfl
  rw [List.flatten_append, silent, List.nil_append]
  cases written : element.content with
  | none => exact (nothing written).symm
  | some content => simp

theorem spells_inside (safe : IsSafe element options) {seen : List Mark}
    (content : ∀ content ∈ element.content, Spells dialect content seen)
    (nothing : element.content = none → seen = []) :
    Spells dialect (Html.inside element options) seen := by
  obtain ⟨marks, parts, rfl⟩ := spells_parts safe content nothing
  unfold Html.inside
  split
  · have indented : List.Forall₂ (Spells dialect) (element.parts.map (indent options.unit)) marks :=
      List.forall₂_map_left_iff.mpr (parts.imp fun _ _ => Spells.indent options)
    exact (spells_additive.join indented).append_plain rfl
  · exact spells_additive.join parts

theorem spells_write (safe : IsSafe element options) (slash : options.selfClosing ≠ .bare)
    {seen : List Mark} (content : ∀ content ∈ element.content, Spells dialect content seen)
    (nothing : element.content = none → seen = []) :
    Spells dialect (Html.write element options)
      (if element.isSelfClosing then [.empty element.name]
       else .opens element.name :: seen ++ [.closes element.name]) := by
  unfold Html.write
  split
  · exact spells_empty safe slash
  · have inside := spells_inside safe content nothing
    have closing : Spells dialect ("</" ++ element.name ++ ">") [.closes element.name] :=
      spells_closing safe
    have both := (spells_opening safe).append (inside.append closing)
    simpa [String.append_assoc] using both

theorem spells_comment {text : String} (plain : isPlainText text) :
    Spells .commentedHtml ("<!-- " ++ text ++ " -->") [] := by
  have stays : StaysInMark ('!' :: '-' :: '-' :: ' ' :: text.toList ++ [' ', '-', '-']) := by
    refine staysInMark_of_plain ?_
    simp only [List.cons_append, List.all_cons, List.all_append, Bool.and_eq_true]
    exact ⟨rfl, rfl, rfl, rfl, plain, rfl, rfl, rfl, rfl⟩
  have eq : ("<!-- " ++ text ++ " -->").toList =
      '<' :: ('!' :: '-' :: '-' :: ' ' :: text.toList ++ [' ', '-', '-']) ++ ['>'] := by
    simp
  refine ⟨[.comment], ?_, rfl⟩
  rw [marks, eq, readMarks_mark stays, markOf_comment]
  rfl

theorem IsSafe.selectorText (safe : IsSafe element options) : isPlainText element.selectorText := by
  rw [isPlainText, Element.selectorText, String.toList_join, List.all_flatMap, List.all_eq_true]
  intro part member
  obtain id | name := List.mem_append.mp member
  · obtain ⟨value, here, rfl⟩ := List.mem_map.mp id
    exact isPlainText_append (by decide) (safe.id value (Option.mem_toList.mp here))
  · obtain ⟨value, here, rfl⟩ := List.mem_map.mp name
    exact isPlainText_append (by decide) (safe.classes value here)

/-- In both dialects of HTML an element is one empty tag, or its children between a start tag
and an end tag. -/
theorem spells_writeElement (html : dialect.family = .html) (safe : IsSafe element options)
    (slash : options.selfClosing ≠ .bare) {seen : List Mark}
    (content : ∀ content ∈ element.content, Spells dialect content seen)
    (nothing : element.content = none → seen = []) :
    Spells dialect (dialect.writeElement element options)
      (if element.isSelfClosing then [.empty element.name]
       else .opens element.name :: seen ++ [.closes element.name]) := by
  have plain := spells_write safe slash content nothing
  cases dialect with
  | html => exact plain
  | commentedHtml =>
    rw [Dialect.writeElement, Html.writeCommented]
    cases selected : element.selector? with
    | none => exact plain
    | some selector =>
      have chosen : isPlainText selector := by
        unfold Element.selector? at selected
        split at selected
        · contradiction
        · exact Option.some.inj selected ▸ safe.selectorText
      have before := (spells_comment chosen).append_plain (t := "\n") rfl
      have finished := spells_comment (isPlainText_append (s := "/") (by decide) chosen)
      have both := before.append (plain.append (finished.plain_append (s := "\n") rfl))
      rw [List.nil_append, List.append_nil] at both
      convert both using 1
      apply String.toList_injective
      simp
  | haml => contradiction
  | hiccup => contradiction

end Element

end Shorthand.Markup
