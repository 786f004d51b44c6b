import Mathlib
import Shorthand.Markup.Render
import Shorthand.Proofs.Markup.Elements
import Shorthand.Proofs.Table
import Shorthand.Proofs.Text.Lines

/-! What HTML spells out. A tree whose texts hold no character of markup can be read back
from what it is rendered to: the marks in the output are those of a walk through the tree,
depth first and from the left. -/
namespace Shorthand.Markup

mutual

/-- Whether the tree shows nothing: no tag, and no text with a character in it. -/
def isSilent : Node → Bool
  | .tag _ | .nested _ _ | .filler _ => false
  | .text content => content.toText.isEmpty
  | .chain items | .copies items => areSilent items
  | .filtered _ inner => isSilent inner

def areSilent : List Node → Bool
  | [] => true
  | item :: rest => isSilent item && areSilent rest

end

def settingsOf (tables : Tables) (tag : Tag) : TagSettings :=
  (tables.tagSettings.get? tag.name.toText).getD {}

/-- A tag is one empty tag exactly when it has no text, its children show nothing, and it
has no body or is void; else its children stand between a start tag and an end tag. -/
def tagSpelling (tables : Tables) (tag : Tag) (silent : Bool) (inner : List Mark) : List Mark :=
  if tag.text.isNone && silent && (!tag.hasBody || (settingsOf tables tag).selfClosing) then
    [.empty tag.name.toText]
  else .opens tag.name.toText :: inner ++ [.closes tag.name.toText]

mutual

/-- The walk through a tree. -/
def spelling (tables : Tables) : Node → List Mark
  | .tag tag => tagSpelling tables tag true []
  | .nested parent child => tagSpelling tables parent (isSilent child) (spelling tables child)
  | .chain items | .copies items => spellings tables items
  | .text _ | .filler _ => []
  | .filtered _ inner => spelling tables inner

def spellings (tables : Tables) : List Node → List Mark
  | [] => []
  | item :: rest => spelling tables item ++ spellings tables rest

end

/-- No snippet replaces the tag, its name is a word, and nothing that is written of it holds
a character of markup. -/
def isSafeTag (expander : Expander) (tag : Tag) : Bool :=
  (expander.snippet? .html tag.name.toText).1.isNone &&
    !tag.name.toText.toList.isEmpty && tag.name.toText.toList.all isNamePart &&
    isPlainText tag.name.toText && tag.id.all (isPlainText ·.toText) &&
    tag.classes.all (isPlainText ·.toText) && tag.text.all (isPlainText ·.toText) &&
    tag.properties.all (fun entry => isPlainText entry.1 && isPlainText entry.2.toText) &&
    (settingsOf expander.tables tag).defaults.all
      fun entry => isPlainText entry.1 && isPlainText entry.2

mutual

/-- All tags and texts are safe, and no filler is asked for. -/
def isSafe (expander : Expander) : Node → Bool
  | .tag tag => isSafeTag expander tag
  | .nested parent child => isSafeTag expander parent && isSafe expander child
  | .chain items | .copies items => areSafe expander items
  | .text content => isPlainText content.toText
  | .filtered _ inner => isSafe expander inner
  | .filler _ => false

def areSafe (expander : Expander) : List Node → Bool
  | [] => true
  | item :: rest => isSafe expander item && areSafe expander rest

end

section Tag

variable {expander : Expander} {options : RenderOptions} {dialect : Dialect} {tag : Tag}

/-- Looking for a snippet that is not there changes nothing. -/
theorem snippet?_eq_self {name : String} (absent : (expander.snippet? dialect name).1 = none) :
    expander.snippet? dialect name = (none, expander) := by
  unfold Expander.snippet? at absent ⊢
  split
  · next found => simp [found] at absent
  · next missing =>
    split
    · rfl
    · next source => simp [missing, source] at absent

theorem snippet?_eq_none {name : String} (html : dialect.family = .html)
    (absent : (expander.snippet? .html name).1.isNone) :
    expander.snippet? dialect name = (none, expander) := by
  have same : expander.snippet? dialect name = expander.snippet? .html name := by
    cases dialect <;> first | rfl | contradiction
  rw [same]
  exact snippet?_eq_self (Option.isNone_iff_eq_none.mp absent)

theorem isSafe_elementOf (safe : isSafeTag expander tag)
    (classAttribute : isPlainText options.classAttribute)
    (content : Option String) : IsSafe (elementOf expander.tables tag content) options := by
  simp only [isSafeTag, Bool.and_eq_true] at safe
  obtain ⟨⟨⟨⟨⟨⟨⟨⟨-, nonempty⟩, part⟩, name⟩, id⟩, classes⟩, text⟩, properties⟩, defaults⟩ := safe
  refine ⟨?_, List.all_eq_true.mp part, name, ?_, ?_, classAttribute, ?_, ?_⟩
  · exact fun empty => by simp [show tag.name.toText.toList = [] from empty] at nonempty
  · intro value member
    obtain ⟨template, here, rfl⟩ := Option.map_eq_some_iff.mp member
    exact (Option.all_eq_true _ _).mp id template here
  · intro value member
    obtain ⟨template, here, rfl⟩ := List.mem_map.mp member
    exact List.all_eq_true.mp classes template here
  · intro entry member
    obtain default | own := Table.mem_insertAll member
    · exact Bool.and_eq_true_iff.mp (List.all_eq_true.mp defaults entry default)
    · obtain ⟨property, here, rfl⟩ := List.mem_map.mp own
      exact Bool.and_eq_true_iff.mp (List.all_eq_true.mp properties property here)
  · intro value member
    obtain ⟨template, here, rfl⟩ := Option.map_eq_some_iff.mp member
    exact (Option.all_eq_true _ _).mp text template here

theorem isSelfClosing_elementOf (tables : Tables) (tag : Tag) (content : Option String) :
    (elementOf tables tag content).isSelfClosing =
      (tag.text.isNone && content.isNone &&
        (!tag.hasBody || (settingsOf tables tag).selfClosing)) := by
  cases text : tag.text <;> cases content <;>
    simp [Element.isSelfClosing, Element.parts, elementOf, settingsOf, text]

/-- A text with marks is not empty. -/
theorem Spells.ne_empty {text : String} {mark : Mark} {seen : List Mark}
    (h : Spells dialect text (mark :: seen)) : text ≠ "" := by
  rintro rfl
  obtain ⟨found, read, shown⟩ := h
  obtain rfl := Option.some.inj read
  unfold visible at shown
  split at shown <;> contradiction

theorem Spells.eq_nil {seen : List Mark} (h : Spells dialect "" seen) : seen = [] := by
  cases seen with
  | nil => rfl
  | cons mark seen => exact absurd rfl h.ne_empty

theorem writeTag_spells (html : dialect.family = .html) (slash : options.selfClosing ≠ .bare)
    (classAttribute : isPlainText options.classAttribute) (safe : isSafeTag expander tag)
    {children : String} {seen : List Mark} (inner : Spells dialect children seen) :
    ∃ text, writeTag dialect options tag children expander = (text, expander) ∧ text ≠ "" ∧
      Spells dialect text (tagSpelling expander.tables tag children.isEmpty seen) := by
  have absent : (expander.snippet? .html tag.name.toText).1.isNone := by
    simp only [isSafeTag, Bool.and_eq_true] at safe
    exact safe.1.1.1.1.1.1.1.1
  have written : ∀ content : Option String, (∀ part ∈ content, Spells dialect part seen) →
      (content = none → seen = []) →
      Spells dialect (dialect.writeElement (elementOf expander.tables tag content) options)
        (tagSpelling expander.tables tag content.isNone seen) := by
    intro content parts nothing
    have spelled := spells_writeElement html (isSafe_elementOf safe classAttribute content) slash
      parts nothing
    rwa [isSelfClosing_elementOf] at spelled
  have shown : ∀ {text : String} {silent : Bool},
      Spells dialect text (tagSpelling expander.tables tag silent seen) → text ≠ "" := by
    intro text silent spelled
    unfold tagSpelling at spelled
    split at spelled <;> exact spelled.ne_empty
  rw [writeTag, snippet?_eq_none html absent]
  by_cases empty : children.isEmpty
  · rw [if_pos empty, empty]
    obtain rfl : children = "" := by simpa using empty
    have spelled := written none (fun _ none => nomatch none) fun _ => inner.eq_nil
    exact ⟨_, rfl, shown spelled, spelled⟩
  · rw [if_neg empty, Bool.eq_false_iff.mpr empty]
    have spelled := written (some children) (fun part same => Option.some.inj same ▸ inner)
      fun none => nomatch none
    exact ⟨_, rfl, shown spelled, spelled⟩

end Tag

section Tree

variable {expander : Expander} {options : RenderOptions} {dialect : Dialect}

mutual

theorem render_spells (html : dialect.family = .html) (slash : options.selfClosing ≠ .bare)
    (classAttribute : isPlainText options.classAttribute) (tree : Node)
    (safe : isSafe expander tree) :
    ∃ text, render dialect options tree expander = (text, expander) ∧
      (text = "" ↔ isSilent tree) ∧ Spells dialect text (spelling expander.tables tree) := by
  match tree with
  | .tag tag =>
    have childless : Spells dialect "" [] := spells_of_plain rfl
    obtain ⟨text, written, shown, spelled⟩ :=
      writeTag_spells html slash classAttribute safe childless
    exact ⟨text, written, iff_of_false shown Bool.false_ne_true, spelled⟩
  | .nested parent child =>
    obtain ⟨parentSafe, childSafe⟩ := Bool.and_eq_true_iff.mp safe
    obtain ⟨children, rendered, silent, inner⟩ :=
      render_spells html slash classAttribute child childSafe
    obtain ⟨text, written, shown, spelled⟩ :=
      writeTag_spells html slash classAttribute parentSafe inner
    have same : children.isEmpty = isSilent child := by
      rw [Bool.eq_iff_iff, ← silent, String.isEmpty_iff]
    rw [same] at spelled
    refine ⟨text, ?_, iff_of_false shown Bool.false_ne_true, spelled⟩
    rw [render, rendered]
    exact written
  | .chain items | .copies items =>
    obtain ⟨parts, marks, rendered, silent, each, flat⟩ :=
      renderAll_spells html slash classAttribute items safe
    refine ⟨joinLines parts, ?_, joinLines_eq_empty.trans silent, ?_⟩
    · rw [render, rendered]
    · rw [spelling, ← flat]
      exact spells_additive.joinLines (spells_of_plain rfl) each
  | .text content =>
    refine ⟨content.toText, ?_, String.isEmpty_iff.symm, spells_of_plain safe⟩
    rw [render]
    cases dialect <;> first | rfl | contradiction
  | .filtered filters inner => exact render_spells html slash classAttribute inner safe
  | .filler words => contradiction

theorem renderAll_spells (html : dialect.family = .html) (slash : options.selfClosing ≠ .bare)
    (classAttribute : isPlainText options.classAttribute) (items : List Node)
    (safe : areSafe expander items) :
    ∃ parts marks, renderAll dialect options items expander = (parts, expander) ∧
      ((∀ part ∈ parts, part = "") ↔ areSilent items) ∧
      List.Forall₂ (Spells dialect) parts marks ∧
      marks.flatten = spellings expander.tables items := by
  match items with
  | [] => exact ⟨[], [], rfl, by simp [areSilent], .nil, rfl⟩
  | item :: rest =>
    obtain ⟨itemSafe, restSafe⟩ := Bool.and_eq_true_iff.mp safe
    obtain ⟨text, rendered, silent, spelled⟩ :=
      render_spells html slash classAttribute item itemSafe
    obtain ⟨parts, marks, renderedAll, allSilent, each, flat⟩ :=
      renderAll_spells html slash classAttribute rest restSafe
    refine ⟨text :: parts, _ :: marks, ?_, ?_, .cons spelled each, ?_⟩
    · simp only [renderAll, rendered, renderedAll]
    · rw [List.forall_mem_cons, silent, allSilent, areSilent, Bool.and_eq_true]
    · rw [List.flatten_cons, flat, spellings]

end

end Tree

/-- What is rendered as HTML spells out the tree: the marks in it are those of the walk
through the tree, where a tag is one empty tag exactly if it has no text, its children are
rendered as nothing, and it has no body or is void. In the commented dialect that holds of
the marks other than comments. -/
theorem marks_render (expander : Expander) (options : RenderOptions) (tree : Node)
    (slash : options.selfClosing ≠ .bare) (classAttribute : isPlainText options.classAttribute)
    (safe : isSafe expander tree) :
    marks (render .html options tree expander).1 = some (spelling expander.tables tree) ∧
      (marks (render .commentedHtml options tree expander).1).map (·.filter (· ≠ .comment)) =
        some (spelling expander.tables tree) ∧
      ((render .html options tree expander).1 = "" ↔ isSilent tree) ∧
      ((render .commentedHtml options tree expander).1 = "" ↔ isSilent tree) := by
  obtain ⟨text, rendered, silent, found, read, seen⟩ :=
    render_spells (rfl : Dialect.html.family = .html) slash classAttribute tree safe
  obtain ⟨text', rendered', silent', found', read', seen'⟩ :=
    render_spells (rfl : Dialect.commentedHtml.family = .html) slash classAttribute tree safe
  rw [rendered, rendered']
  refine ⟨read.trans (congrArg some seen), ?_, silent, silent'⟩
  rw [read', Option.map_some]
  exact congrArg some seen'

/-- A list with an item that has a class and a text, an item without anything, and a void tag. -/
def listing : Node :=
  .chain [.nested { name := .ofText "ul" } (.copies
      [.tag { name := .ofText "li", classes := [.ofText "item"], text := some (.ofText "one") },
        .nested { name := .ofText "li" } (.text .empty)]),
    .tag { name := .ofText "br" }]

def listingExpander : Expander :=
  { tables := { Tables.empty with
      tagSettings := [("ul", { block := true }), ("br", { selfClosing := true })] }
    source := .ofSeed 0 }

theorem marks_render_listing :
    isSafe listingExpander listing ∧
      (marks (render .commentedHtml {} listing listingExpander).1).map (·.filter (· ≠ .comment)) =
        some [.opens "ul", .opens "li", .closes "li", .opens "li", .closes "li", .closes "ul",
          .empty "br"] := by
  have safe : isSafe listingExpander listing := by cbv
  obtain ⟨-, commented, -⟩ := marks_render listingExpander {} listing (by decide) (by decide) safe
  exact ⟨safe, commented.trans (by cbv)⟩

end Shorthand.Markup
