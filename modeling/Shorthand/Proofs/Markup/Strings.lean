import Shorthand.Proofs.Markup.Literals
import Shorthand.Proofs.Markup.Spelling
import Shorthand.Proofs.Node.Parts

/-! Strings of a tree. From what is rendered as Hiccup the values of the attributes and the
texts are read, in the order in which they stand in the tree. But children are written first
and indented by each tag around them, and a literal with a line break in it is indented like
everything else: behind the line break its string gains the blanks of all elements around it. -/
namespace Shorthand

/-- What is written of an element as it stands, without quotes around it. -/
def Element.names (element : Element) : List String :=
  element.name :: element.id.toList ++ element.classes ++ Table.keys element.attributes

namespace Hiccup

open Markup

/-- A string and the number of elements around it. -/
structure StringAt where
  depth : Nat
  text : String
deriving DecidableEq

namespace StringAt

def deeper (string : StringAt) : StringAt := { string with depth := string.depth + 1 }

/-- The string as it can be read: every line break in it is indented by the elements around. -/
def shown (unit : String) (string : StringAt) : String :=
  replaceChar '\n' ("\n" ++ String.join (List.replicate string.depth unit)) string.text

end StringAt

/-- The values of the attributes, the text one level deeper, and the strings of the children. -/
def tagStrings (tables : Tables) (tag : Tag) (below : List StringAt) : List StringAt :=
  let own := tag.properties.map fun (key, value) => (key, value.toText)
  (mergeProperties (settingsOf tables tag).defaults own).map (fun entry => ⟨0, entry.2⟩) ++
    tag.text.toList.map (fun text => ⟨1, text.toText⟩) ++ below.map StringAt.deeper

mutual

/-- The strings of a tree. -/
def strings (tables : Tables) : Node → List StringAt
  | .tag tag => tagStrings tables tag []
  | .nested parent child => tagStrings tables parent (strings tables child)
  | .chain items | .copies items => stringsIn tables items
  | .text content => [⟨0, content.toText⟩]
  | .filtered _ inner => strings tables inner
  | .filler _ => []

def stringsIn (tables : Tables) : List Node → List StringAt
  | [] => []
  | item :: rest => strings tables item ++ stringsIn tables rest

end

section Shown

variable {unit : String}

theorem blank_of_mem_join (blanks : ∀ c ∈ unit.toList, c = ' ') (depth : Nat) :
    ∀ c ∈ (String.join (List.replicate depth unit)).toList, c = ' ' := by
  intro c member
  rw [String.toList_join, List.mem_flatMap] at member
  obtain ⟨part, here, member⟩ := member
  obtain rfl := List.eq_of_mem_replicate here
  exact blanks c member

theorem shown_deeper (blanks : ∀ c ∈ unit.toList, c = ' ') (string : StringAt) :
    string.deeper.shown unit = replaceChar '\n' ("\n" ++ unit) (string.shown unit) := by
  have single : '\n' ∉ (String.join (List.replicate string.depth unit)).toList := fun member =>
    absurd (blank_of_mem_join blanks string.depth _ member) (by decide)
  rw [← String.toList_inj, StringAt.shown, StringAt.shown, StringAt.deeper, toList_replaceChar,
    toList_replaceChar, toList_replaceChar, expand_expand _ single, List.replicate_succ,
    String.join_cons, String.toList_append]

theorem shown_eq_text_iff (options : RenderOptions) (string : StringAt) :
    string.shown options.unit = string.text ↔
      string.depth = 0 ∨ options.indentation = 0 ∨ isMultiline string.text = false := by
  have empty : (String.join (List.replicate string.depth options.unit)).toList = [] ↔
      string.depth = 0 ∨ options.indentation = 0 := by
    cases string.depth <;> simp [String.toList_join, RenderOptions.unit]
  have single : isMultiline string.text = false ↔ '\n' ∉ string.text.toList := by
    simp [isMultiline]
  rw [← String.toList_inj, StringAt.shown, toList_replaceChar, expand_eq_self_iff, empty, single,
    or_assoc]

end Shown

/-- The text reads as the given strings. -/
def Reads (unit text : String) (strings : List StringAt) : Prop :=
  literals text = some (strings.map (StringAt.shown unit))

section Reads

variable {unit text : String} {options : RenderOptions} {strings below : List StringAt}

theorem reads_of_unquoted {text : String} (unquoted : '"' ∉ text.toList) : Reads unit text [] :=
  readLiterals_outside unquoted

theorem reads_quote (text : String) : Reads unit (quote text) [⟨0, text⟩] := by
  have whole : StringAt.shown unit ⟨0, text⟩ = text := by
    rw [← String.toList_inj, StringAt.shown, toList_replaceChar]
    exact expand_nil_left _
  rw [Reads, literals_quote, List.map_singleton, whole]

theorem reads_additive : IsAdditive (Reads unit) where
  empty := rfl
  append first last := by
    rw [Reads, literals, String.toList_append, readLiterals_append first, ← literals, last,
      List.map_append]
    rfl

theorem Reads.eq_nil (reads : Reads unit "" strings) : strings = [] :=
  List.map_eq_nil_iff.mp (Option.some.inj reads).symm

theorem Reads.moved (reads : Reads options.unit text strings) :
    Reads options.unit (replaceChar '\n' ("\n" ++ options.unit) text)
      (strings.map StringAt.deeper) := by
  have blanks := eq_blank_of_mem_unit options
  have deeper : (strings.map StringAt.deeper).map (StringAt.shown options.unit) =
      (strings.map (StringAt.shown options.unit)).map
        (replaceChar '\n' ("\n" ++ options.unit)) := by
    rw [List.map_map, List.map_map]
    exact List.map_congr_left fun string _ => shown_deeper blanks string
  rw [Reads, literals, toList_replaceChar, deeper]
  refine (readLiterals_expand blanks .outside text.toList).trans ?_
  rw [← literals, reads]
  rfl

theorem Reads.indent (reads : Reads options.unit text strings) :
    Reads options.unit (indent options.unit text) (strings.map StringAt.deeper) := by
  have unquoted : '"' ∉ ("\n" ++ options.unit).toList := by
    rw [String.toList_append, List.mem_append]
    rintro (member | member)
    · revert member
      decide
    · exact absurd (eq_blank_of_mem_unit options _ member) (by decide)
  exact reads_additive.append (reads_of_unquoted unquoted) reads.moved

/-- A part of an element on its own lines, or behind a blank if it is a single line. -/
theorem Reads.placed {block : Bool} (reads : Reads options.unit text strings)
    (single : block = false → isMultiline text = false) :
    Reads options.unit ((if block then Shorthand.indent options.unit else (" " ++ ·)) text)
      (strings.map StringAt.deeper) := by
  cases block with
  | true => exact reads.indent
  | false =>
    have moved := reads.moved
    rw [replaceChar_eq_self (by simpa [isMultiline] using single rfl)] at moved
    exact reads_additive.append (reads_of_unquoted (by decide)) moved

end Reads

section Element

variable {element : Element} {unit : String} {options : RenderOptions} {below : List StringAt}

theorem unquoted_selectorText (unquoted : ∀ name ∈ element.names, '"' ∉ name.toList) :
    '"' ∉ element.selectorText.toList := by
  rw [Element.selectorText, String.toList_join, List.mem_flatMap]
  rintro ⟨part, here, member⟩
  obtain ⟨lead, name, foreign, known, rfl⟩ : ∃ lead name, '"' ∉ lead.toList ∧
      name ∈ element.names ∧ part = lead ++ name := by
    obtain id | class' := List.mem_append.mp here
    · obtain ⟨name, known, rfl⟩ := List.mem_map.mp id
      exact ⟨"#", name, by decide, by simp [Element.names, Option.mem_toList.mp known], rfl⟩
    · obtain ⟨name, known, rfl⟩ := List.mem_map.mp class'
      exact ⟨".", name, by decide, by simp [Element.names, known], rfl⟩
  rw [String.toList_append, List.mem_append] at member
  exact member.elim foreign (unquoted name known)

theorem reads_attributeMap {attributes : List (String × String)}
    (unquoted : ∀ key ∈ Table.keys attributes, '"' ∉ key.toList) :
    Reads unit (attributeMap attributes) (attributes.map fun entry => ⟨0, entry.2⟩) := by
  have entries : List.Forall₂ (Reads unit) (attributes.map fun pair => entry pair.1 pair.2)
      (attributes.map fun entry => [⟨0, entry.2⟩]) := by
    refine List.forall₂_map_left_iff.mpr (List.forall₂_map_right_iff.mpr
      (List.forall₂_same.mpr fun pair member => ?_))
    have key : '"' ∉ pair.1.toList := unquoted _ (List.mem_map_of_mem member)
    have front : '"' ∉ (":" ++ pair.1 ++ " ").toList := by simp [key]
    exact reads_additive.append (reads_of_unquoted front) (reads_quote pair.2)
  have comma : Reads unit ", " [] := reads_of_unquoted (by decide)
  have opening : Reads unit " \x7b" [] := reads_of_unquoted (by decide)
  have closing : Reads unit "\x7d" [] := reads_of_unquoted (by decide)
  have inside := reads_additive.intercalate comma entries
  rw [← List.flatMap_def, ← List.map_eq_flatMap] at inside
  unfold attributeMap
  split
  · next none =>
    rw [List.isEmpty_iff.mp none]
    exact reads_additive.empty
  · have whole := reads_additive.append (reads_additive.append opening inside) closing
    rwa [List.nil_append, List.append_nil] at whole

theorem reads_header (unquoted : ∀ name ∈ element.names, '"' ∉ name.toList) :
    Reads unit (header element) (element.attributes.map fun entry => ⟨0, entry.2⟩) := by
  have name : '"' ∉ element.name.toList := unquoted _ (by simp [Element.names])
  have front : '"' ∉ ("[:" ++ element.name ++ element.selectorText).toList := by
    simp [name, unquoted_selectorText unquoted]
  refine reads_additive.append (reads_of_unquoted front) (reads_attributeMap fun key member => ?_)
  exact unquoted key (by simp [Element.names, member])

theorem isMultiline_quote (text : String) : isMultiline (quote text) = isMultiline text := by
  have each (c : Char) : '\n' ∈ escaped c ↔ '\n' = c := by
    unfold escaped
    split <;> simp
  simp [isMultiline, toList_quote, each]

/-- What stands in an element reads as its text and the strings of its content. -/
theorem reads_items (content : ∀ content ∈ element.content, Reads options.unit content below)
    (nothing : element.content = none → below = []) :
    Reads options.unit
      (String.join ((items element).map
        (if element.isBlock then indent options.unit else (" " ++ ·))))
      (element.text.toList.map (⟨1, ·⟩) ++ below.map StringAt.deeper) := by
  have single : ∀ part ∈ element.parts, element.isBlock = false → isMultiline part = false := by
    intro part member inline
    have parts := (Bool.or_eq_false_iff.mp inline).1
    exact Bool.eq_false_iff.mpr (List.any_eq_false.mp parts part member)
  have text : List.Forall₂ (Reads options.unit)
      ((element.text.map quote).toList.map
        (if element.isBlock then indent options.unit else (" " ++ ·)))
      (element.text.toList.map fun text => [⟨1, text⟩]) := by
    cases written : element.text with
    | none => exact .nil
    | some text =>
      have here : text ∈ element.parts := by simp [Element.parts, written]
      exact .cons ((reads_quote text).placed fun inline =>
        (isMultiline_quote text).trans (single text here inline)) .nil
  have children : List.Forall₂ (Reads options.unit)
      (element.content.toList.map (if element.isBlock then indent options.unit else (" " ++ ·)))
      (element.content.toList.map fun _ => below.map StringAt.deeper) := by
    cases written : element.content with
    | none => exact .nil
    | some part =>
      have here : part ∈ element.parts := by simp [Element.parts, written]
      exact .cons ((content part written).placed (single part here)) .nil
  have found : (element.text.toList.map (fun text => [StringAt.mk 1 text]) ++
      element.content.toList.map fun _ => below.map StringAt.deeper).flatten =
        element.text.toList.map (⟨1, ·⟩) ++ below.map StringAt.deeper := by
    rw [List.flatten_append, ← List.flatMap_def, ← List.map_eq_flatMap]
    cases written : element.content with
    | none => simp [nothing written]
    | some part => simp
  rw [items, List.map_append, ← found]
  exact reads_additive.join (List.rel_append text children)

/-- The values of the attributes stand in front of what is in the element. -/
theorem reads_write (unquoted : ∀ name ∈ element.names, '"' ∉ name.toList)
    (content : ∀ content ∈ element.content, Reads options.unit content below)
    (nothing : element.content = none → below = []) :
    Reads options.unit (write element options)
      (element.attributes.map (fun entry => ⟨0, entry.2⟩) ++
        element.text.toList.map (⟨1, ·⟩) ++ below.map StringAt.deeper) := by
  have closing : Reads options.unit "]" [] := reads_of_unquoted (by decide)
  have inside := reads_additive.append (reads_header unquoted) (reads_items content nothing)
  have whole := reads_additive.append inside closing
  rwa [List.append_nil, ← List.append_assoc] at whole

end Element

section Tree

variable {expander : Expander} {options : RenderOptions}

theorem writeTag_reads {tag : Tag} {children : String} {below : List StringAt}
    (bare : (expander.snippet? .hiccup tag.name.toText).1 = none)
    (unquoted : ∀ name ∈ (elementOf expander.tables tag none).names, '"' ∉ name.toList)
    (inner : Reads options.unit children below) :
    ∃ text, writeTag .hiccup options tag children expander = (text, expander) ∧
      Reads options.unit text (tagStrings expander.tables tag below) := by
  have written (content : Option String) (reads : ∀ part ∈ content, Reads options.unit part below)
      (nothing : content = none → below = []) :
      Reads options.unit (write (elementOf expander.tables tag content) options)
        (tagStrings expander.tables tag below) := by
    have whole : Reads options.unit (write (elementOf expander.tables tag content) options) _ :=
      reads_write unquoted reads nothing
    have text : (elementOf expander.tables tag content).text.toList.map (StringAt.mk 1) =
        tag.text.toList.map fun text => ⟨1, text.toText⟩ := by
      rw [elementOf]
      cases tag.text <;> rfl
    rwa [text] at whole
  rw [writeTag, snippet?_eq_self bare]
  refine ⟨_, rfl, ?_⟩
  split
  · next empty =>
    obtain rfl := String.isEmpty_iff.mp empty
    exact written none (fun _ here => absurd here (Option.not_mem_none _)) fun _ => inner.eq_nil
  · exact written (some children) (fun part same => Option.some.inj same ▸ inner) fun none =>
      absurd none (Option.some_ne_none children)

mutual

theorem render_reads (options : RenderOptions) (tree : Node) (unfilled : tree.hasFiller = false)
    (bare : ∀ tag ∈ tree.tags, (expander.snippet? .hiccup tag.name.toText).1 = none)
    (unquoted : ∀ tag ∈ tree.tags, ∀ name ∈ (elementOf expander.tables tag none).names,
      '"' ∉ name.toList) :
    ∃ text, render .hiccup options tree expander = (text, expander) ∧
      Reads options.unit text (strings expander.tables tree) := by
  match tree with
  | .tag tag =>
    exact writeTag_reads (bare tag List.mem_cons_self) (unquoted tag List.mem_cons_self)
      reads_additive.empty
  | .nested parent child =>
    obtain ⟨outerBare, innerBare⟩ := List.forall_mem_cons.mp bare
    obtain ⟨outer, inner⟩ := List.forall_mem_cons.mp unquoted
    obtain ⟨children, rendered, reads⟩ := render_reads options child unfilled innerBare inner
    rw [render, rendered]
    exact writeTag_reads outerBare outer reads
  | .chain items | .copies items =>
    obtain ⟨parts, found, rendered, each, flat⟩ :=
      renderAll_reads options items unfilled bare unquoted
    rw [render, rendered, strings, ← flat]
    exact ⟨_, rfl, reads_additive.joinLines (reads_of_unquoted (by decide)) each⟩
  | .text content => exact ⟨_, rfl, reads_quote content.toText⟩
  | .filtered filters inner => exact render_reads options inner unfilled bare unquoted
  | .filler words => contradiction

theorem renderAll_reads (options : RenderOptions) (items : List Node)
    (unfilled : Node.haveFiller items = false)
    (bare : ∀ tag ∈ Node.tagsIn items, (expander.snippet? .hiccup tag.name.toText).1 = none)
    (unquoted : ∀ tag ∈ Node.tagsIn items, ∀ name ∈ (elementOf expander.tables tag none).names,
      '"' ∉ name.toList) :
    ∃ parts found, renderAll .hiccup options items expander = (parts, expander) ∧
      List.Forall₂ (Reads options.unit) parts found ∧
      found.flatten = stringsIn expander.tables items := by
  match items with
  | [] => exact ⟨[], [], rfl, .nil, rfl⟩
  | item :: rest =>
    obtain ⟨first, later⟩ := Bool.or_eq_false_iff.mp unfilled
    obtain ⟨firstBare, laterBare⟩ := List.forall_mem_append.mp bare
    obtain ⟨firstUnquoted, laterUnquoted⟩ := List.forall_mem_append.mp unquoted
    obtain ⟨text, rendered, reads⟩ := render_reads options item first firstBare firstUnquoted
    obtain ⟨parts, found, renderedAll, each, flat⟩ :=
      renderAll_reads options rest later laterBare laterUnquoted
    refine ⟨text :: parts, _ :: found, ?_, .cons reads each, ?_⟩
    · simp only [renderAll, rendered, renderedAll]
    · rw [List.flatten_cons, flat, stringsIn]

end

end Tree

/-- From what is rendered as Hiccup the strings of the tree are read, in their order: of each
tag the values of its attributes, default ones among them, then its text, then the strings of
its children. Behind each line break in a string stand the blanks of the elements around it.
So the strings are read as they are unless one of them has a line break, stands in an element,
and is indented by a blank at least. -/
theorem literals_render (options : RenderOptions) (tree : Node) (expander : Expander)
    (unfilled : tree.hasFiller = false)
    (bare : ∀ tag ∈ tree.tags, (expander.snippet? .hiccup tag.name.toText).1 = none)
    (unquoted : ∀ tag ∈ tree.tags, ∀ name ∈ (elementOf expander.tables tag none).names,
      '"' ∉ name.toList) :
    literals (render .hiccup options tree expander).1 =
        some ((strings expander.tables tree).map (StringAt.shown options.unit)) ∧
      (literals (render .hiccup options tree expander).1 =
          some ((strings expander.tables tree).map StringAt.text) ↔
        ∀ string ∈ strings expander.tables tree,
          string.depth = 0 ∨ options.indentation = 0 ∨ isMultiline string.text = false) := by
  obtain ⟨text, rendered, reads⟩ := render_reads options tree unfilled bare unquoted
  rw [rendered]
  refine ⟨reads, ?_⟩
  rw [show literals text = _ from reads, Option.some_inj, List.map_inj_left]
  exact forall₂_congr fun string _ => shown_eq_text_iff options string

/-- A list with a quote in its title, an item of two lines, and an item with a backslash. -/
def notes : Node :=
  .nested { name := .ofText "ul", properties := [("title", .ofText "say \"hi\"")] } (.copies
    [.tag { name := .ofText "li", classes := [.ofText "first"], text := some (.ofText "a\nb") },
      .nested { name := .ofText "li" } (.text (.ofText "back\\slash"))])

theorem literals_render_notes :
    notes.hasFiller = false ∧
      (∀ tag ∈ notes.tags, (listingExpander.snippet? .hiccup tag.name.toText).1 = none) ∧
      (∀ tag ∈ notes.tags, ∀ name ∈ (elementOf listingExpander.tables tag none).names,
        '"' ∉ name.toList) ∧
      literals (render .hiccup { indentation := 2 } notes listingExpander).1 =
        some ["say \"hi\"", "a\n    b", "back\\slash"] := by
  have bare : ∀ tag ∈ notes.tags,
      (listingExpander.snippet? .hiccup tag.name.toText).1 = none := by decide
  have unquoted : ∀ tag ∈ notes.tags,
      ∀ name ∈ (elementOf listingExpander.tables tag none).names, '"' ∉ name.toList := by decide
  obtain ⟨read, -⟩ := literals_render { indentation := 2 } notes listingExpander rfl bare unquoted
  exact ⟨rfl, bare, unquoted, read.trans (by cbv)⟩

/-- A paragraph with a text of two lines. -/
def paragraph : Node := .tag { name := .ofText "p", text := some (.ofText "a\nb") }

/-- The string that is read is not the text of the paragraph. -/
theorem literals_render_paragraph :
    paragraph.hasFiller = false ∧
      (∀ tag ∈ paragraph.tags, (listingExpander.snippet? .hiccup tag.name.toText).1 = none) ∧
      (∀ tag ∈ paragraph.tags, (elementOf listingExpander.tables tag none).names = ["p"]) ∧
      strings listingExpander.tables paragraph = [⟨1, "a\nb"⟩] ∧
      literals (render .hiccup {} paragraph listingExpander).1 = some ["a\n    b"] := by
  exact ⟨rfl, by decide, by decide, by decide, by cbv⟩

end Hiccup

end Shorthand
