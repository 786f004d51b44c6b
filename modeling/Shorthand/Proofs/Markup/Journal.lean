import Shorthand.Proofs.Markup.Chain
import Shorthand.Proofs.Node.Parts

/-! What an expansion writes. A renderer that keeps a journal of the elements it writes renders
as ever, and in the end the journal has the tags of the tree, all that no snippet takes the
place of. An expansion renders one tree in one dialect, and what it gives is that text, escaped
or not. -/
namespace Shorthand

/-- No snippet takes the place of the tag. -/
def Tables.writes (tables : Tables) (dialect : Dialect) (tag : Tag) : Bool :=
  (tables.tagSnippet? dialect tag.name.toText).isNone

theorem Expander.writes_iff {expander : Expander} (coherent : expander.Coherent) (dialect : Dialect)
    (tag : Tag) :
    expander.tables.writes dialect tag ↔ (expander.snippet? dialect tag.name.toText).1 = none := by
  rw [snippet?_fst coherent, Option.map_eq_none_iff]
  exact Option.isNone_iff_eq_none

namespace Markup

/-- A rendering at work: the expander, and the elements written so far. -/
structure Journal where
  expander : Expander
  written : List Element := []

namespace Journal

/-- The journal, continued with another expander. -/
def note (journal : Journal) (elements : List Element) (expander : Expander) : Journal :=
  { expander, written := journal.written ++ elements }

/-- An element is noted when it is written. -/
def writeTag (dialect : Dialect) (options : RenderOptions) (tag : Tag) (children : String)
    (journal : Journal) : String × Journal :=
  let content := if children.isEmpty then none else some children
  match journal.expander.snippet? dialect tag.name.toText with
  | (some snippet, expander) =>
    (snippet.apply (joinLines ((tag.text.map Template.toText).toList ++ content.toList)),
      journal.note [] expander)
  | (none, expander) =>
    let element := elementOf expander.tables tag content
    (dialect.writeElement element options, journal.note [element] expander)

mutual

def render (dialect : Dialect) (options : RenderOptions) : Node → Journal → String × Journal
  | .tag tag, journal => writeTag dialect options tag "" journal
  | .nested parent child, journal =>
    let (children, journal) := render dialect options child journal
    writeTag dialect options parent children journal
  | .chain items, journal | .copies items, journal =>
    let (parts, journal) := renderAll dialect options items journal
    (joinLines parts, journal)
  | .text content, journal => (dialect.writeText content.toText, journal)
  | .filtered _ inner, journal => render dialect options inner journal
  | .filler words, journal =>
    let (text, expander) := journal.expander.fillerText words
    (dialect.writeText text, journal.note [] expander)

def renderAll (dialect : Dialect) (options : RenderOptions) :
    List Node → Journal → List String × Journal
  | [], journal => ([], journal)
  | item :: rest, journal =>
    let (part, journal) := render dialect options item journal
    let (parts, journal) := renderAll dialect options rest journal
    (part :: parts, journal)

end

variable {dialect : Dialect} {options : RenderOptions} {tables : Tables}

/-- The elements are those of the tags that are written, in any order and with any content. -/
def Notes (dialect : Dialect) (tables : Tables) (tags : List Tag) (elements : List Element) :
    Prop :=
  (elements.map fun element => { element with content := none }).Perm
    ((tags.filter (tables.writes dialect)).map (elementOf tables · none))

theorem Notes.append {first last : List Tag} {before after : List Element}
    (notes : Notes dialect tables first before) (notes' : Notes dialect tables last after) :
    Notes dialect tables (first ++ last) (before ++ after) := by
  rw [Notes, List.map_append, List.filter_append, List.map_append]
  exact List.Perm.append notes notes'

theorem Notes.comm {first last : List Tag} {elements : List Element}
    (notes : Notes dialect tables (first ++ last) elements) :
    Notes dialect tables (last ++ first) elements :=
  notes.trans ((List.perm_append_comm.filter _).map _)

theorem Notes.forall_iff {tags : List Tag} {elements : List Element}
    (notes : Notes dialect tables tags elements) {property : Element → Prop}
    (blind : ∀ element, property { element with content := none } ↔ property element) :
    (∀ element ∈ elements, property element) ↔
      ∀ tag ∈ tags, tables.writes dialect tag → property (elementOf tables tag none) := by
  calc (∀ element ∈ elements, property element)
    _ ↔ ∀ element ∈ elements.map fun element => { element with content := none },
        property element := by simp only [List.forall_mem_map, blind]
    _ ↔ ∀ element ∈ (tags.filter (tables.writes dialect)).map (elementOf tables · none),
        property element := by simp only [notes.mem_iff]
    _ ↔ _ := by simp only [List.forall_mem_map, List.mem_filter, and_imp]

/-- Aliases are not written. -/
theorem Notes.evolves {before after : Expander} (evolves : before.Evolves after)
    {tags : List Tag} {elements : List Element}
    (notes : Notes dialect after.tables tags elements) :
    Notes dialect before.tables tags elements := by
  rw [evolves.tables] at notes
  exact notes

theorem note_nil (journal : Journal) : journal.note [] journal.expander = journal := by
  rw [note, List.append_nil]

theorem note_note (journal : Journal) (first last : List Element) (expander later : Expander) :
    (journal.note first expander).note last later = journal.note (first ++ last) later := by
  rw [note, note, note, List.append_assoc]

theorem writeTag_spec (journal : Journal) (coherent : journal.expander.Coherent) (tag : Tag)
    (children : String) :
    ∃ elements, journal.writeTag dialect options tag children =
        ((Markup.writeTag dialect options tag children journal.expander).1,
          journal.note elements (Markup.writeTag dialect options tag children journal.expander).2) ∧
      Notes dialect journal.expander.tables [tag] elements := by
  have shown := Expander.writes_iff coherent dialect tag
  have evolves := Expander.Evolves.snippet? journal.expander dialect tag.name.toText
  rcases sought : journal.expander.snippet? dialect tag.name.toText with ⟨_ | snippet, after⟩ <;>
    simp only [writeTag, Markup.writeTag, sought] at shown evolves ⊢
  · refine ⟨_, rfl, ?_⟩
    rw [Notes, List.filter_cons_of_pos (shown.mpr trivial), evolves.tables]
    rfl
  · refine ⟨_, rfl, ?_⟩
    rw [Notes, List.filter_cons_of_neg (by simp [shown])]
    rfl

mutual

/-- The journal is kept beside the rendering and has no part in it. -/
theorem render_spec (journal : Journal) (coherent : journal.expander.Coherent) (node : Node) :
    ∃ elements, journal.render dialect options node =
        ((Markup.render dialect options node journal.expander).1,
          journal.note elements (Markup.render dialect options node journal.expander).2) ∧
      Notes dialect journal.expander.tables node.tags elements := by
  match node with
  | .tag tag => exact writeTag_spec journal coherent tag ""
  | .nested parent child =>
    obtain ⟨inner, rendered, notes⟩ := render_spec journal coherent child
    have evolves : journal.expander.Evolves
        (Markup.render dialect options child journal.expander).2 := .render child _
    obtain ⟨own, written, notes'⟩ :=
      writeTag_spec (journal.note inner _) (evolves.coherent coherent) parent _
    -- The parent is written behind its children, and stands before them in the tree.
    refine ⟨inner ++ own, ?_, (notes.append (notes'.evolves evolves)).comm⟩
    rw [render, rendered, ← note_note]
    exact written
  | .chain items | .copies items =>
    obtain ⟨elements, rendered, notes⟩ := renderAll_spec journal coherent items
    refine ⟨elements, ?_, notes⟩
    rw [render, rendered]
    rfl
  | .text _ => exact ⟨[], congrArg _ journal.note_nil.symm, .refl _⟩
  | .filler _ => exact ⟨[], rfl, .refl _⟩
  | .filtered _ inner => exact render_spec journal coherent inner

theorem renderAll_spec (journal : Journal) (coherent : journal.expander.Coherent)
    (items : List Node) :
    ∃ elements, journal.renderAll dialect options items =
        ((Markup.renderAll dialect options items journal.expander).1,
          journal.note elements (Markup.renderAll dialect options items journal.expander).2) ∧
      Notes dialect journal.expander.tables (Node.tagsIn items) elements := by
  match items with
  | [] => exact ⟨[], congrArg _ journal.note_nil.symm, .refl _⟩
  | item :: rest =>
    obtain ⟨first, rendered, notes⟩ := render_spec journal coherent item
    have evolves : journal.expander.Evolves
        (Markup.render dialect options item journal.expander).2 := .render item _
    obtain ⟨last, renderedAll, notes'⟩ :=
      renderAll_spec (journal.note first _) (evolves.coherent coherent) rest
    refine ⟨first ++ last, ?_, notes.append (notes'.evolves evolves)⟩
    simp only [renderAll, rendered, renderedAll, note_note]
    rfl

end

end Journal

variable {options : RenderOptions} {expander : Expander} {tree : Node} {output : String}

def headDialect (options : RenderOptions) : List Filter → Dialect
  | .render dialect :: _ => dialect
  | _ => options.dialect

/-- The dialect in which a chain has the tree rendered. -/
def dialectOf (tables : Tables) (options : RenderOptions) : List Filter → Dialect
  | .escape :: _ => headDialect options (defaultChain tables options)
  | filters => headDialect options filters

theorem eq_of_refine {filters : List Filter} {text : String}
    (refined : refine filters text = .ok output) : output = escape^[filters.length] text := by
  rw [refine_eq] at refined
  split at refined
  · contradiction
  · exact (Except.ok.inj refined).symm

theorem eq_of_runRenderer {filters : List Filter}
    (ran : (runRenderer filters tree options expander).1 = .ok output) :
    ∃ times, output =
      escape^[times] (render (headDialect options filters) options tree expander).1 := by
  match filters with
  | .render dialect :: rest => exact ⟨_, eq_of_refine ran⟩
  | [] => exact ⟨_, eq_of_refine ran⟩
  | .escape :: rest => exact ⟨_, eq_of_refine ran⟩

/-- What a chain gives is the rendered tree, escaped some times. -/
theorem eq_of_run {filters : List Filter}
    (ran : (run filters tree options expander).1 = .ok output) :
    ∃ times, output = escape^[times]
      (render (dialectOf expander.tables options filters) options tree expander).1 := by
  match filters with
  | .render dialect :: rest => exact eq_of_runRenderer ran
  | [] => exact eq_of_runRenderer ran
  | .escape :: rest =>
    let first := runRenderer (defaultChain expander.tables options) tree options expander
    change (first.1.bind fun text => refine rest (escape text)) = .ok output at ran
    cases rendered : first.1 with
    | error failure =>
      rw [rendered] at ran
      contradiction
    | ok text =>
      rw [rendered] at ran
      obtain ⟨times, rfl⟩ := eq_of_runRenderer rendered
      refine ⟨rest.length + 1 + times, ?_⟩
      rw [Function.iterate_add_apply, Function.iterate_succ_apply]
      exact eq_of_refine ran

end Markup

end Shorthand
