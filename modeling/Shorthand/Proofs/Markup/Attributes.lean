import Shorthand.Proofs.Markup.Journal
import Shorthand.Proofs.Markup.Spelling
import Shorthand.Proofs.Table

/-! Attributes of start tags. Those of a tag are merged name by name with those that all tags
of its name have, so no two of them share a name. But the id and the classes come from
elsewhere, and are written in front of the attributes whether or not one of these has their
name. -/
namespace Shorthand

/-- The tables are the ones that come with the library, but for the aliases. -/
def Tables.IsBuiltin (tables : Tables) : Prop := ∃ aliases, tables = { builtin with aliases }

section Session

variable {before after : Expander}

theorem Expander.Evolves.isBuiltin (evolves : before.Evolves after)
    (builtin : before.tables.IsBuiltin) : after.tables.IsBuiltin := by
  obtain ⟨aliases, same⟩ := builtin
  exact ⟨after.tables.aliases, by rw [evolves.tables, same]⟩

theorem Tables.IsBuiltin.performAll (builtin : before.tables.IsBuiltin)
    {operations : List Expander.Operation}
    (kept : ∀ tables, .replaceTables tables ∈ operations → tables.IsBuiltin) :
    (before.performAll operations).tables.IsBuiltin := by
  induction operations generalizing before with
  | nil => exact builtin
  | cons operation rest ih =>
    refine ih ?_ fun tables later => kept tables (List.mem_cons_of_mem _ later)
    obtain evolves | ⟨tables, rfl, accepted⟩ := before.evolves_or_replaced operation
    · exact evolves.isBuiltin builtin
    · obtain ⟨-, replaced⟩ := Expander.replaceTables_eq_ok.mp accepted
      rw [← replaced]
      exact kept tables List.mem_cons_self

end Session

/-- The names of the attributes that the tag is given or has by default. -/
def Tag.attributeNames (tables : Tables) (tag : Tag) : List String :=
  Table.keys (Markup.settingsOf tables tag).defaults ++ Table.keys tag.properties

/-- The id or the classes of the tag go by a name that is in use already. -/
def Tag.Clashes (tables : Tables) (options : RenderOptions) (tag : Tag) : Prop :=
  tag.id.isSome ∧ "id" ∈ tag.attributeNames tables ∨
    tag.classes ≠ [] ∧ (options.classAttribute ∈ tag.attributeNames tables ∨
      tag.id.isSome ∧ options.classAttribute = "id")

instance (tables : Tables) (options : RenderOptions) (tag : Tag) :
    Decidable (tag.Clashes tables options) :=
  inferInstanceAs (Decidable (_ ∨ _))

/-- The names of the attributes in a start tag. -/
def Html.namesOf (element : Element) (options : RenderOptions) : List String :=
  (attributesOf element options).map Prod.fst

section Names

variable {element : Element} {options : RenderOptions} {tables : Tables} {tag : Tag}

theorem Html.nodup_namesOf (distinct : (Table.keys element.attributes).Nodup) :
    (namesOf element options).Nodup ↔
      ¬(element.id.isSome ∧ "id" ∈ Table.keys element.attributes ∨
        element.classes ≠ [] ∧ (options.classAttribute ∈ Table.keys element.attributes ∨
          element.id.isSome ∧ options.classAttribute = "id")) := by
  have names : namesOf element options =
      (element.id.toList.map fun _ => "id") ++
        (if element.classes.isEmpty then [] else [options.classAttribute]) ++
        Table.keys element.attributes := by
    rw [namesOf, attributesOf, List.map_append, List.map_append, List.map_map]
    split <;> rfl
  rw [names]
  -- With an id and classes both, each of three pairs of names may be one.
  cases element.id <;> cases element.classes <;> simp [distinct, eq_comm]
  tauto

theorem mem_keys_attributes_elementOf {content : Option String} {name : String} :
    name ∈ Table.keys (Markup.elementOf tables tag content).attributes ↔
      name ∈ tag.attributeNames tables := by
  have same : Table.keys (tag.properties.map fun entry => (entry.1, entry.2.toText)) =
      Table.keys tag.properties := List.map_map
  refine Table.mem_keys_insertAll.trans ?_
  rw [same, Tag.attributeNames, List.mem_append]
  rfl

theorem nodup_namesOf_elementOf
    (distinct : (Table.keys (Markup.settingsOf tables tag).defaults).Nodup)
    (content : Option String) :
    (Html.namesOf (Markup.elementOf tables tag content) options).Nodup ↔
      ¬tag.Clashes tables options := by
  have merged : (Table.keys (Markup.elementOf tables tag content).attributes).Nodup :=
    Table.nodup_keys_insertAll distinct _
  have id : (Markup.elementOf tables tag content).id.isSome = tag.id.isSome := Option.isSome_map
  have classes : (Markup.elementOf tables tag content).classes ≠ [] ↔ tag.classes ≠ [] :=
    not_congr List.map_eq_nil_iff
  rw [Html.nodup_namesOf merged]
  simp only [mem_keys_attributes_elementOf, id, classes, Tag.Clashes]

end Names

/-- Tags of one name have no attribute twice by default. -/
theorem nodup_defaults_builtin (tag : Tag) :
    (Table.keys (Markup.settingsOf Tables.builtin tag).defaults).Nodup := by
  have each : ∀ entry ∈ Tables.builtin.tagSettings, (Table.keys entry.2.defaults).Nodup := by
    decide +kernel
  rw [Markup.settingsOf]
  cases held : Tables.builtin.tagSettings.get? tag.name.toText with
  | none => exact List.nodup_nil
  | some settings => exact each _ (Table.mem_of_get? held)

theorem forall_nodup_namesOf_iff {tables : Tables} (builtin : tables.IsBuiltin)
    {dialect : Dialect} (html : dialect.family = .html) {options : RenderOptions}
    {tags : List Tag} {elements : List Element}
    (notes : Markup.Journal.Notes dialect tables tags elements) :
    (∀ element ∈ elements, (Html.namesOf element options).Nodup) ↔
      ∀ tag ∈ tags, Tables.builtin.writes .html tag → ¬tag.Clashes Tables.builtin options := by
  obtain ⟨aliases, rfl⟩ := builtin
  have writes (tag : Tag) : Tables.writes { Tables.builtin with aliases } dialect tag =
      Tables.builtin.writes .html tag := by
    rw [Tables.writes, Tables.writes, Tables.tagSnippet?, Tables.tagSnippet?, html]
    rfl
  rw [notes.forall_iff fun _ => Iff.rfl]
  refine forall₂_congr fun tag _ => ?_
  rw [writes]
  exact imp_congr_right fun _ => nodup_namesOf_elementOf (nodup_defaults_builtin tag) none

namespace Expander

/-- The start tags that an expansion writes, as the names of their attributes. -/
def startTags (expander : Expander) (abbreviation : String) (options : RenderOptions) :
    List (List String) :=
  match expander.prepare abbreviation options with
  | (.error _, _) => []
  | (.ok (filters, tree), expander) =>
    let dialect := Markup.dialectOf expander.tables options filters
    let (_, journal) := Markup.Journal.render dialect options tree { expander }
    if dialect.family = .html then journal.written.map (Html.namesOf · options) else []

/-- With the tables that come with the library, and whatever has been read before, the start
tags of an expansion have no name twice, exactly if the dialect is not one of HTML or no tag
that is written has an id beside an attribute `id`, or classes beside an attribute of the name
that theirs goes by. -/
theorem nodup_startTags_iff {tables : Tables} (builtin : tables.IsBuiltin)
    {source : Filler.ChaCha} {limits : Limits} {start expander : Expander}
    (built : build (some tables) source limits = .ok start)
    {operations : List Operation}
    (kept : ∀ tables, .replaceTables tables ∈ operations → tables.IsBuiltin)
    (reached : start.performAll operations = expander) {abbreviation output : String}
    {options : RenderOptions}
    (accepted : (expander.expandMarkup abbreviation options).1 = .ok output) :
    ∃ filters tree before times,
      expander.prepare abbreviation options = (.ok (filters, tree), before) ∧
      let dialect := Markup.dialectOf before.tables options filters
      output = Markup.escape^[times]
        (Markup.Journal.render dialect options tree { expander := before }).1 ∧
      ((∀ names ∈ expander.startTags abbreviation options, names.Nodup) ↔
        (dialect.family = .html → ∀ tag ∈ tree.tags, Tables.builtin.writes .html tag →
          ¬tag.Clashes Tables.builtin options)) := by
  have consistent := (Consistent.build built).performAll operations
  have begun : start.tables.IsBuiltin := by
    obtain ⟨-, rfl⟩ := build_eq_ok.mp built
    exact builtin
  have held := begun.performAll kept
  rw [reached] at consistent held
  have evolves := Evolves.prepare expander abbreviation options
  rw [expandMarkup_eq] at accepted
  rcases prepared : expander.prepare abbreviation options with ⟨_ | ⟨filters, tree⟩, before⟩
  · rw [prepared] at accepted
    contradiction
  · rw [prepared] at accepted evolves
    obtain ⟨times, rfl⟩ := Markup.eq_of_run accepted
    obtain ⟨elements, rendered, notes⟩ := Markup.Journal.render_spec { expander := before }
      (evolves.coherent consistent.coherent) tree
    refine ⟨filters, tree, before, times, rfl, by rw [rendered], ?_⟩
    simp only [startTags, prepared, rendered, Markup.Journal.note, List.nil_append]
    split
    · next html =>
      rw [List.forall_mem_map, forall_nodup_namesOf_iff (evolves.isBuiltin held) html notes]
      exact (imp_iff_right html).symm
    · next other => exact iff_of_true (List.forall_mem_nil _) fun html => absurd html other

/-- An alias is read, and the tables are put in anew. -/
def visits : List Operation :=
  [.expandMarkup "input:email" {}, .replaceTables Tables.builtin, .read "input:text#user"]

/-- A class and the attributes of an alias are apart. -/
theorem nodup_startTags_wide :
    ∃ start, setup (some Tables.builtin) 0 {} = .ok start ∧
      ((start.performAll visits).expandMarkup "!!!+input:text.wide" {}).1 =
        .ok "<!doctype html>\n<input class=\"wide\" type=\"text\" name=\"\" id=\"\"/>" ∧
      ∀ names ∈ (start.performAll visits).startTags "!!!+input:text.wide" {}, names.Nodup := by
  have built : setup (some Tables.builtin) 0 {} =
      .ok { tables := Tables.builtin, source := .ofSeed 0 } := rfl
  have kept : ∀ tables, .replaceTables tables ∈ visits → tables.IsBuiltin := by
    intro tables member
    obtain rfl : tables = Tables.builtin := by simpa [visits] using member
    exact ⟨_, rfl⟩
  generalize reached : performAll { tables := Tables.builtin, source := .ofSeed 0 }
    visits = expander
  have accepted : (expander.expandMarkup "!!!+input:text.wide" {}).1 =
      .ok "<!doctype html>\n<input class=\"wide\" type=\"text\" name=\"\" id=\"\"/>" := by
    rw [← reached]
    decide +kernel
  have apart : ∀ tag ∈ (match (expander.prepare "!!!+input:text.wide" {}).1 with
      | .ok (_, tree) => tree.tags
      | .error _ => []), ¬tag.Clashes Tables.builtin {} := by
    rw [← reached]
    decide +kernel
  obtain ⟨filters, tree, before, times, prepared, -, distinct⟩ :=
    nodup_startTags_iff ⟨_, rfl⟩ built kept reached accepted
  rw [prepared] at apart
  refine ⟨_, built, reached ▸ accepted, ?_⟩
  rw [reached]
  exact distinct.mpr fun _ tag member _ => apart tag member

/-- The caller gives the id, and the alias has an attribute for it. -/
theorem input_text_has_two_ids :
    ∃ start, setup (some Tables.builtin) 0 {} = .ok start ∧
      (start.expandMarkup "input:text#user" {}).1 =
        .ok "<input id=\"user\" type=\"text\" name=\"\" id=\"\"/>" ∧
      ∃ names ∈ start.startTags "input:text#user" {}, ¬names.Nodup :=
  ⟨_, rfl, by decide +kernel, by decide +kernel⟩

end Expander

end Shorthand
