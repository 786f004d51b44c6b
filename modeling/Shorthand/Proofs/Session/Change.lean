import Shorthand.Expand

/-! What an expander goes through. Whatever is done with an expander, short of replacing its
tables, leaves the tables as they are but for the aliases, and everything that is compiled
on the way is compiled from what the tables hold. -/
namespace Shorthand.Expander

/-- All that is kept compiled is compiled from what the tables hold under its key. -/
structure Coherent (expander : Expander) : Prop where
  snippets : ∀ family name snippet, ((family, name), snippet) ∈ expander.snippets →
    ∃ source, (expander.tables.tagSnippets.get? family).bind (·.get? name) = some source ∧
      snippet = Snippet.compile source
  formatters : ∀ flavour key formatter, ((flavour, key), formatter) ∈ expander.formatters →
    ∃ source, (expander.tables.styleSnippets.get? flavour).bind (·.get? key) = some source ∧
      formatter = Style.Formatter.compile source

/-- What is read of an abbreviation and handed to its filters. -/
def prepare (expander : Expander) (abbreviation : String) (options : RenderOptions) :
    Except Failure (List Filter × Node) × Expander :=
  match expander.read (trimmed abbreviation) with
  | (.error failure, expander) => (.error failure, expander)
  | (.ok tree, expander) =>
    match expander.chainFor options tree with
    | .error failure => (.error failure, expander)
    | .ok (filters, tree) =>
      let (tree, expander) := fill tree expander
      (tree.map (filters, ·), expander)

theorem expandMarkup_eq (expander : Expander) (abbreviation : String) (options : RenderOptions) :
    expander.expandMarkup abbreviation options =
      match expander.prepare abbreviation options with
      | (.error failure, expander) => (.error failure, expander)
      | (.ok (filters, tree), expander) => Markup.run filters tree options expander := by
  unfold expandMarkup prepare
  rcases expander.read (trimmed abbreviation) with ⟨_ | tree, expander⟩
  · rfl
  · dsimp only
    rcases expander.chainFor options tree with _ | ⟨filters, tree⟩
    · rfl
    · dsimp only
      rcases fill tree expander with ⟨_ | tree, expander⟩ <;> rfl

/-- One expander may come from the other by expansions. -/
structure Evolves (before after : Expander) : Prop where
  tables : after.tables = { before.tables with aliases := after.tables.aliases }
  limits : after.limits = before.limits
  coherent : before.Coherent → after.Coherent

namespace Evolves

variable {before middle after expander : Expander}

theorem refl (expander : Expander) : Evolves expander expander := ⟨rfl, rfl, id⟩

theorem trans (first : Evolves before middle) (second : Evolves middle after) :
    Evolves before after where
  tables := by rw [second.tables, first.tables]
  limits := second.limits.trans first.limits
  coherent := second.coherent ∘ first.coherent

theorem check (evolves : Evolves before after) : after.tables.check = before.tables.check := by
  rw [evolves.tables]
  rfl

/-- Neither the aliases nor the random source are compiled from. -/
theorem of_aliases_source (expander : Expander) (aliases : AliasTable) (source : Filler.ChaCha) :
    Evolves expander { expander with tables := { expander.tables with aliases }, source } :=
  ⟨rfl, rfl, fun ⟨snippets, formatters⟩ => ⟨snippets, formatters⟩⟩

theorem read (expander : Expander) (abbreviation : String) :
    Evolves expander (expander.read abbreviation).2 :=
  of_aliases_source expander _ expander.source

theorem fillerText (expander : Expander) (words : Nat) :
    Evolves expander (expander.fillerText words).2 :=
  of_aliases_source expander expander.tables.aliases _

theorem snippet? (expander : Expander) (dialect : Dialect) (name : String) :
    Evolves expander (expander.snippet? dialect name).2 := by
  unfold Expander.snippet?
  split
  · exact .refl expander
  · split
    · exact .refl expander
    · next source held =>
      refine ⟨rfl, rfl, fun coherent => ⟨fun family other snippet h => ?_, coherent.formatters⟩⟩
      obtain kept | new := Table.mem_insert h
      · exact coherent.snippets family other snippet kept
      · cases new
        exact ⟨source, held, rfl⟩

theorem formatter? (expander : Expander) (flavour : StyleFlavour) (key : String) :
    Evolves expander (expander.formatter? flavour key).2 := by
  unfold Expander.formatter?
  split
  · exact .refl expander
  · split
    · exact .refl expander
    · next source held =>
      refine ⟨rfl, rfl, fun coherent => ⟨coherent.snippets, fun flavour key formatter h => ?_⟩⟩
      obtain kept | new := Table.mem_insert h
      · exact coherent.formatters flavour key formatter kept
      · cases new
        exact ⟨source, held, rfl⟩

section Markup

variable {dialect : Dialect} {options : RenderOptions}

theorem writeTag (tag : Tag) (children : String) (expander : Expander) :
    Evolves expander (Markup.writeTag dialect options tag children expander).2 := by
  have sought := snippet? expander dialect tag.name.toText
  unfold Markup.writeTag
  dsimp only
  split <;> next found => rw [found] at sought; exact sought

mutual

theorem render (node : Node) (expander : Expander) :
    Evolves expander (Markup.render dialect options node expander).2 := by
  match node with
  | .tag tag => exact writeTag tag "" expander
  | .nested parent child => exact (render child expander).trans (writeTag parent _ _)
  | .chain items | .copies items => exact renderAll items expander
  | .text _ => exact .refl expander
  | .filtered _ inner => exact render inner expander
  | .filler words => exact fillerText expander words

theorem renderAll (items : List Node) (expander : Expander) :
    Evolves expander (Markup.renderAll dialect options items expander).2 := by
  match items with
  | [] => exact .refl expander
  | item :: rest => exact (render item expander).trans (renderAll rest _)

end

theorem runRenderer (filters : List Filter) (tree : Node) (expander : Expander) :
    Evolves expander (Markup.runRenderer filters tree options expander).2 := by
  unfold Markup.runRenderer
  split
  exact render tree expander

theorem run (filters : List Filter) (tree : Node) (expander : Expander) :
    Evolves expander (Markup.run filters tree options expander).2 := by
  unfold Markup.run
  split
  · exact runRenderer _ tree expander
  · exact runRenderer _ tree expander

end Markup

mutual

theorem fill (node : Node) (expander : Expander) :
    Evolves expander (Expander.fill node expander).2 := by
  match node with
  | .filler words =>
    unfold Expander.fill
    split
    · exact .refl expander
    · exact fillerText expander words
  | .nested parent child => exact fill child expander
  | .chain items | .copies items => exact fillAll items expander
  | .filtered _ inner => exact fill inner expander
  | .tag _ | .text _ => exact .refl expander

theorem fillAll (items : List Node) (expander : Expander) :
    Evolves expander (Expander.fillAll items expander).2 := by
  match items with
  | [] => exact .refl expander
  | item :: rest =>
    have first := fill item expander
    unfold Expander.fillAll
    split
    · next failed =>
      rw [failed] at first
      exact first
    · next filled =>
      rw [filled] at first
      exact first.trans (fillAll rest _)

end

theorem prepare (expander : Expander) (abbreviation : String) (options : RenderOptions) :
    Evolves expander (expander.prepare abbreviation options).2 := by
  have read := read expander (trimmed abbreviation)
  unfold Expander.prepare
  split
  · next failed =>
    rw [failed] at read
    exact read
  · next tree expander' found =>
    rw [found] at read
    split
    · exact read
    · next filters tree _ => exact read.trans (fill tree expander')

theorem expandMarkup (expander : Expander) (abbreviation : String) (options : RenderOptions) :
    Evolves expander (expander.expandMarkup abbreviation options).2 := by
  have prepared := prepare expander abbreviation options
  rw [expandMarkup_eq]
  split
  · next failed =>
    rw [failed] at prepared
    exact prepared
  · next filters tree before done =>
    rw [done] at prepared
    exact prepared.trans (run filters tree before)

theorem writeAll (expander : Expander) (flavour : StyleFlavour) (tokens : List (List Char)) :
    Evolves expander (Style.writeAll expander flavour tokens).2 := by
  induction tokens generalizing expander with
  | nil => exact .refl expander
  | cons token rest ih => exact (formatter? expander flavour _).trans (ih _)

theorem expandStyle (expander : Expander) (abbreviation : String) (options : RenderOptions) :
    Evolves expander (expander.expandStyle abbreviation options).2 := by
  unfold Expander.expandStyle
  split
  · exact .refl expander
  · exact writeAll expander options.flavour _

end Evolves

end Shorthand.Expander
