import Mathlib
import Shorthand.Markup.Render
import Shorthand.Proofs.Session.Coherence
import Shorthand.Proofs.Text.Shift

/-! What the indentation does. The option is asked for only where a text is put on lines of
its own, so two renderings of one tree that differ in it are the same text moved sideways:
what is block and what is empty is the same in both, and snippets put the same margin in
front of lines that differ in their blanks alone. -/
namespace Shorthand.Markup

theorem isMargin_unit (options : RenderOptions) : IsMargin options.unit.toList := by
  rw [RenderOptions.unit, String.toList_ofList]
  intro c member
  obtain rfl := List.eq_of_mem_replicate member
  decide

section Parts

variable {parts parts' : List String} (each : List.Forall₂ Shifted parts parts')

include each

theorem isEmpty_eq_of_shifted : parts.isEmpty = parts'.isEmpty := by
  cases each <;> rfl

theorem any_isMultiline_eq_of_shifted : parts.any isMultiline = parts'.any isMultiline := by
  induction each with
  | nil => rfl
  | cons shifted _ ih => rw [List.any_cons, List.any_cons, shifted.isMultiline_eq, ih]

theorem shifted_indented (options options' : RenderOptions) :
    Shifted (String.join (parts.map (indent options.unit)))
      (String.join (parts'.map (indent options'.unit))) :=
  .join (List.forall₂_map_left_iff.mpr (List.forall₂_map_right_iff.mpr
    (each.imp fun _ _ shifted => shifted.indent (isMargin_unit _) (isMargin_unit _))))

end Parts

section Element

variable {element : Element} {content' : Option String}
  (content : Option.Rel Shifted element.content content')

include content

theorem parts_shifted :
    List.Forall₂ Shifted element.parts { element with content := content' }.parts := by
  refine List.rel_append (List.forall₂_same.mpr fun text _ => .refl text) ?_
  dsimp only
  generalize element.content = written at content
  cases content with
  | some shifted => exact .cons shifted .nil
  | none => exact .nil

theorem isSelfClosing_eq :
    element.isSelfClosing = { element with content := content' }.isSelfClosing :=
  congrArg (· && _) (isEmpty_eq_of_shifted (parts_shifted content))

theorem isBlock_eq : element.isBlock = { element with content := content' }.isBlock := by
  rw [Element.isBlock, any_isMultiline_eq_of_shifted (parts_shifted content),
    isEmpty_eq_of_shifted (parts_shifted content)]
  rfl

variable (options : RenderOptions) (indentation : Nat)

theorem html_shifted :
    Shifted (Html.write element options)
      (Html.write { element with content := content' } { options with indentation }) := by
  have inside : Shifted (Html.inside element options)
      (Html.inside { element with content := content' } { options with indentation }) := by
    rw [Html.inside, Html.inside, ← isBlock_eq content]
    split
    · exact (shifted_indented (parts_shifted content) _ _).append (.refl _)
    · exact .join (parts_shifted content)
  rw [Html.write, Html.write, ← isSelfClosing_eq content]
  split
  · exact .refl _
  · exact ((((Shifted.refl _).append inside).append (.refl _)).append (.refl _)).append (.refl _)

theorem haml_shifted :
    Shifted (Haml.write element options)
      (Haml.write { element with content := content' } { options with indentation }) := by
  rw [Haml.write, Haml.write, ← isSelfClosing_eq content]
  split
  · exact .refl _
  · exact (Shifted.refl _).append (shifted_indented (parts_shifted content) _ _)

theorem hiccup_shifted :
    Shifted (Hiccup.write element options)
      (Hiccup.write { element with content := content' } { options with indentation }) := by
  -- The text is quoted before the parts are put together, the content is not.
  have items : List.Forall₂ Shifted (Hiccup.items element)
      (Hiccup.items { element with content := content' }) :=
    @parts_shifted { element with text := element.text.map Hiccup.quote } content' content
  rw [Hiccup.write, Hiccup.write, ← isBlock_eq content]
  refine ((Shifted.refl _).append ?_).append (.refl _)
  split
  · exact shifted_indented items _ _
  · exact .join (List.forall₂_map_left_iff.mpr (List.forall₂_map_right_iff.mpr
      (items.imp fun _ _ shifted => (Shifted.refl " ").append shifted)))

theorem writeElement_shifted (dialect : Dialect) :
    Shifted (dialect.writeElement element options)
      (dialect.writeElement { element with content := content' }
        { options with indentation }) := by
  have html := html_shifted content options indentation
  cases dialect with
  | html => exact html
  | commentedHtml =>
    have selector : ({ element with content := content' } : Element).selector? =
        element.selector? := rfl
    rw [Dialect.writeElement, Html.writeCommented, Html.writeCommented, selector]
    cases element.selector? with
    | none => exact html
    | some selector =>
      exact ((((Shifted.refl _).append html).append (.refl _)).append (.refl _)).append (.refl _)
  | haml => exact haml_shifted content options indentation
  | hiccup => exact hiccup_shifted content options indentation

end Element

section Snippet

theorem isMargin_lastMargin (s : List Char) : IsMargin (Snippet.lastMargin s) := by
  intro c member
  refine ⟨List.mem_takeWhile_imp member, ?_⟩
  have line := (List.takeWhile_prefix _).subset member
  simpa using List.mem_takeWhile_imp (List.mem_reverse.mp line)

theorem isMargin_compile (source : String) : IsMargin (Snippet.compile source).margin.toList := by
  unfold Snippet.compile
  dsimp only
  split
  · rw [String.toList_ofList]
    exact isMargin_lastMargin _
  · exact isMargin_nil

/-- A compiled snippet puts one margin in front of the lines of its content. -/
theorem apply_shifted (source : String) {content content' : String}
    (shifted : Shifted content content') :
    Shifted ((Snippet.compile source).apply content) ((Snippet.compile source).apply content') := by
  have blank := isMargin_compile source
  exact ((Shifted.refl _).append (shifted.replaceChar blank blank)).append (.refl _)

/-- Every snippet that the expander keeps was compiled from some text. -/
def KeepsCompiled (expander : Expander) : Prop :=
  ∀ entry ∈ expander.snippets, ∃ source, entry.2 = Snippet.compile source

variable {expander : Expander}

/-- So it is after any session, since what is kept is what the tables hold. -/
theorem keepsCompiled_performAll {tables : Option Tables} {source : Filler.ChaCha}
    {limits : Limits} {start : Expander} (built : Expander.build tables source limits = .ok start)
    (operations : List Expander.Operation) : KeepsCompiled (start.performAll operations) := by
  rintro ⟨⟨family, name⟩, snippet⟩ member
  have coherent := ((Expander.Consistent.build built).performAll operations).coherent
  obtain ⟨source, -, compiled⟩ := coherent.snippets family name snippet member
  exact ⟨source, compiled⟩

theorem KeepsCompiled.snippet? (compiled : KeepsCompiled expander) (dialect : Dialect)
    (name : String) :
    KeepsCompiled (expander.snippet? dialect name).2 ∧
      ∀ snippet ∈ (expander.snippet? dialect name).1, ∃ source,
        snippet = Snippet.compile source := by
  unfold Expander.snippet?
  split
  · next snippet kept =>
    refine ⟨compiled, ?_⟩
    rintro _ ⟨⟩
    exact compiled _ (Table.mem_of_get? kept)
  · split
    · exact ⟨compiled, fun _ none => nomatch none⟩
    · next source _ =>
      refine ⟨fun entry member => ?_, ?_⟩
      · obtain kept | rfl := Table.mem_insert member
        · exact compiled entry kept
        · exact ⟨source, rfl⟩
      · rintro _ ⟨⟩
        exact ⟨source, rfl⟩

end Snippet

section Tree

variable {α : Type}

/-- What is written is related, what is left behind is the same, and it keeps nothing that
was not compiled. -/
structure Agree (related : α → α → Prop) (result result' : α × Expander) : Prop where
  written : related result.1 result'.1
  left : result.2 = result'.2
  compiled : KeepsCompiled result.2

variable {expander : Expander} (dialect : Dialect) (options : RenderOptions) (indentation : Nat)

theorem writeTag_shifted (compiled : KeepsCompiled expander) (tag : Tag)
    {children children' : String} (shifted : Shifted children children') :
    Agree Shifted (writeTag dialect options tag children expander)
      (writeTag dialect { options with indentation } tag children' expander) := by
  obtain ⟨compiled, found⟩ := compiled.snippet? dialect tag.name.toText
  have content : Option.Rel Shifted (if children.isEmpty then none else some children)
      (if children'.isEmpty then none else some children') := by
    rw [shifted.isEmpty_eq]
    split
    · exact .none
    · exact .some shifted
  unfold writeTag
  dsimp only
  generalize (if children.isEmpty then none else some children) = written at content ⊢
  generalize (if children'.isEmpty then none else some children') = written' at content ⊢
  rcases sought : expander.snippet? dialect tag.name.toText with ⟨_ | snippet, after⟩
  · rw [sought] at compiled
    have element : Option.Rel Shifted (elementOf after.tables tag written).content written' :=
      content
    exact ⟨writeElement_shifted element options indentation dialect, rfl, compiled⟩
  · rw [sought] at compiled found
    obtain ⟨source, rfl⟩ := found snippet rfl
    refine ⟨apply_shifted source (.joinLines (List.rel_append ?_ ?_)), rfl, compiled⟩
    · exact List.forall₂_same.mpr fun text _ => .refl text
    · cases content with
      | some shifted => exact .cons shifted .nil
      | none => exact .nil

mutual

theorem render_shifted {expander : Expander} (compiled : KeepsCompiled expander) (tree : Node) :
    Agree Shifted (render dialect options tree expander)
      (render dialect { options with indentation } tree expander) := by
  match tree with
  | .tag tag => exact writeTag_shifted dialect options indentation compiled tag (.refl "")
  | .nested parent child =>
    have inner := render_shifted compiled child
    rw [render, render]
    generalize render dialect options child expander = result at inner ⊢
    generalize render dialect { options with indentation } child expander = result' at inner ⊢
    obtain ⟨children, after⟩ := result
    obtain ⟨children', after'⟩ := result'
    obtain ⟨shifted, left, compiled⟩ := inner
    obtain rfl : after = after' := left
    exact writeTag_shifted dialect options indentation compiled parent shifted
  | .chain items | .copies items =>
    obtain ⟨each, left, compiled⟩ := renderAll_shifted compiled items
    rw [render, render]
    exact ⟨.joinLines each, left, compiled⟩
  | .text content => exact ⟨.refl _, rfl, compiled⟩
  | .filtered _ inner => exact render_shifted compiled inner
  | .filler words => exact ⟨.refl _, rfl, compiled⟩

theorem renderAll_shifted {expander : Expander} (compiled : KeepsCompiled expander)
    (items : List Node) :
    Agree (List.Forall₂ Shifted) (renderAll dialect options items expander)
      (renderAll dialect { options with indentation } items expander) := by
  match items with
  | [] => exact ⟨.nil, rfl, compiled⟩
  | item :: rest =>
    have first := render_shifted compiled item
    rw [renderAll, renderAll]
    generalize render dialect options item expander = result at first ⊢
    generalize render dialect { options with indentation } item expander = result' at first ⊢
    obtain ⟨part, after⟩ := result
    obtain ⟨part', after'⟩ := result'
    obtain ⟨shifted, left, compiled⟩ := first
    obtain rfl : after = after' := left
    obtain ⟨each, left, compiled⟩ := renderAll_shifted compiled rest
    exact ⟨.cons shifted each, left, compiled⟩

end

end Tree

/-- Renderings that differ in the indentation alone have the same lines, the first one
exactly and every further one behind its blanks, and leave the same behind. -/
theorem render_indentation {expander : Expander}
    (compiled : ∀ entry ∈ expander.snippets, ∃ source, entry.2 = Snippet.compile source)
    (dialect : Dialect) {options options' : RenderOptions}
    (same : options' = { options with indentation := options'.indentation }) (tree : Node) :
    (linesOf (render dialect options tree expander).1).length =
        (linesOf (render dialect options' tree expander).1).length ∧
      (linesOf (render dialect options tree expander).1).head? =
        (linesOf (render dialect options' tree expander).1).head? ∧
      (linesOf (render dialect options tree expander).1).tail.map (trimStart ·.toList) =
        (linesOf (render dialect options' tree expander).1).tail.map (trimStart ·.toList) ∧
      (render dialect options tree expander).2 = (render dialect options' tree expander).2 := by
  rw [same]
  obtain ⟨shifted, left, -⟩ := render_shifted dialect options options'.indentation compiled tree
  obtain ⟨count, first, further⟩ := shifted.lines
  exact ⟨count, first, further, left⟩

/-- A list with two items, in a tag that a snippet replaces. -/
def card : Node :=
  .nested { name := .ofText "card" } (.nested { name := .ofText "ul" } (.copies
    [.tag { name := .ofText "li", text := some (.ofText "one") },
      .tag { name := .ofText "li", text := some (.ofText "two") }]))

/-- The snippet is kept; its margin is a tab. -/
def cards : Expander where
  tables := Tables.empty.withTagSnippet .html "card" "<div>\n\t${child}\n</div>"
  source := .ofSeed 0
  snippets := [((.html, "card"), .compile "<div>\n\t${child}\n</div>")]

/-- With four blanks for each level the lines are those with one, behind more blanks. -/
theorem render_indentation_card :
    linesOf (render .html { indentation := 1 } card cards).1 =
        ["<div>", "\t<ul>", "\t <li>one</li>", "\t <li>two</li>", "\t</ul>", "</div>"] ∧
      (linesOf (render .html {} card cards).1).head? = some "<div>" ∧
      (linesOf (render .html {} card cards).1).tail.map (trimStart ·.toList) =
        ["<ul>", "<li>one</li>", "<li>two</li>", "</ul>", "</div>"].map String.toList := by
  have built : Expander.build (some cards.tables) cards.source {} =
      .ok { cards with snippets := [] } := rfl
  have reached : ({ cards with snippets := [] } : Expander).performAll [.render .html {} card] =
      cards := by cbv
  have compiled : KeepsCompiled cards := reached ▸ keepsCompiled_performAll built _
  have same : ({ indentation := 1 } : RenderOptions) =
      { ({} : RenderOptions) with indentation := 1 } := rfl
  obtain ⟨-, first, further, -⟩ := render_indentation compiled .html same card
  have narrow : linesOf (render .html { indentation := 1 } card cards).1 =
      ["<div>", "\t<ul>", "\t <li>one</li>", "\t <li>two</li>", "\t</ul>", "</div>"] := by cbv
  rw [narrow] at first further
  exact ⟨narrow, first, further.trans (by cbv)⟩

end Shorthand.Markup
