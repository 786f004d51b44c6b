import Shorthand.Proofs.Markup.Spelling
import Shorthand.Proofs.Node.Parts

/-! HAML as an outline. Children are written first and indented by each tag around them, so
a line is changed once for every level that it stands below. An outline is made from the
outside: it gives each line the depth at which it stands. -/
namespace Shorthand.Haml

open Markup

/-- A line and the number of levels above it. -/
structure Line where
  depth : Nat
  text : String
deriving DecidableEq

def Line.write (unit : String) (line : Line) : String :=
  String.join (List.replicate line.depth unit) ++ line.text

def Line.deeper (line : Line) : Line := { line with depth := line.depth + 1 }

/-- A text on lines of one depth. -/
def linesAt (depth : Nat) (text : String) : List Line := (linesOf text).map (Line.mk depth)

/-- A tag with nothing below its header is closed if it has no body or is void. -/
def closes (tables : Tables) (tag : Tag) (below : List Line) : Bool :=
  tag.text.isNone && below.isEmpty && (!tag.hasBody || (settingsOf tables tag).selfClosing)

/-- The header of a tag, its text one level deeper, and the lines of its children. -/
def tagOutline (tables : Tables) (depth : Nat) (tag : Tag) (below : List Line) : List Line :=
  linesAt depth
      (header (elementOf tables tag none) ++ if closes tables tag below then "/" else "") ++
    tag.text.toList.flatMap (fun text => linesAt (depth + 1) text.toText) ++ below

mutual

def outline (tables : Tables) (depth : Nat) : Node → List Line
  | .tag tag => tagOutline tables depth tag []
  | .nested parent child => tagOutline tables depth parent (outline tables (depth + 1) child)
  | .chain items | .copies items => outlines tables depth items
  | .text content => if content.toText.isEmpty then [] else linesAt depth content.toText
  | .filtered _ inner => outline tables depth inner
  | .filler _ => []

def outlines (tables : Tables) (depth : Nat) : List Node → List Line
  | [] => []
  | item :: rest => outline tables depth item ++ outlines tables depth rest

end

/-- The lines of an outline below one another. -/
def writeLines (unit : String) (lines : List Line) : String :=
  "\n".intercalate (lines.map (Line.write unit))

section Depth

variable {tables : Tables} {depth : Nat} {tag : Tag} {below : List Line}

theorem linesAt_succ (depth : Nat) (text : String) :
    linesAt (depth + 1) text = (linesAt depth text).map Line.deeper := by
  rw [linesAt, linesAt, List.map_map]
  rfl

theorem closes_deeper : closes tables tag (below.map Line.deeper) = closes tables tag below := by
  rw [closes, List.isEmpty_map]
  rfl

theorem tagOutline_succ (below : List Line) :
    tagOutline tables (depth + 1) tag (below.map Line.deeper) =
      (tagOutline tables depth tag below).map Line.deeper := by
  simp only [tagOutline, closes_deeper, linesAt_succ, List.map_append, List.map_flatMap]

mutual

theorem outline_succ (depth : Nat) (node : Node) :
    outline tables (depth + 1) node = (outline tables depth node).map Line.deeper := by
  match node with
  | .tag tag => exact tagOutline_succ []
  | .nested parent child =>
    rw [outline, outline, outline_succ (depth + 1) child, tagOutline_succ]
  | .chain items | .copies items => simp only [outline, outlines_succ depth items]
  | .text content =>
    simp only [outline]
    split
    · rfl
    · exact linesAt_succ depth content.toText
  | .filtered _ inner => simp only [outline, outline_succ depth inner]
  | .filler _ => rfl

theorem outlines_succ (depth : Nat) (items : List Node) :
    outlines tables (depth + 1) items = (outlines tables depth items).map Line.deeper := by
  match items with
  | [] => rfl
  | item :: rest =>
    simp only [outlines, outline_succ depth item, outlines_succ depth rest, List.map_append]

end

end Depth

section Lines

variable {tables : Tables} {unit : String}

theorem isMultiline_of_mem_linesAt {depth : Nat} {text : String} :
    ∀ line ∈ linesAt depth text, isMultiline line.text = false := by
  intro line member
  obtain ⟨part, here, rfl⟩ := List.mem_map.mp member
  exact isMultiline_of_mem_linesOf here

theorem isMultiline_of_mem_tagOutline {depth : Nat} {tag : Tag} {below : List Line}
    (single : ∀ line ∈ below, isMultiline line.text = false) :
    ∀ line ∈ tagOutline tables depth tag below, isMultiline line.text = false := by
  simp only [tagOutline, List.forall_mem_append]
  refine ⟨⟨isMultiline_of_mem_linesAt, fun line member => ?_⟩, single⟩
  obtain ⟨text, -, here⟩ := List.mem_flatMap.mp member
  exact isMultiline_of_mem_linesAt line here

mutual

theorem isMultiline_of_mem_outline (depth : Nat) (node : Node) :
    ∀ line ∈ outline tables depth node, isMultiline line.text = false := by
  match node with
  | .tag tag => exact isMultiline_of_mem_tagOutline (List.forall_mem_nil _)
  | .nested parent child =>
    exact isMultiline_of_mem_tagOutline (isMultiline_of_mem_outline (depth + 1) child)
  | .chain items | .copies items => exact isMultiline_of_mem_outlines depth items
  | .text content =>
    rw [outline]
    split
    · exact List.forall_mem_nil _
    · exact isMultiline_of_mem_linesAt
  | .filtered _ inner => exact isMultiline_of_mem_outline depth inner
  | .filler _ => exact List.forall_mem_nil _

theorem isMultiline_of_mem_outlines (depth : Nat) (items : List Node) :
    ∀ line ∈ outlines tables depth items, isMultiline line.text = false := by
  match items with
  | [] => exact List.forall_mem_nil _
  | item :: rest =>
    exact List.forall_mem_append.mpr
      ⟨isMultiline_of_mem_outline depth item, isMultiline_of_mem_outlines depth rest⟩

end

theorem isMultiline_unit (options : RenderOptions) : isMultiline options.unit = false := by
  simp [isMultiline, RenderOptions.unit]

theorem isMultiline_write (plain : isMultiline unit = false) {line : Line}
    (single : isMultiline line.text = false) : isMultiline (line.write unit) = false := by
  have blanks : ∀ depth, isMultiline (String.join (List.replicate depth unit)) = false := by
    intro depth
    induction depth with
    | zero => rfl
    | succ depth ih =>
      rw [List.replicate_succ, String.join_cons, isMultiline_append, plain, ih]
      rfl
  rw [Line.write, isMultiline_append, blanks, single]
  rfl

theorem write_deeper (unit : String) (line : Line) :
    line.deeper.write unit = unit ++ line.write unit := by
  simp only [Line.write, Line.deeper, List.replicate_succ, String.join_cons, String.append_assoc]

/-- What is indented as a whole stands one level deeper line by line. -/
theorem indent_writeLines (plain : isMultiline unit = false) {lines : List Line}
    (nonempty : lines ≠ []) (single : ∀ line ∈ lines, isMultiline line.text = false) :
    indent unit (writeLines unit lines) =
      breaks ((lines.map Line.deeper).map (Line.write unit)) := by
  have written : ∀ line ∈ lines.map (Line.write unit), isMultiline line = false :=
    List.forall_mem_map.mpr fun line member => isMultiline_write plain (single line member)
  rw [writeLines, indent_intercalate (by simpa using nonempty) written, List.map_map,
    List.map_map]
  exact congrArg breaks (List.map_congr_left fun line _ => (write_deeper unit line).symm)

theorem writeLines_linesAt (unit text : String) : writeLines unit (linesAt 0 text) = text := by
  have written : (linesAt 0 text).map (Line.write unit) = linesOf text := by
    rw [linesAt, List.map_map]
    exact List.map_id'' (fun line => String.empty_append) _
  rw [writeLines, written, intercalate_linesOf]

theorem indent_text (plain : isMultiline unit = false) (text : String) :
    indent unit text = breaks ((linesAt 1 text).map (Line.write unit)) := by
  have nonempty : linesAt 0 text ≠ [] := by simpa [linesAt] using linesOf_ne_nil text
  have indented := indent_writeLines plain nonempty isMultiline_of_mem_linesAt
  rwa [writeLines_linesAt, ← linesAt_succ] at indented

theorem writeLines_append {first : List Line} (nonempty : first ≠ []) (last : List Line) :
    writeLines unit (first ++ last) =
      writeLines unit first ++ breaks (last.map (Line.write unit)) := by
  rw [writeLines, List.map_append, intercalate_append (by simpa using nonempty)]
  rfl

end Lines

section Tag

variable {tables : Tables} {expander : Expander} {options : RenderOptions} {tag : Tag}
  {below : List Line}

theorem selectorText_ne_empty {element : Element} (present : element.selector?.isSome) :
    element.selectorText ≠ "" := by
  unfold Element.selector? at present
  unfold Element.selectorText
  cases id : element.id with
  | some value => simp [String.join_cons]
  | none =>
    cases classes : element.classes with
    | nil => simp [id, classes] at present
    | cons first rest => simp [String.join_cons]

theorem header_ne_empty (element : Element) : header element ≠ "" := by
  unfold header
  split
  · next implied => simp [selectorText_ne_empty implied.2]
  · simp

/-- A closed element has no parts to indent. -/
theorem write_eq (element : Element) (options : RenderOptions) :
    write element options =
      header element ++ (if element.isSelfClosing then "/" else "") ++
        String.join (element.parts.map (indent options.unit)) := by
  unfold write
  split
  · next closed =>
    have bare : element.parts = [] := by
      simpa using (Bool.and_eq_true_iff.mp closed).1
    rw [bare, List.map_nil, String.join_nil, String.append_empty]
  · rw [String.append_empty]

theorem writeLines_tagOutline (tables : Tables) (tag : Tag) (below : List Line) (unit : String) :
    writeLines unit (tagOutline tables 0 tag below) =
      header (elementOf tables tag none) ++ (if closes tables tag below then "/" else "") ++
        breaks ((tag.text.toList.flatMap (fun text => linesAt 1 text.toText) ++ below).map
          (Line.write unit)) := by
  have nonempty : ∀ text, linesAt 0 text ≠ [] := fun text => by
    simpa [linesAt] using linesOf_ne_nil text
  rw [tagOutline, List.append_assoc, writeLines_append (nonempty _), writeLines_linesAt]

theorem writeLines_tagOutline_ne_empty : writeLines unit (tagOutline tables 0 tag below) ≠ "" := by
  rw [writeLines_tagOutline]
  simp [header_ne_empty]

/-- What a tag is given as the content of its element. -/
theorem content_eq (below : List Line)
    (single : ∀ line ∈ below, isMultiline line.text = false)
    (shown : writeLines options.unit below = "" → below = []) :
    ∃ content : Option String,
      content = (if (writeLines options.unit below).isEmpty then none
        else some (writeLines options.unit below)) ∧
      content.isNone = below.isEmpty ∧
      String.join (content.toList.map (indent options.unit)) =
        breaks ((below.map Line.deeper).map (Line.write options.unit)) := by
  refine ⟨_, rfl, ?_⟩
  split
  · next empty =>
    obtain rfl := shown (String.isEmpty_iff.mp empty)
    exact ⟨rfl, rfl⟩
  · next filled =>
    have nonempty : below ≠ [] := fun empty => filled (by rw [empty]; rfl)
    refine ⟨by simpa using nonempty, ?_⟩
    rw [← indent_writeLines (isMultiline_unit options) nonempty single]
    exact String.join_cons.trans String.append_empty

theorem join_indent_text (tag : Tag) (options : RenderOptions) :
    String.join ((tag.text.map Template.toText).toList.map (indent options.unit)) =
      breaks ((tag.text.toList.flatMap fun text => linesAt 1 text.toText).map
        (Line.write options.unit)) := by
  cases tag.text with
  | none => rfl
  | some text => simp [indent_text (isMultiline_unit options), String.join_cons]

/-- A tag around lines that are written already is its outline around these lines. -/
theorem writeTag_eq (bare : (expander.snippet? .haml tag.name.toText).1 = none)
    (below : List Line) (single : ∀ line ∈ below, isMultiline line.text = false)
    (shown : writeLines options.unit below = "" → below = []) :
    writeTag .haml options tag (writeLines options.unit below) expander =
      (writeLines options.unit (tagOutline expander.tables 0 tag (below.map Line.deeper)),
        expander) := by
  obtain ⟨content, given, empty, inside⟩ := content_eq below single shown
  have closed : (elementOf expander.tables tag content).isSelfClosing =
      closes expander.tables tag (below.map Line.deeper) := by
    rw [closes_deeper, isSelfClosing_elementOf, empty]
    rfl
  have parts : (elementOf expander.tables tag content).parts =
      (tag.text.map Template.toText).toList ++ content.toList := rfl
  have written : Haml.write (elementOf expander.tables tag content) options =
      writeLines options.unit (tagOutline expander.tables 0 tag (below.map Line.deeper)) := by
    rw [write_eq, writeLines_tagOutline, List.map_append, breaks_append, ← inside,
      ← join_indent_text, ← String.join_append, ← List.map_append, ← parts, ← closed]
    rfl
  rw [writeTag, snippet?_eq_self bare, ← given, ← written]
  rfl

end Tag

section Tree

variable {tables : Tables} {unit : String} {expander : Expander} {options : RenderOptions}

theorem outlines_eq (tables : Tables) (depth : Nat) (items : List Node) :
    outlines tables depth items = (items.map (outline tables depth)).flatten := by
  induction items with
  | nil => rfl
  | cons item rest ih => rw [outlines, List.map_cons, List.flatten_cons, ih]

/-- Items below one another, where those without lines leave no trace. -/
theorem joinLines_writeLines {items : List Node}
    (shown : ∀ item ∈ items, writeLines unit (outline tables 0 item) = "" →
      outline tables 0 item = []) :
    joinLines (items.map fun item => writeLines unit (outline tables 0 item)) =
      writeLines unit (outlines tables 0 items) := by
  have groups : ∀ group ∈ items.map fun item => (outline tables 0 item).map (Line.write unit),
      "\n".intercalate group = "" → group = [] := by
    intro group member empty
    obtain ⟨item, here, rfl⟩ := List.mem_map.mp member
    rw [shown item here empty, List.map_nil]
  have joined := joinLines_intercalate groups
  rw [List.map_map] at joined
  rw [outlines_eq, writeLines, List.map_flatten, List.map_map]
  exact joined

mutual

theorem outline_eq_nil (node : Node) :
    writeLines unit (outline tables 0 node) = "" → outline tables 0 node = [] := by
  match node with
  | .tag _ | .nested _ _ =>
    rw [outline]
    exact fun empty => absurd empty writeLines_tagOutline_ne_empty
  | .chain items | .copies items =>
    intro empty
    have each := outline_eq_nil_of_mem items
    rw [outline, ← joinLines_writeLines each, joinLines_eq_empty, List.forall_mem_map] at empty
    rw [outline, outlines_eq, List.flatten_eq_nil_iff, List.forall_mem_map]
    exact fun item member => each item member (empty item member)
  | .text content =>
    rw [outline]
    split
    · exact fun _ => rfl
    · next filled =>
      rw [writeLines_linesAt]
      exact fun empty => absurd (String.isEmpty_iff.mpr empty) filled
  | .filtered _ inner =>
    rw [outline]
    exact outline_eq_nil inner
  | .filler _ => exact fun _ => rfl

theorem outline_eq_nil_of_mem (items : List Node) :
    ∀ item ∈ items, writeLines unit (outline tables 0 item) = "" → outline tables 0 item = [] := by
  match items with
  | [] => exact List.forall_mem_nil _
  | item :: rest =>
    exact List.forall_mem_cons.mpr ⟨outline_eq_nil item, outline_eq_nil_of_mem rest⟩

end

mutual

theorem render_outline (tree : Node) (unfilled : tree.hasFiller = false)
    (bare : ∀ tag ∈ tree.tags, (expander.snippet? .haml tag.name.toText).1 = none) :
    render .haml options tree expander =
      (writeLines options.unit (outline expander.tables 0 tree), expander) := by
  match tree with
  | .tag tag =>
    exact writeTag_eq (bare tag List.mem_cons_self) [] (List.forall_mem_nil _) fun _ => rfl
  | .nested parent child =>
    obtain ⟨outer, inner⟩ := List.forall_mem_cons.mp bare
    -- The child is written as if it stood alone, and its lines move down with the tag.
    rw [render, render_outline child unfilled inner, outline, outline_succ]
    exact writeTag_eq outer _ (isMultiline_of_mem_outline 0 child) (outline_eq_nil child)
  | .chain items | .copies items =>
    rw [render, renderAll_outline items unfilled bare, outline,
      ← joinLines_writeLines (outline_eq_nil_of_mem items)]
  | .text content =>
    rw [render, outline]
    split
    · next empty => rw [String.isEmpty_iff.mp empty]; rfl
    · rw [writeLines_linesAt]; rfl
  | .filtered _ inner =>
    rw [render, render_outline inner unfilled bare, outline]
  | .filler _ => contradiction

theorem renderAll_outline (items : List Node) (unfilled : Node.haveFiller items = false)
    (bare : ∀ tag ∈ Node.tagsIn items, (expander.snippet? .haml tag.name.toText).1 = none) :
    renderAll .haml options items expander =
      (items.map fun item => writeLines options.unit (outline expander.tables 0 item),
        expander) := by
  match items with
  | [] => rfl
  | item :: rest =>
    obtain ⟨first, later⟩ := Bool.or_eq_false_iff.mp unfilled
    obtain ⟨here, there⟩ := List.forall_mem_append.mp bare
    rw [renderAll, render_outline item first here, List.map_cons]
    simp only [renderAll_outline rest later there]

end

end Tree

/-- What is rendered as HAML are the lines of the outline, each behind as many units as there
are levels above it. -/
theorem render_eq_outline (options : RenderOptions) (tree : Node) (expander : Expander)
    (unfilled : tree.hasFiller = false)
    (bare : ∀ tag ∈ tree.tags, (expander.snippet? .haml tag.name.toText).1 = none) :
    render .haml options tree expander =
      ("\n".intercalate ((outline expander.tables 0 tree).map (Line.write options.unit)),
        expander) :=
  render_outline tree unfilled bare

/-- A list with text of two lines, an empty item, an item around text, and a void tag. -/
def agenda : Node :=
  .nested { name := .ofText "div", classes := [.ofText "list"] } (.chain [
    .nested { name := .ofText "ul", text := some (.ofText "two\nlines") } (.copies
      [.tag { name := .ofText "li" }, .nested { name := .ofText "li" } (.text (.ofText "a\nb")),
        .nested { name := .ofText "li", text := some (.ofText "") } (.copies [])]),
    .tag { name := .ofText "br" }])

theorem render_eq_outline_agenda :
    agenda.hasFiller = false ∧
      (∀ tag ∈ agenda.tags, (listingExpander.snippet? .haml tag.name.toText).1 = none) ∧
      (render .haml { indentation := 2 } agenda listingExpander).1 = "\n".intercalate
        [".list", "  %ul", "    two", "    lines", "    %li", "    %li", "      a", "      b",
          "    %li", "      ", "  %br/"] := by
  have bare : ∀ tag ∈ agenda.tags,
      (listingExpander.snippet? .haml tag.name.toText).1 = none := by decide
  refine ⟨rfl, bare, ?_⟩
  rw [render_eq_outline _ agenda listingExpander rfl bare]
  cbv

end Shorthand.Haml
