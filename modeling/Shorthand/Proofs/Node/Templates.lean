import Shorthand.Proofs.Node.Parts

/-! The templates of a tree: names, ids, classes, attribute values and texts, wherever they
stand in it. A function on templates changes all of them and nothing else. What is left of a
tree whose templates are emptied is its shape, which no such function changes. -/
namespace Shorthand

variable {f g : Template → Template}

def Piece.number? : Piece → Option Numbering
  | .char _ => none
  | .number n => some n

/-- The tokens of a template, in order. -/
def Template.numbers (t : Template) : List Numbering := t.pieces.filterMap Piece.number?

namespace Tag

/-- The templates of a tag, in the order in which they are written. -/
def templates (tag : Tag) : List Template :=
  tag.name :: (tag.id.toList ++ tag.classes ++ tag.properties.map Prod.snd ++ tag.text.toList)

def mapTemplates (f : Template → Template) (tag : Tag) : Tag :=
  { name := f tag.name
    hasBody := tag.hasBody
    id := tag.id.map f
    classes := tag.classes.map f
    properties := tag.properties.map fun (key, value) => (key, f value)
    text := tag.text.map f }

theorem templates_mapTemplates (f : Template → Template) (tag : Tag) :
    (tag.mapTemplates f).templates = tag.templates.map f := by
  simp [templates, mapTemplates, Option.toList_map, Function.comp_def]

theorem mapTemplates_id (tag : Tag) : (tag.mapTemplates fun t => t) = tag := by
  simp [mapTemplates]

theorem mapTemplates_mapTemplates (f g : Template → Template) (tag : Tag) :
    (tag.mapTemplates f).mapTemplates g = tag.mapTemplates fun t => g (f t) := by
  simp [mapTemplates, Function.comp_def]

theorem mapTemplates_congr {tag : Tag} (same : ∀ t ∈ tag.templates, f t = g t) :
    tag.mapTemplates f = tag.mapTemplates g := by
  simp only [templates, List.forall_mem_cons, List.forall_mem_append, List.forall_mem_map,
    Option.mem_toList] at same
  obtain ⟨name, ⟨⟨ident, classes⟩, properties⟩, text⟩ := same
  have values : tag.properties.map (fun (key, value) => (key, f value)) =
      tag.properties.map fun (key, value) => (key, g value) :=
    List.map_congr_left fun entry member => Prod.ext rfl (properties entry member)
  simp only [mapTemplates, name, Option.map_congr ident, List.map_congr_left classes, values,
    Option.map_congr text]

end Tag

namespace Node

mutual

/-- The templates of a tree, depth first and from the left. -/
def templates : Node → List Template
  | .tag t => t.templates
  | .text content => [content]
  | .copies items | .chain items => templatesIn items
  | .nested parent child => parent.templates ++ child.templates
  | .filtered _ inner => inner.templates
  | .filler _ => []

def templatesIn : List Node → List Template
  | [] => []
  | item :: rest => item.templates ++ templatesIn rest

end

/-- The numbering tokens of a tree. -/
def numbers (node : Node) : List Numbering := node.templates.flatMap Template.numbers

mutual

def mapTemplates (f : Template → Template) : Node → Node
  | .tag t => .tag (t.mapTemplates f)
  | .text content => .text (f content)
  | .copies items => .copies (mapTemplatesIn f items)
  | .chain items => .chain (mapTemplatesIn f items)
  | .nested parent child => .nested (parent.mapTemplates f) (child.mapTemplates f)
  | .filtered filters inner => .filtered filters (inner.mapTemplates f)
  | .filler words => .filler words

def mapTemplatesIn (f : Template → Template) : List Node → List Node
  | [] => []
  | item :: rest => item.mapTemplates f :: mapTemplatesIn f rest

end

/-- What is left of a tree whose templates are emptied: the kinds of its nodes, its tags with
their flags and attribute names, its filters and the filler text it asks for. -/
def shape (node : Node) : Node := node.mapTemplates fun _ => .empty

theorem mapTemplatesIn_eq (f : Template → Template) (items : List Node) :
    mapTemplatesIn f items = items.map (mapTemplates f) := by
  induction items with
  | nil => rfl
  | cons item rest ih => rw [mapTemplatesIn, ih, List.map_cons]

theorem templatesIn_eq (items : List Node) : templatesIn items = items.flatMap templates := by
  induction items with
  | nil => rfl
  | cons item rest ih => rw [templatesIn, ih, List.flatMap_cons]

mutual

theorem templates_mapTemplates (f : Template → Template) (node : Node) :
    (node.mapTemplates f).templates = node.templates.map f := by
  match node with
  | .tag t => exact t.templates_mapTemplates f
  | .text _ | .filler _ => rfl
  | .copies items | .chain items =>
    simp only [mapTemplates, templates, templatesIn_mapTemplatesIn f items]
  | .nested parent child =>
    simp only [mapTemplates, templates, Tag.templates_mapTemplates, templates_mapTemplates f child,
      List.map_append]
  | .filtered _ inner => simp only [mapTemplates, templates, templates_mapTemplates f inner]

theorem templatesIn_mapTemplatesIn (f : Template → Template) (items : List Node) :
    templatesIn (mapTemplatesIn f items) = (templatesIn items).map f := by
  match items with
  | [] => rfl
  | item :: rest =>
    simp only [mapTemplatesIn, templatesIn, templates_mapTemplates f item,
      templatesIn_mapTemplatesIn f rest, List.map_append]

end

mutual

theorem mapTemplates_mapTemplates (f g : Template → Template) (node : Node) :
    (node.mapTemplates f).mapTemplates g = node.mapTemplates fun t => g (f t) := by
  match node with
  | .tag _ => simp only [mapTemplates, Tag.mapTemplates_mapTemplates]
  | .text _ | .filler _ => rfl
  | .copies items | .chain items =>
    simp only [mapTemplates, mapTemplatesIn_mapTemplatesIn f g items]
  | .nested _ child =>
    simp only [mapTemplates, Tag.mapTemplates_mapTemplates, mapTemplates_mapTemplates f g child]
  | .filtered _ inner => simp only [mapTemplates, mapTemplates_mapTemplates f g inner]

theorem mapTemplatesIn_mapTemplatesIn (f g : Template → Template) (items : List Node) :
    mapTemplatesIn g (mapTemplatesIn f items) = mapTemplatesIn (fun t => g (f t)) items := by
  match items with
  | [] => rfl
  | item :: rest =>
    simp only [mapTemplatesIn, mapTemplates_mapTemplates f g item,
      mapTemplatesIn_mapTemplatesIn f g rest]

end

mutual

theorem mapTemplates_eq_self {node : Node} (fixed : ∀ t ∈ node.templates, f t = t) :
    node.mapTemplates f = node := by
  match node with
  | .tag t => rw [mapTemplates, Tag.mapTemplates_congr fixed, Tag.mapTemplates_id]
  | .text content => exact congrArg text (fixed content List.mem_cons_self)
  | .filler _ => rfl
  | .copies items | .chain items => rw [mapTemplates, mapTemplatesIn_eq_self fixed]
  | .nested parent child =>
    obtain ⟨outer, inner⟩ := List.forall_mem_append.mp fixed
    rw [mapTemplates, Tag.mapTemplates_congr outer, Tag.mapTemplates_id, mapTemplates_eq_self inner]
  | .filtered filters inner => exact congrArg (filtered filters) (mapTemplates_eq_self fixed)

theorem mapTemplatesIn_eq_self {items : List Node} (fixed : ∀ t ∈ templatesIn items, f t = t) :
    mapTemplatesIn f items = items := by
  match items with
  | [] => rfl
  | item :: rest =>
    obtain ⟨first, later⟩ := List.forall_mem_append.mp fixed
    rw [mapTemplatesIn, mapTemplates_eq_self first, mapTemplatesIn_eq_self later]

end

theorem children_mapTemplates (f : Template → Template) (node : Node) :
    (node.mapTemplates f).children = node.children.map (mapTemplates f) := by
  cases node with
  | copies items | chain items => exact mapTemplatesIn_eq f items
  | tag _ | text _ | filler _ | nested _ _ | filtered _ _ => rfl

/-- The templates of a subtree change as in the whole tree. -/
theorem subtree?_mapTemplates (f : Template → Template) (path : List Nat) (node : Node) :
    (node.mapTemplates f).subtree? path = (node.subtree? path).map (mapTemplates f) := by
  induction path generalizing node with
  | nil => rfl
  | cons position path ih =>
    rw [subtree?, subtree?, children_mapTemplates, List.getElem?_map]
    cases node.children[position]? with
    | none => rfl
    | some child => exact ih child

/-- A function on templates leaves the shape of the tree as it is. -/
theorem shape_mapTemplates (f : Template → Template) (node : Node) :
    (node.mapTemplates f).shape = node.shape :=
  mapTemplates_mapTemplates f _ node

end Node

end Shorthand
