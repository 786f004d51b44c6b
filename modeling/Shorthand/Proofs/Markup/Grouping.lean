import Mathlib
import Shorthand.Markup.Render
import Shorthand.Proofs.Text.Lines

/-! Groups of siblings. A chain, or what a multiplier made, is rendered by joining its items,
and texts that are joined already may as well be joined with the texts around them. So nothing
shows of a group inside another one, and a tag whose children are grouped in another way holds
the same content: it is void, or on lines of its own, as before. -/
namespace Shorthand

/-- The nodes that hold a group of items. -/
inductive Grouping where
  | chain
  | copies

def Grouping.node : Grouping → List Node → Node
  | .chain, items => .chain items
  | .copies, items => .copies items

namespace Node

/-- There is one group less, anywhere in the tree. Its items take its place in the group
around it; or its only item does, wherever it is; or a tag had no child but a group of none. -/
inductive Ungroups : Node → Node → Prop where
  | inPlace (outer inner : Grouping) (before items after : List Node) :
      Ungroups (outer.node (before ++ inner.node items :: after))
        (outer.node (before ++ items ++ after))
  | single (grouping : Grouping) (item : Node) : Ungroups (grouping.node [item]) item
  | childless (grouping : Grouping) (parent : Tag) :
      Ungroups (.nested parent (grouping.node [])) (.tag parent)
  | item (grouping : Grouping) (before after : List Node) {item other : Node}
      (inside : Ungroups item other) :
      Ungroups (grouping.node (before ++ item :: after))
        (grouping.node (before ++ other :: after))
  | child (parent : Tag) {child other : Node} (inside : Ungroups child other) :
      Ungroups (.nested parent child) (.nested parent other)
  | filtered (filters : List String) {inner other : Node} (inside : Ungroups inner other) :
      Ungroups (.filtered filters inner) (.filtered filters other)

/-- The trees differ in the grouping of siblings alone. -/
def Regrouped : Node → Node → Prop := Relation.EqvGen Ungroups

section Siblings

/-- What a `+` puts its right side behind. -/
def operands : Node → List Node
  | .chain items => items
  | node => [node]

theorem operands_spec (node : Node) : node = .chain node.operands ∨ node.operands = [node] := by
  cases node with
  | chain items => exact .inl rfl
  | tag _ | text _ | copies _ | nested _ _ | filtered _ _ | filler _ => exact .inr rfl

theorem sibling_eq (left right : Node) : left.sibling right = .chain (left.operands ++ [right]) := by
  cases left <;> rfl

theorem regrouped_operands (before after : List Node) (node : Node) :
    Regrouped (.chain (before ++ node :: after)) (.chain (before ++ node.operands ++ after)) := by
  obtain group | alone := node.operands_spec
  · have less := Ungroups.inPlace .chain .chain before node.operands after
    rw [Grouping.node, Grouping.node, ← group] at less
    exact .rel _ _ less
  · rw [alone, List.append_assoc, List.singleton_append]
    exact .refl _

theorem regrouped_chain_operands (node : Node) : Regrouped (.chain node.operands) node := by
  obtain group | alone := node.operands_spec
  · rw [← group]
    exact .refl node
  · rw [alone]
    exact .rel _ _ (.single .chain node)

theorem regrouped_sibling (first second third : Node) :
    Regrouped (first.sibling (second.sibling third)) ((first.sibling second).sibling third) := by
  have outer := regrouped_operands first.operands [] (second.sibling third)
  have inner := regrouped_operands first.operands [third] second
  simp only [sibling_eq, operands, List.append_assoc, List.append_nil, List.cons_append,
    List.nil_append] at outer inner ⊢
  exact outer.trans _ _ _ (inner.symm _ _)

/-- No copies, beside anything, are as if they were absent. -/
theorem regrouped_multiply_zero (absent shown : Node) :
    Regrouped ((absent.multiply 0).sibling shown) shown ∧
      Regrouped (shown.sibling (absent.multiply 0)) shown := by
  constructor
  · exact .trans _ _ _ (.rel _ _ (.inPlace .chain .copies [] [] [shown]))
      (.rel _ _ (.single .chain shown))
  · rw [sibling_eq]
    have dropped := Ungroups.inPlace .chain .copies shown.operands [] []
    rw [List.append_nil, List.append_nil] at dropped
    exact .trans _ _ _ (.rel _ _ dropped) (regrouped_chain_operands shown)

end Siblings

end Node

namespace Markup

variable {dialect : Dialect} {options : RenderOptions}

theorem renderAll_append (first last : List Node) (expander : Expander) :
    renderAll dialect options (first ++ last) expander =
      ((renderAll dialect options first expander).1 ++
          (renderAll dialect options last (renderAll dialect options first expander).2).1,
        (renderAll dialect options last (renderAll dialect options first expander).2).2) := by
  induction first generalizing expander with
  | nil => rfl
  | cons item rest ih =>
    simp only [List.cons_append, renderAll, ih]

theorem render_node (grouping : Grouping) (items : List Node) (expander : Expander) :
    render dialect options (grouping.node items) expander =
      (joinLines (renderAll dialect options items expander).1,
        (renderAll dialect options items expander).2) := by
  cases grouping <;> rfl

/-- One group less makes no difference. -/
theorem render_ungroups {tree other : Node} (ungroups : tree.Ungroups other)
    (expander : Expander) :
    render dialect options tree expander = render dialect options other expander := by
  induction ungroups generalizing expander with
  | inPlace outer inner before items after =>
    simp only [render_node, renderAll_append, renderAll, joinLines_joinLines]
  | single grouping item => simp only [render_node, renderAll, joinLines_singleton]
  | childless grouping parent =>
    simp only [render, render_node, renderAll]
    rfl
  | item grouping before after inside ih =>
    simp only [render_node, renderAll_append, renderAll, ih]
  | child parent inside ih => rw [render, render, ih]
  | filtered filters inside ih => exact ih expander

/-- Trees that differ in the grouping of siblings alone are rendered as the same text, and
leave the same behind. So it does not matter from which side operands of `+` are gathered, and
what is multiplied by zero is rendered, beside anything, as if it were absent. -/
theorem render_ignores_grouping (dialect : Dialect) (options : RenderOptions)
    (expander : Expander) :
    (∀ tree other : Node, tree.Regrouped other →
      render dialect options tree expander = render dialect options other expander) ∧
    (∀ first second third : Node,
      render dialect options (first.sibling (second.sibling third)) expander =
        render dialect options ((first.sibling second).sibling third) expander) ∧
    ∀ absent shown : Node,
      render dialect options ((absent.multiply 0).sibling shown) expander =
          render dialect options shown expander ∧
        render dialect options (shown.sibling (absent.multiply 0)) expander =
          render dialect options shown expander := by
  have same : ∀ tree other : Node, tree.Regrouped other →
      render dialect options tree expander = render dialect options other expander := by
    intro tree other regrouped
    induction regrouped with
    | rel _ _ ungroups => exact render_ungroups ungroups expander
    | refl _ => rfl
    | symm _ _ _ ih => exact ih.symm
    | trans _ _ _ _ _ first second => exact first.trans second
  refine ⟨same, fun first second third => ?_, fun absent shown => ?_⟩
  · exact same _ _ (Node.regrouped_sibling first second third)
  · obtain ⟨before, after⟩ := Node.regrouped_multiply_zero absent shown
    exact ⟨same _ _ before, same _ _ after⟩

/-- An expander that knows no tags. -/
def plainExpander : Expander := { tables := Tables.empty, source := .ofSeed 0 }

def leaf (name : String) : Node := .tag { name := .ofText name }

/-- Of the parentheses, and of what stands there no times, nothing shows. -/
theorem render_ignores_grouping_parentheses :
    ∃ tree other, (plainExpander.read "ul>li+(em+b*0+i)").1 = .ok tree ∧
      (plainExpander.read "ul>li+em+i").1 = .ok other ∧ tree.Regrouped other ∧
      (render .haml {} tree plainExpander).1 = "%ul\n    %li\n    %em\n    %i" := by
  have grouped : (plainExpander.read "ul>li+(em+b*0+i)").1 = .ok (.nested { name := .ofText "ul" }
      (.chain [leaf "li", .chain [leaf "em", .copies [], leaf "i"]])) := by cbv
  have flat : (plainExpander.read "ul>li+em+i").1 =
      .ok (.nested { name := .ofText "ul" } (.chain [leaf "li", leaf "em", leaf "i"])) := by cbv
  have absent := Node.Ungroups.child { name := .ofText "ul" } (.item .chain [leaf "li"] []
    (.inPlace .chain .copies [leaf "em"] [] [leaf "i"]))
  have inner := Node.Ungroups.child { name := .ofText "ul" }
    (.inPlace .chain .chain [leaf "li"] [leaf "em", leaf "i"] [])
  have regrouped : Node.Regrouped _ _ := .trans _ _ _ (.rel _ _ absent) (.rel _ _ inner)
  obtain ⟨same, -⟩ := render_ignores_grouping .haml {} plainExpander
  exact ⟨_, _, grouped, flat, regrouped, (congrArg Prod.fst (same _ _ regrouped)).trans (by cbv)⟩

end Markup

end Shorthand
