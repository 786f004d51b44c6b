import Shorthand.Proofs.Grammar.Steps
import Shorthand.Proofs.Scanning.Token

/-! Reading what is put together from parts that are read. The operand of an atom, the
chain of one operand or two, and the tag on its own come out as their parts say, with
the failures of the limits in their places. -/
namespace Shorthand.Abbreviation

variable {limits : Limits} {expression : Reader} {opened : List String}
  {memory middle after : Memory} {s rest : List Char} {subject child node : Node}

/-- The operand of an atom with a count and a child. -/
theorem run_operand_nested (limits : Limits) {below rest₁ : List Char} {count : Option Nat}
    (atomRan : (atom expression s).run opened memory = (middle, .ok (subject, rest₁)))
    (counted : repeatCount rest₁ = .ok (count, '>' :: below))
    (childRan : (expression below).run opened middle = (after, .ok (child, rest))) :
    (operand limits expression s).run opened memory =
      (after, (graftAndMaterialize limits subject child count).map (·, rest)) := by
  have nested : ((expression below).mapFailure Failure.afterChild).run opened middle =
      (after, .ok (child, rest)) :=
    (Inquiry.run_mapFailure_eq_ok fun _ => afterChild_of_isCommitted).mpr childRan
  unfold operand
  simp only [Inquiry.run_bind, atomRan, counted, Inquiry.run_done, nested]
  cases graftAndMaterialize limits subject child count <;> rfl

theorem run_operand_plain {rest₁ : List Char} {count : Option Nat}
    (atomRan : (atom expression s).run opened memory = (after, .ok (subject, rest₁)))
    (counted : repeatCount rest₁ = .ok (count, rest)) (noChild : rest.head? ≠ some '>') :
    (operand limits expression s).run opened memory =
      (after, (materialize limits subject count).map (·, rest)) := by
  unfold operand
  rw [Inquiry.run_bind, atomRan]
  dsimp only
  rw [counted, Inquiry.run_bind, Inquiry.run_done]
  dsimp only
  split
  · next heq =>
    obtain ⟨rfl, rfl⟩ := Prod.mk.inj heq
    exact absurd rfl noChild
  · next heq =>
    obtain ⟨rfl, rfl⟩ := Prod.mk.inj heq
    rw [Inquiry.run_bind, Inquiry.run_done]
    cases materialize limits subject count <;> rfl

/-- An operand that is all of the text is the chain. -/
theorem run_complete_operand (result : Except Failure Node)
    (ran : (operand limits expression s).run opened memory = (after, result.map (·, []))) :
    (complete (chain limits expression) s).run opened memory =
      (after, result.bind (admitChain limits)) := by
  unfold complete chain
  rw [Inquiry.run_bind, Inquiry.run_bind, ran]
  cases result with
  | error failure => rfl
  | ok node =>
    have single : ({ first := node } : Operands).toNode = node := rfl
    have last : furtherOperands limits expression ([] : List Char).length { first := node } [] =
        return ({ first := node }, []) := furtherOperands_end (.inl rfl)
    simp only [Except.map, Inquiry.run_bind, last, Inquiry.run_pure, Inquiry.run_done, single,
      Except.bind]
    cases admitChain limits node <;> rfl

theorem toNode_pair (left right : Node) :
    ({ first := left, later := [right] } : Operands).toNode = left.sibling right := by
  cases left <;> rfl

/-- Two operands that are all of the text are siblings. -/
theorem run_complete_siblings {below : List Char} {right : Node}
    (first : (operand limits expression s).run opened memory =
      (middle, .ok (subject, '+' :: below)))
    (second : (operand limits expression below).run opened middle = (after, .ok (right, []))) :
    (complete (chain limits expression) s).run opened memory =
      (after, admitChain limits (subject.sibling right)) := by
  have last : (furtherOperands limits expression ('+' :: below).length { first := subject }
      ('+' :: below)).run opened middle =
        (after, .ok ({ first := subject, later := [right] }, [])) := by
    rw [List.length_cons, furtherOperands_plus, Inquiry.run_bindOr_eq_ok]
    refine .inl ⟨after, (right, []), second, ?_⟩
    have noMore : ([] : List Char).head? ≠ some '+' := nofun
    exact congrArg (Inquiry.run · opened after) (furtherOperands_end (.inr noMore))
  unfold complete chain
  simp only [Inquiry.run_bind, first, last, Inquiry.run_done, toNode_pair]
  cases admitChain limits (subject.sibling right) <;> rfl

theorem run_standsFor_none {aliases : AliasTable} {name : String}
    (noAlias : aliases.get? name = none) :
    (standsFor expression name).run [] { aliases } = ({ aliases }, .ok none) := by
  unfold standsFor
  have unknown {readText : List String → Memory → List Char → Reading Node} :
      Resolution readText [] { aliases } name ({ aliases }, .ok none) :=
    .given (by simp) noAlias
  rw [Inquiry.run_ask, unknown.eq]
  rfl

theorem run_expandTag_self {aliases : AliasTable} {tag : Tag}
    (noAlias : ∀ name, tag.name.literal? = some name → aliases.get? name = none) :
    (expandTag expression tag).run [] { aliases } = ({ aliases }, .ok (.tag tag)) := by
  unfold expandTag
  split
  · rfl
  · next name literal =>
    rw [Inquiry.run_bind, run_standsFor_none (noAlias name literal)]
    rfl

/-- A named tag that stands for itself. -/
theorem run_atom_tag {aliases : AliasTable} {name below : List Char} {hasBody : Bool} {tag : Tag}
    (start : s.head?.any isNameStart) (named : tagName s = (name, hasBody, below))
    (body : tagBody (.ofSelector name) hasBody below = .ok (tag, rest))
    (noFiller : fillerWords? name = none)
    (noAlias : ∀ name, tag.name.literal? = some name → aliases.get? name = none) :
    (atom expression s).run [] { aliases } = ({ aliases }, .ok (.tag tag, rest)) := by
  cases s with
  | nil => contradiction
  | cons c s =>
    rw [atom_named start, run_namedTag, named]
    refine ⟨tag, body, ?_⟩
    unfold namedNode
    rw [noFiller]
    exact run_expandTag_self noAlias

theorem tagBody_attributes (name : Template) (hasBody : Bool) {entries : List (String × Template)}
    (h : attributes s = .ok (entries, [])) :
    tagBody name hasBody ('[' :: s) =
      .ok (tagOf name hasBody [.attributes entries] none, []) :=
  tagBody_eq_ok.mpr
    ⟨_, [], none, (qualifiers_attributes [] h).trans (qualifiers_end _ nofun), rfl, rfl⟩

/-- A tag that is all of the text. -/
theorem run_complete_tag {aliases : AliasTable} {room : Nat} {tag : Tag}
    (ran : (atom (Abbreviation.expression limits room) s).run [] { aliases } =
      ({ aliases }, .ok (.tag tag, []))) :
    (complete (Abbreviation.expression limits (room + 1)) s).run [] { aliases } =
      ({ aliases }, .ok (.tag tag)) :=
  run_complete_operand (.ok (.tag tag))
    (run_operand_plain ran (repeatCount_none nofun) nofun)

/-- The tag `name` with one attribute. -/
def tagWith (name key value : String) : Tag where
  name := .ofText name
  properties := [(key, .ofText value)]

theorem run_atom_tagWith {s : List Char} (below : List Char) {name key value : String}
    (start : s.head?.any isNameStart) (named : tagName s = (name.toList, true, '[' :: below))
    (template : Template.ofSelector name.toList = .ofText name)
    (listed : attributes below = .ok ([(key, .ofText value)], []))
    (noFiller : fillerWords? name.toList = none) :
    (atom expression s).run [] { aliases := [] } =
      ({ aliases := [] }, .ok (.tag (tagWith name key value), [])) := by
  have body := tagBody_attributes (.ofText name) true listed
  exact run_atom_tag start named (by rw [template]; exact body) noFiller fun _ _ => rfl

end Shorthand.Abbreviation
