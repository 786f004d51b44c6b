import Shorthand.Node.Graft
import Shorthand.Proofs.Node.Copies

/-! Laws of grafting. What takes a child is never running text, so of two grafts in a row the
second one goes into what the first one hung up: it does not matter which is made first. The
place of the child depends on the shape of the tree alone, so grafting commutes with every
change of templates, and with the numbers of copies among them. -/
namespace Shorthand.Node

variable {x y z : Node}

section Associativity

theorem isRunningText_of_graft? (h : y.graft? z = some x) : y.isRunningText = false := by
  cases y with
  | text _ | filler _ => contradiction
  | tag _ | copies _ | chain _ | nested _ _ | filtered _ _ => rfl

/-- No graft makes running text. -/
theorem isRunningText_graft? (h : y.graft? z = some x) : x.isRunningText = false := by
  cases y with
  | text _ | filler _ => contradiction
  | tag _ =>
    obtain rfl := Option.some.inj h
    rfl
  | nested parent existing =>
    rw [graft?] at h
    split at h
    · obtain rfl := Option.some.inj h
      rfl
    · obtain ⟨inner, -, rfl⟩ := Option.map_eq_some_iff.mp h
      rfl
  | chain _ | copies _ | filtered _ _ =>
    obtain ⟨inner, -, rfl⟩ := Option.map_eq_some_iff.mp h
    rfl

theorem graft?_nested {existing : Node} (solid : existing.isRunningText = false) (parent : Tag)
    (child : Node) :
    (nested parent existing).graft? child = (existing.graft? child).map (nested parent) := by
  rw [graft?, solid]
  rfl

theorem graftLast?_ne_nil {items grafted : List Node} (h : graftLast? items z = some grafted) :
    grafted ≠ [] := by
  rintro rfl
  match items with
  | [] => contradiction
  | [_] | _ :: _ :: _ =>
    obtain ⟨_, -, none⟩ := Option.map_eq_some_iff.mp h
    contradiction

theorem graftLast?_cons {items : List Node} (nonempty : items ≠ []) (item child : Node) :
    graftLast? (item :: items) child = (graftLast? items child).map (item :: ·) := by
  cases items with
  | nil => contradiction
  | cons next rest => rfl

theorem graftEach?_cons (item : Node) (rest : List Node) (child : Node) :
    graftEach? (item :: rest) child =
      (item.graft? child).bind fun first => (graftEach? rest child).map (first :: ·) := by
  rw [graftEach?]
  cases item.graft? child with
  | none => rfl
  | some first => cases graftEach? rest child <;> rfl

mutual

/-- A child of a child is grafted before or after its parent. -/
theorem graft?_graft? {grown : Node} (h : y.graft? z = some grown) (x : Node) :
    (x.graft? y).bind (·.graft? z) = x.graft? grown := by
  match x with
  | .tag t =>
    change (nested t y).graft? z = some (nested t grown)
    rw [graft?_nested (isRunningText_of_graft? h), h]
    rfl
  | .nested parent existing =>
    cases running : existing.isRunningText with
    | true =>
      -- The child has become the last of a chain behind the text.
      have alone : ∀ child, existing.sibling child = chain [existing, child] := by
        intro child
        cases existing <;> first | rfl | contradiction
      rw [graft?, graft?, running, if_pos rfl, if_pos rfl, alone, alone, Option.bind_some,
        graft?_nested rfl]
      simp only [graft?, graftLast?, h, Option.map_some]
    | false =>
      rw [graft?_nested running, graft?_nested running, ← graft?_graft? h existing]
      cases first : existing.graft? y with
      | none => rfl
      | some grafted =>
        -- What was grafted into is no running text now either, so the second one goes inside.
        simp only [Option.map_some, Option.bind_some, graft?_nested (isRunningText_graft? first)]
  | .chain items =>
    rw [graft?, graft?, ← graftLast?_graftLast? h items]
    cases graftLast? items y <;> rfl
  | .copies items =>
    rw [graft?, graft?, ← graftEach?_graftEach? h items]
    cases graftEach? items y <;> rfl
  | .filtered filters inner =>
    rw [graft?, graft?, ← graft?_graft? h inner]
    cases inner.graft? y <;> rfl
  | .text _ | .filler _ => rfl

theorem graftLast?_graftLast? {grown : Node} (h : y.graft? z = some grown) (items : List Node) :
    (graftLast? items y).bind (graftLast? · z) = graftLast? items grown := by
  match items with
  | [] => rfl
  | [last] =>
    rw [graftLast?, graftLast?, ← graft?_graft? h last]
    cases last.graft? y <;> rfl
  | item :: next :: rest =>
    rw [graftLast?, graftLast?, ← graftLast?_graftLast? h (next :: rest)]
    cases grafted : graftLast? (next :: rest) y with
    | none => rfl
    | some items => exact graftLast?_cons (graftLast?_ne_nil grafted) item z

theorem graftEach?_graftEach? {grown : Node} (h : y.graft? z = some grown) (items : List Node) :
    (graftEach? items y).bind (graftEach? · z) = graftEach? items grown := by
  match items with
  | [] => rfl
  | item :: rest =>
    rw [graftEach?_cons, graftEach?_cons, ← graft?_graft? h item, ← graftEach?_graftEach? h rest]
    cases item.graft? y with
    | none => rfl
    | some first =>
      cases graftEach? rest y with
      | none =>
        simp only [Option.bind_some, Option.map_none, Option.bind_none, Option.bind_fun_none]
      | some later => exact graftEach?_cons first later z

end

end Associativity

section Templates

theorem isRunningText_mapTemplates (f : Template → Template) (node : Node) :
    (node.mapTemplates f).isRunningText = node.isRunningText := by
  cases node <;> rfl

theorem sibling_mapTemplates (f : Template → Template) (left right : Node) :
    (left.mapTemplates f).sibling (right.mapTemplates f) = (left.sibling right).mapTemplates f := by
  cases left with
  | chain items => simp [mapTemplates, sibling, mapTemplatesIn_eq]
  | tag _ | text _ | copies _ | nested _ _ | filtered _ _ | filler _ => rfl

mutual

theorem graft?_mapTemplates (f : Template → Template) (x z : Node) :
    (x.mapTemplates f).graft? (z.mapTemplates f) = (x.graft? z).map (mapTemplates f) := by
  match x with
  | .tag _ | .text _ | .filler _ => rfl
  | .nested parent existing =>
    rw [mapTemplates, graft?, graft?, isRunningText_mapTemplates]
    split
    · rw [sibling_mapTemplates]
      rfl
    · rw [graft?_mapTemplates f existing z]
      cases existing.graft? z <;> rfl
  | .chain items =>
    rw [mapTemplates, graft?, graft?, graftLast?_mapTemplates f items z]
    cases graftLast? items z <;> rfl
  | .copies items =>
    rw [mapTemplates, graft?, graft?, graftEach?_mapTemplates f items z]
    cases graftEach? items z <;> rfl
  | .filtered filters inner =>
    rw [mapTemplates, graft?, graft?, graft?_mapTemplates f inner z]
    cases inner.graft? z <;> rfl

theorem graftLast?_mapTemplates (f : Template → Template) (items : List Node) (z : Node) :
    graftLast? (mapTemplatesIn f items) (z.mapTemplates f) =
      (graftLast? items z).map (mapTemplatesIn f) := by
  match items with
  | [] => rfl
  | [last] =>
    rw [mapTemplatesIn, mapTemplatesIn, graftLast?, graftLast?, graft?_mapTemplates f last z]
    cases last.graft? z <;> rfl
  | item :: next :: rest =>
    have later := graftLast?_mapTemplates f (next :: rest) z
    rw [mapTemplatesIn] at later
    rw [mapTemplatesIn, mapTemplatesIn, graftLast?, graftLast?, later]
    cases graftLast? (next :: rest) z <;> rfl

theorem graftEach?_mapTemplates (f : Template → Template) (items : List Node) (z : Node) :
    graftEach? (mapTemplatesIn f items) (z.mapTemplates f) =
      (graftEach? items z).map (mapTemplatesIn f) := by
  match items with
  | [] => rfl
  | item :: rest =>
    rw [mapTemplatesIn, graftEach?_cons, graftEach?_cons, graft?_mapTemplates f item z,
      graftEach?_mapTemplates f rest z]
    cases item.graft? z with
    | none => rfl
    | some first => cases graftEach? rest z <;> rfl

end

theorem graft?_instantiate (index limit : Nat) (x z : Node) :
    (x.instantiate index limit).graft? (z.instantiate index limit) =
      (x.graft? z).map (instantiate index limit) := by
  rw [instantiate_eq, instantiate_eq, graft?_mapTemplates]
  exact Option.map_congr fun grown _ => (instantiate_eq index limit grown).symm

theorem graftEach?_map {items grown : Nat → Node}
    (each : ∀ index, (items index).graft? z = some (grown index)) (indices : List Nat) :
    graftEach? (indices.map items) z = some (indices.map grown) := by
  induction indices with
  | nil => rfl
  | cons index rest ih =>
    rw [List.map_cons, graftEach?_cons, each, ih]
    rfl

/-- A child without tokens may be hung up before or after its place is multiplied. -/
theorem graft?_multiply {grown : Node} (plain : z.numbers = []) (h : x.graft? z = some grown)
    (count : Nat) : (x.multiply count).graft? z = some (grown.multiply count) := by
  have each : ∀ index, (x.instantiate index count).graft? z =
      some (grown.instantiate index count) := by
    intro index
    have copied := graft?_instantiate index count x z
    rwa [instantiate_eq_self plain, h, Option.map_some] at copied
  rw [multiply, graft?, graftEach?_map each]
  rfl

end Templates

/-- Of two grafts in a row either may be made first. Grafting commutes with numbering a copy,
so that a child without tokens may be grafted before or after the tree is multiplied. -/
theorem graft_assoc_and_instantiate (x z : Node) :
    (∀ y grown, y.graft? z = some grown →
      (x.graft? y).bind (·.graft? z) = x.graft? grown) ∧
    (∀ index limit, (x.instantiate index limit).graft? (z.instantiate index limit) =
      (x.graft? z).map (instantiate index limit)) ∧
    (∀ grown, z.numbers = [] → x.graft? z = some grown →
      ∀ count, (x.multiply count).graft? z = some (grown.multiply count)) := by
  refine ⟨?_, ?_, ?_⟩
  · intro y grown h
    exact graft?_graft? h x
  · intro index limit
    exact graft?_instantiate index limit x z
  · intro grown plain h count
    exact graft?_multiply plain h count

/-- A tag without qualifiers. -/
def bare (name : String) : Node := .tag { name := .ofText name }

/-- The first child goes beside the text of the entry, and the second one into the first. -/
theorem graft_assoc_and_instantiate_entry :
    (bare "b").graft? (bare "i") = some (.nested { name := .ofText "b" } (bare "i")) ∧
      (entry.graft? (bare "b")).bind (·.graft? (bare "i")) =
        entry.graft? (.nested { name := .ofText "b" } (bare "i")) ∧
      (bare "i").numbers = [] ∧
      ∃ grown, entry.graft? (bare "i") = some grown ∧
        ((entry.multiply 2).graft? (bare "i")) = some (grown.multiply 2) := by
  have inner : (bare "b").graft? (bare "i") =
      some (.nested { name := .ofText "b" } (bare "i")) := rfl
  have plain : (bare "i").numbers = [] := by decide
  obtain ⟨assoc, -, multiplied⟩ := graft_assoc_and_instantiate entry (bare "i")
  exact ⟨inner, assoc (bare "b") _ inner, plain, _, rfl, multiplied _ plain rfl 2⟩

end Shorthand.Node
