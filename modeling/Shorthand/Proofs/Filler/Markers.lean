import Mathlib.Data.List.TakeWhile
import Shorthand.Expand
import Shorthand.Proofs.Node.Parts

/-! Filling a tree. Its markers are taken one by one in document order, each with the random
source that the one before it left, up to the first that asks for too much. Where none does,
the tree stays as it is around the texts that take the places of the markers. -/
namespace Shorthand

namespace Filler

variable {σ : Type} [Source σ]

/-- Texts of so many words each, one drawn after the other. -/
def texts : List Nat → σ → List String × σ
  | [], s => ([], s)
  | count :: rest, s =>
    let (first, s) := text count s
    let (others, s) := texts rest s
    (first :: others, s)

theorem texts_append (first last : List Nat) (s : σ) :
    texts (first ++ last) s = ((texts first s).1 ++ (texts last (texts first s).2).1,
      (texts last (texts first s).2).2) := by
  induction first generalizing s with
  | nil => rfl
  | cons count rest ih => simp only [List.cons_append, texts, ih]

end Filler

namespace Node

mutual

/-- What the markers ask for, depth first and from the left. -/
def fillers : Node → List Nat
  | .filler words => [words]
  | .tag _ | .text _ => []
  | .nested _ child => child.fillers
  | .chain items | .copies items => fillersIn items
  | .filtered _ inner => inner.fillers

def fillersIn : List Node → List Nat
  | [] => []
  | item :: rest => item.fillers ++ fillersIn rest

end

mutual

/-- One tree is the other with texts in the places of its markers, in document order. -/
inductive Fills : Node → List String → Node → Prop where
  | filler (words : Nat) (text : String) : Fills (.filler words) [text] (.text (.ofText text))
  | tag (tag : Tag) : Fills (.tag tag) [] (.tag tag)
  | text (content : Template) : Fills (.text content) [] (.text content)
  | nested (parent : Tag) {child child' : Node} {texts : List String} :
      Fills child texts child' → Fills (.nested parent child) texts (.nested parent child')
  | chain {items items' : List Node} {texts : List String} :
      FillsAll items texts items' → Fills (.chain items) texts (.chain items')
  | copies {items items' : List Node} {texts : List String} :
      FillsAll items texts items' → Fills (.copies items) texts (.copies items')
  | filtered (filters : List String) {inner inner' : Node} {texts : List String} :
      Fills inner texts inner' → Fills (.filtered filters inner) texts (.filtered filters inner')

inductive FillsAll : List Node → List String → List Node → Prop where
  | nil : FillsAll [] [] []
  | cons {item item' : Node} {rest rest' : List Node} {first last : List String} :
      Fills item first item' → FillsAll rest last rest' →
        FillsAll (item :: rest) (first ++ last) (item' :: rest')

end

mutual

/-- No marker is left over. -/
theorem Fills.unfilled {node node' : Node} {texts : List String} (fills : Fills node texts node') :
    node'.hasFiller = false := by
  cases fills with
  | filler _ _ | tag _ | text _ => rfl
  | nested _ child => exact child.unfilled
  | chain items | copies items => exact items.unfilled
  | filtered _ inner => exact inner.unfilled

theorem FillsAll.unfilled {items items' : List Node} {texts : List String}
    (fills : FillsAll items texts items') : haveFiller items' = false := by
  cases fills with
  | nil => rfl
  | cons first rest => exact Bool.or_eq_false_iff.mpr ⟨first.unfilled, rest.unfilled⟩

end

end Node

namespace Expander

variable {α β : Type} {expander : Expander} {markers : List Nat}
  {related : List String → α → Prop} {outcome : Except Failure α × Expander}

/-- The markers that are filled: all in front of the first that asks for too much. -/
def admitted (limits : Limits) (markers : List Nat) : List Nat :=
  markers.takeWhile fun words => words ≤ limits.maxFillerWords

theorem admitted_of_fits {limits : Limits}
    (fits : ∀ words ∈ markers, words ≤ limits.maxFillerWords) : admitted limits markers = markers :=
  List.takeWhile_eq_self_iff.mpr fun words member => decide_eq_true (fits words member)

theorem admitted_append_of_fits {limits : Limits}
    (fits : ∀ words ∈ markers, words ≤ limits.maxFillerWords) (later : List Nat) :
    admitted limits (markers ++ later) = markers ++ admitted limits later :=
  List.takeWhile_append_of_pos fun words member => decide_eq_true (fits words member)

theorem admitted_append_of_beyond {limits : Limits}
    (beyond : ∃ words ∈ markers, limits.maxFillerWords < words) (later : List Nat) :
    admitted limits (markers ++ later) = admitted limits markers := by
  obtain ⟨words, member, more⟩ := beyond
  have short : (markers.takeWhile fun words => decide (words ≤ limits.maxFillerWords)).length ≠
      markers.length := by
    intro same
    have kept := (List.takeWhile_prefix _).eq_of_length same
    have fit := of_decide_eq_true (List.takeWhile_eq_self_iff.mp kept words member)
    exact absurd fit (Nat.not_le.mpr more)
  rw [admitted, List.takeWhile_append, if_neg short]
  rfl

theorem fillAll_cons_ok {item item' : Node} {middle : Expander}
    (filled : fill item expander = (.ok item', middle)) (rest : List Node) :
    fillAll (item :: rest) expander =
      ((fillAll rest middle).1.map (item' :: ·), (fillAll rest middle).2) := by
  rw [fillAll, filled]

theorem fillAll_cons_error {item : Node} {failure : Failure} {middle : Expander}
    (refused : fill item expander = (.error failure, middle)) (rest : List Node) :
    fillAll (item :: rest) expander = (.error failure, middle) := by
  rw [fillAll, refused]

/-- What comes of filling something that has the markers: texts for them if they all ask for
few enough words, and a failure if not. Of the expander only the source moves on. -/
structure Filled (markers : List Nat) (related : List String → α → Prop) (expander : Expander)
    (outcome : Except Failure α × Expander) : Prop where
  left : outcome.2 = { expander with
    source := (Filler.texts (admitted expander.limits markers) expander.source).2 }
  filled : (∀ words ∈ markers, words ≤ expander.limits.maxFillerWords) →
    ∃ result, outcome.1 = .ok result ∧ related (Filler.texts markers expander.source).1 result
  refused : (∃ words ∈ markers, expander.limits.maxFillerWords < words) →
    outcome.1 = .error (.exceeded .fillerWords expander.limits.maxFillerWords)

theorem Filled.map (filled : Filled markers related expander outcome) (f : α → β)
    {related' : List String → β → Prop}
    (keeps : ∀ texts result, related texts result → related' texts (f result)) :
    Filled markers related' expander (outcome.1.map f, outcome.2) where
  left := filled.left
  filled fits := by
    obtain ⟨result, done, holds⟩ := filled.filled fits
    exact ⟨f result, by rw [done]; rfl, keeps _ _ holds⟩
  refused beyond := by rw [filled.refused beyond]; rfl

/-- Where there is no marker nothing is drawn and nothing refused. -/
theorem Filled.unmarked {result : α} (holds : related [] result) :
    Filled [] related expander (.ok result, expander) where
  left := rfl
  filled _ := ⟨result, rfl, holds⟩
  refused beyond := by
    obtain ⟨_, member, -⟩ := beyond
    exact absurd member List.not_mem_nil

mutual

theorem fill_filled (node : Node) (expander : Expander) :
    Filled node.fillers (Node.Fills node) expander (fill node expander) := by
  match node with
  | .filler words =>
    by_cases beyond : expander.limits.maxFillerWords < words
    · rw [fill, if_pos beyond]
      refine ⟨?_, fun fits => ?_, fun _ => rfl⟩
      · simp [Node.fillers, admitted, Nat.not_le.mpr beyond, Filler.texts]
      · exact absurd (fits words List.mem_cons_self) (Nat.not_le.mpr beyond)
    · rw [fill, if_neg beyond]
      refine ⟨?_, fun _ => ⟨_, rfl, .filler words _⟩, fun more => ?_⟩
      · simp [Node.fillers, admitted, Nat.not_lt.mp beyond, Filler.texts, fillerText]
      · obtain ⟨_, member, more⟩ := more
        rw [List.mem_singleton.mp member] at more
        exact absurd more beyond
  | .tag tag => exact .unmarked (.tag tag)
  | .text content => exact .unmarked (.text content)
  | .nested parent child =>
    exact (fill_filled child expander).map (Node.nested parent) fun _ _ => .nested parent
  | .chain items => exact (fillAll_filled items expander).map Node.chain fun _ _ => .chain
  | .copies items => exact (fillAll_filled items expander).map Node.copies fun _ _ => .copies
  | .filtered filters inner =>
    exact (fill_filled inner expander).map (Node.filtered filters) fun _ _ => .filtered filters

theorem fillAll_filled (items : List Node) (expander : Expander) :
    Filled (Node.fillersIn items) (Node.FillsAll items) expander (fillAll items expander) := by
  match items with
  | [] => exact .unmarked .nil
  | item :: rest =>
    have first := fill_filled item expander
    by_cases fits : ∀ words ∈ item.fillers, words ≤ expander.limits.maxFillerWords
    · -- The rest is filled with the source that the item leaves.
      obtain ⟨item', done, fills⟩ := first.filled fits
      have left := first.left
      rw [admitted_of_fits fits] at left
      have later := fillAll_filled rest { expander with
        source := (Filler.texts item.fillers expander.source).2 }
      rw [fillAll_cons_ok (Prod.ext done left)]
      refine ⟨?_, fun all => ?_, fun beyond => ?_⟩
      · rw [Node.fillersIn, admitted_append_of_fits fits, Filler.texts_append]
        exact later.left
      · obtain ⟨rest', done, holds⟩ := later.filled fun words member =>
          all words (List.mem_append_right _ member)
        refine ⟨item' :: rest', by rw [done]; rfl, ?_⟩
        rw [Node.fillersIn, Filler.texts_append]
        exact .cons fills holds
      · obtain ⟨words, member, more⟩ := beyond
        have there := (List.mem_append.mp member).resolve_left fun here =>
          absurd (fits words here) (Nat.not_le.mpr more)
        rw [later.refused ⟨words, there, more⟩]
        rfl
    · -- The item is refused, and the rest is not looked at.
      have beyond : ∃ words ∈ item.fillers, expander.limits.maxFillerWords < words := by
        simpa using fits
      rw [fillAll_cons_error (Prod.ext (first.refused beyond) rfl)]
      refine ⟨?_, fun all => ?_, fun _ => rfl⟩
      · rw [Node.fillersIn, admitted_append_of_beyond beyond]
        exact first.left
      · exact absurd (fun words here => all words (List.mem_append_left _ here)) fits

end

/-- A tree is refused exactly if one of its markers asks for more words than the limit. Else it
is filled: no marker is left, and nothing is changed but that the markers, in document order,
become texts of so many words drawn one after the other. In either case only the random source
of the expander changes, by what is drawn for the markers up to the first that is refused. -/
theorem fill_replaces_markers (tree : Node) (expander : Expander) :
    ((∃ words ∈ tree.fillers, expander.limits.maxFillerWords < words) →
      ∃ failure, (fill tree expander).1 = .error failure ∧
        failure = .exceeded .fillerWords expander.limits.maxFillerWords ∧
        failure.message =
          "lorem word limit of " ++ toString expander.limits.maxFillerWords ++ " exceeded") ∧
    ((∀ words ∈ tree.fillers, words ≤ expander.limits.maxFillerWords) →
      ∃ result, (fill tree expander).1 = .ok result ∧ result.hasFiller = false ∧
        Node.Fills tree (Filler.texts tree.fillers expander.source).1 result) ∧
    (fill tree expander).2 = { expander with
      source := (Filler.texts (tree.fillers.takeWhile fun words =>
        words ≤ expander.limits.maxFillerWords) expander.source).2 } := by
  have filled := fill_filled tree expander
  refine ⟨fun beyond => ⟨_, filled.refused beyond, rfl, rfl⟩, fun fits => ?_, filled.left⟩
  obtain ⟨result, done, fills⟩ := filled.filled fits
  exact ⟨result, done, fills.unfilled, fills⟩

/-- Copies of an item with a marker in it, text, and another marker. -/
def notices : Node :=
  .chain [.nested { name := .ofText "ul" } (.copies
      [.nested { name := .ofText "li" } (.filler 3), .nested { name := .ofText "li" } (.filler 4)]),
    .filtered ["e"] (.text (.ofText "and")), .filler 2]

/-- With four words allowed the markers take three texts from the source, in their order; with
three the second marker is refused and one text is drawn. -/
theorem fill_replaces_markers_notices :
    notices.fillers = [3, 4, 2] ∧
      (∃ result, (fill notices
          { tables := .empty, limits := { maxFillerWords := 4 }, source := .ofSeed 7 }).1 =
            .ok result ∧
        Node.Fills notices (Filler.texts [3, 4, 2] (Filler.ChaCha.ofSeed 7)).1 result) ∧
      (fill notices
          { tables := .empty, limits := { maxFillerWords := 3 }, source := .ofSeed 7 }).1 =
        .error (.exceeded .fillerWords 3) ∧
      (fill notices
          { tables := .empty, limits := { maxFillerWords := 3 }, source := .ofSeed 7 }).2.source =
        (Filler.texts [3] (Filler.ChaCha.ofSeed 7)).2 := by
  obtain ⟨-, filled, -⟩ := fill_replaces_markers notices
    { tables := .empty, limits := { maxFillerWords := 4 }, source := .ofSeed 7 }
  obtain ⟨refused, -, left⟩ := fill_replaces_markers notices
    { tables := .empty, limits := { maxFillerWords := 3 }, source := .ofSeed 7 }
  obtain ⟨result, done, -, fills⟩ := filled (by decide)
  obtain ⟨failure, failed, rfl, -⟩ := refused (by decide)
  exact ⟨rfl, ⟨result, done, fills⟩, failed, congrArg Expander.source left⟩

end Expander

end Shorthand
