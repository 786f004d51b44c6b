import Shorthand.Proofs.Inquiry.Run

/-! What replies and results have in common. Where a property holds of all the trees that
an inquiry is given, and of all that it reads from texts, it holds of the trees that a run
comes to and of those that it leaves in the alias table, whether it succeeds or fails. -/
namespace Shorthand.Abbreviation

variable {α β : Type} {good : Node → Prop}

/-- Every value that the inquiry may come to has the property, as long as the replies are
good; and the texts that it asks about are read to good trees. -/
def Inquiry.Keeps (good : Node → Prop) {α : Type} : Inquiry α → (property : α → Prop) → Prop
  | .done (.ok value), property => property value
  | .done (.error _), _ => True
  | .ask _ text reply, property =>
    (∀ s, (text s).Keeps good good) ∧
      ∀ tree, (∀ node ∈ tree, good node) → (reply tree).Keeps good property

namespace Inquiry.Keeps

variable {i : Inquiry α} {property weaker : α → Prop} {result : β → Prop} {next : α → Inquiry β}

theorem bind (first : i.Keeps good property)
    (step : ∀ value, property value → (next value).Keeps good result) :
    (i >>= next).Keeps good result := by
  change (i.bind next).Keeps good result
  induction i with
  | done outcome =>
    cases outcome with
    | error failure => trivial
    | ok value => exact step value first
  | ask name text reply _ ih => exact ⟨first.1, fun tree given => ih tree (first.2 tree given) step⟩

theorem done_bind {outcome : Except Failure α}
    (step : ∀ value, outcome = .ok value → (next value).Keeps good result) :
    (Inquiry.done outcome >>= next).Keeps good result := by
  cases outcome with
  | error failure => trivial
  | ok value => exact step value rfl

theorem mapFailure (first : i.Keeps good property) (change : Failure → Failure) :
    (i.mapFailure change).Keeps good property := by
  induction i with
  | done outcome =>
    cases outcome with
    | error failure => trivial
    | ok value => exact first
  | ask name text reply _ ih => exact ⟨first.1, fun tree given => ih tree (first.2 tree given)⟩

theorem bindOr (first : i.Keeps good property) {otherwise : Inquiry β}
    (other : otherwise.Keeps good result)
    (step : ∀ value, property value → (next value).Keeps good result) :
    (i.bindOr otherwise next).Keeps good result := by
  induction i with
  | done outcome =>
    cases outcome with
    | error failure =>
      unfold Inquiry.bindOr
      split
      · trivial
      · exact other
    | ok value => exact step value first
  | ask name text reply _ ih => exact ⟨first.1, fun tree given => ih tree (first.2 tree given) step⟩

end Inquiry.Keeps

/-- Every alias that is stored as a tree is stored as a good one. -/
def TreesAre (good : Node → Prop) (stored : AliasTable) : Prop :=
  ∀ ⦃name tree⦄, stored.get? name = some (.parsed tree) → good tree

theorem TreesAre.remember {memory : Memory} (entries : TreesAre good memory.aliases)
    (name : String) {tree : Node} (h : good tree) :
    TreesAre good (memory.remember name tree).aliases := by
  intro other tree' stored
  by_cases same : other = name
  · subst same
    unfold Memory.remember at stored
    split at stored
    · exact entries stored
    · rw [Table.get?_insert_self] at stored
      obtain rfl : tree = tree' := by simpa using stored
      exact h
  · rw [get?_remember_of_ne same] at stored
    exact entries stored

/-- What is left in the alias table and what comes out are good trees. -/
def Reading.Keeps (good : Node → Prop) (property : α → Prop) (reading : Reading α) : Prop :=
  TreesAre good reading.1.aliases ∧ ∀ value, reading.2 = .ok value → property value

theorem resolve_keeps {readText : List String → Memory → List Char → Reading Node}
    {opened : List String} {memory : Memory} {name : String}
    (entries : TreesAre good memory.aliases)
    (texts : ∀ opened s, (readText opened memory s).Keeps good good) :
    (resolve readText opened memory name).Keeps good fun reply => ∀ tree ∈ reply, good tree := by
  have answer := resolution readText opened memory name
  generalize resolve readText opened memory name = reading at answer ⊢
  cases answer with
  | opened inside =>
    refine ⟨?_, by simp⟩
    rw [aliases_noteCycle]
    exact entries
  | @given reply outside known =>
    refine ⟨entries, fun value h tree among => ?_⟩
    obtain rfl := Except.ok.inj h
    exact entries (known.trans (congrArg (Option.map Alias.parsed) among))
  | failed outside source ran =>
    obtain ⟨after, -⟩ := texts (name :: opened) _
    rw [ran] at after
    exact ⟨after, by simp⟩
  | read outside source ran =>
    obtain ⟨after, result⟩ := texts (name :: opened) _
    rw [ran] at after result
    have good := result _ rfl
    refine ⟨after.remember name good, fun value h tree among => ?_⟩
    obtain rfl := Except.ok.inj h
    obtain rfl := Option.some.inj among
    exact good

theorem Inquiry.Keeps.run {i : Inquiry α} {property : α → Prop} (keeps : i.Keeps good property)
    {opened : List String} {memory : Memory} (entries : TreesAre good memory.aliases) :
    (i.run opened memory).Keeps good property := by
  induction i generalizing opened memory with
  | done outcome =>
    refine ⟨entries, fun value h => ?_⟩
    obtain rfl : outcome = .ok value := h
    exact keeps
  | ask name text reply textIh ih =>
    obtain ⟨texts, replies⟩ := keeps
    have answer : (resolve (fun opened memory s => (text s).run opened memory) opened memory
        name).Keeps good fun reply => ∀ tree ∈ reply, good tree :=
      resolve_keeps entries fun opened s => textIh s (texts s) entries
    rw [run_ask]
    split
    · next asked =>
      rw [asked] at answer
      exact ⟨answer.1, by simp⟩
    · next asked =>
      rw [asked] at answer
      exact ih _ (replies _ (answer.2 _ rfl)) answer.1

end Shorthand.Abbreviation
