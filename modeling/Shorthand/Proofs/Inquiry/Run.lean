import Shorthand.Abbreviation.Inquiry

/-! Running composed inquiries. A run of a composition is the run of its first part
followed by that of the second, and a name that has no answer ends both: its failure
is committed, so nothing that changes or recovers from failures touches it. -/
namespace Shorthand.Abbreviation

variable {α β : Type} {opened : List String} {memory : Memory}

theorem inAlias_isCommitted (name : String) (failure : Failure) :
    (failure.inAlias name).isCommitted := by
  cases failure <;> rfl

/-- The ways in which the question for a name is settled. -/
inductive Resolution (readText : List String → Memory → List Char → Reading Node)
    (opened : List String) (memory : Memory) (name : String) : Reading (Option Node) → Prop where
  | opened : name ∈ opened →
      Resolution readText opened memory name (memory.noteCycle opened name, .ok none)
  | given {reply : Option Node} : name ∉ opened → memory.aliases.get? name = reply.map .parsed →
      Resolution readText opened memory name (memory, .ok reply)
  | failed {text : String} {after : Memory} {failure : Failure} :
      name ∉ opened → memory.aliases.get? name = some (.source text) →
        readText (name :: opened) memory text.toList = (after, .error failure) →
          Resolution readText opened memory name (after, .error (failure.inAlias name))
  | read {text : String} {after : Memory} {tree : Node} :
      name ∉ opened → memory.aliases.get? name = some (.source text) →
        readText (name :: opened) memory text.toList = (after, .ok tree) →
          Resolution readText opened memory name (after.remember name tree, .ok (some tree))

theorem resolution (readText : List String → Memory → List Char → Reading Node)
    (opened : List String) (memory : Memory) (name : String) :
    Resolution readText opened memory name (resolve readText opened memory name) := by
  unfold resolve
  split
  · next inside => exact .opened inside
  · next outside =>
    split
    · next known => exact .given outside known
    · next known => exact .given outside known
    · next source =>
      split
      · next ran => exact .failed outside source ran
      · next ran => exact .read outside source ran

theorem Resolution.eq {readText : List String → Memory → List Char → Reading Node}
    {opened : List String} {memory : Memory} {name : String} {result : Reading (Option Node)}
    (h : Resolution readText opened memory name result) :
    resolve readText opened memory name = result := by
  unfold resolve
  cases h with
  | opened inside => rw [if_pos inside]
  | @given reply outside known =>
    rw [if_neg outside]
    cases reply <;> simp only [known, Option.map_none, Option.map_some]
  | failed outside source ran => simp only [if_neg outside, source, ran]
  | read outside source ran => simp only [if_neg outside, source, ran]

/-- A name goes without an answer only when its text has none. -/
theorem resolve_isCommitted {readText : List String → Memory → List Char → Reading Node}
    {name : String} {after : Memory} {failure : Failure}
    (h : resolve readText opened memory name = (after, .error failure)) : failure.isCommitted := by
  have answer := resolution readText opened memory name
  rw [h] at answer
  cases answer with
  | failed outside source ran => exact inAlias_isCommitted _ _

theorem aliases_noteCycle (memory : Memory) (opened : List String) (name : String) :
    (memory.noteCycle opened name).aliases = memory.aliases := by
  unfold Memory.noteCycle
  split <;> rfl

theorem get?_remember_of_ne {name other : String} {tree : Node} (different : other ≠ name) :
    (memory.remember name tree).aliases.get? other = memory.aliases.get? other := by
  unfold Memory.remember
  split
  · rfl
  · exact Table.get?_insert_of_ne _ different

namespace Inquiry

theorem bind_assoc {γ : Type} (i : Inquiry α) (next : α → Inquiry β) (last : β → Inquiry γ) :
    (i >>= next) >>= last = i >>= fun value => next value >>= last := by
  change (i.bind next).bind last = i.bind fun value => (next value).bind last
  induction i with
  | done result => cases result <;> rfl
  | ask name text reply _ ih => exact congrArg (ask name text) (funext fun tree => ih tree next)

theorem bindOr_bind {γ : Type} (i : Inquiry α) (otherwise : Inquiry β) (next : α → Inquiry β)
    (last : β → Inquiry γ) :
    i.bindOr otherwise next >>= last =
      i.bindOr (otherwise >>= last) fun value => next value >>= last := by
  change (i.bindOr otherwise next).bind last =
    i.bindOr (otherwise.bind last) fun value => (next value).bind last
  induction i with
  | done result =>
    cases result with
    | ok value => rfl
    | error failure =>
      rw [bindOr, bindOr]
      split <;> rfl
  | ask name text reply _ ih => exact congrArg (ask name text) (funext fun tree => ih tree next)

@[simp] theorem run_done (result : Except Failure α) :
    (done result).run opened memory = (memory, result) := rfl

@[simp] theorem run_fail (failure : Failure) :
    (fail failure : Inquiry α).run opened memory = (memory, .error failure) := rfl

@[simp] theorem run_pure (value : α) :
    (pure value : Inquiry α).run opened memory = (memory, .ok value) := rfl

theorem run_ask (name : String) (text : List Char → Inquiry Node) (reply : Option Node → Inquiry α) :
    (ask name text reply).run opened memory =
      match resolve (fun opened memory s => (text s).run opened memory) opened memory name with
      | (after, .error failure) => (after, .error failure)
      | (after, .ok tree) => (reply tree).run opened after :=
  run.eq_2 ..

theorem run_bind (i : Inquiry α) (next : α → Inquiry β) :
    (i >>= next).run opened memory =
      match i.run opened memory with
      | (after, .error failure) => (after, .error failure)
      | (after, .ok value) => (next value).run opened after := by
  change (i.bind next).run opened memory = _
  induction i generalizing memory with
  | done result => cases result <;> rfl
  | ask name text reply _ ih =>
    rw [bind, run_ask, run_ask]
    split
    · rfl
    · exact ih _ next

theorem run_bind_eq_ok {i : Inquiry α} {next : α → Inquiry β} {after : Memory} {value : β} :
    (i >>= next).run opened memory = (after, .ok value) ↔
      ∃ middle first, i.run opened memory = (middle, .ok first) ∧
        (next first).run opened middle = (after, .ok value) := by
  rw [run_bind]
  rcases i.run opened memory with ⟨middle, failure | first⟩
  · simp
  · simp [and_assoc]

theorem run_done_bind_eq_ok {outcome : Except Failure α} {next : α → Inquiry β} {after : Memory}
    {value : β} :
    (done outcome >>= next).run opened memory = (after, .ok value) ↔
      ∃ first, outcome = .ok first ∧ (next first).run opened memory = (after, .ok value) := by
  rw [run_bind_eq_ok]
  constructor
  · rintro ⟨middle, first, h, ran⟩
    obtain ⟨rfl, rfl⟩ := by simpa using h
    exact ⟨first, rfl, ran⟩
  · rintro ⟨first, rfl, ran⟩
    exact ⟨memory, first, rfl, ran⟩

theorem run_mapFailure {change : Failure → Failure}
    (fixed : ∀ failure, failure.isCommitted → change failure = failure) (i : Inquiry α) :
    (i.mapFailure change).run opened memory =
      match i.run opened memory with
      | (after, .error failure) => (after, .error (change failure))
      | (after, .ok value) => (after, .ok value) := by
  induction i generalizing memory with
  | done result => cases result <;> rfl
  | ask name text reply _ ih =>
    rw [mapFailure, run_ask, run_ask]
    split
    · next h => simp only [fixed _ (resolve_isCommitted h)]
    · exact ih _

theorem run_mapFailure_eq_ok {change : Failure → Failure} {i : Inquiry α}
    (fixed : ∀ failure, failure.isCommitted → change failure = failure) {after : Memory}
    {value : α} :
    (i.mapFailure change).run opened memory = (after, .ok value) ↔
      i.run opened memory = (after, .ok value) := by
  rw [run_mapFailure fixed]
  rcases i.run opened memory with ⟨middle, failure | first⟩ <;> simp

theorem run_bindOr (i : Inquiry α) (otherwise : Inquiry β) (next : α → Inquiry β) :
    (i.bindOr otherwise next).run opened memory =
      match i.run opened memory with
      | (after, .error failure) =>
        if failure.isCommitted then (after, .error failure) else otherwise.run opened after
      | (after, .ok value) => (next value).run opened after := by
  induction i generalizing memory with
  | done result =>
    cases result with
    | error failure => simp only [bindOr, run_done]; split <;> rfl
    | ok value => rfl
  | ask name text reply _ ih =>
    rw [bindOr, run_ask, run_ask]
    split
    · next h => simp only [resolve_isCommitted h, if_true]
    · exact ih _ next

theorem run_bindOr_eq_ok {i : Inquiry α} {otherwise : Inquiry β} {next : α → Inquiry β}
    {after : Memory} {value : β} :
    (i.bindOr otherwise next).run opened memory = (after, .ok value) ↔
      (∃ middle first, i.run opened memory = (middle, .ok first) ∧
        (next first).run opened middle = (after, .ok value)) ∨
      ∃ middle failure, i.run opened memory = (middle, .error failure) ∧
        ¬failure.isCommitted ∧ otherwise.run opened middle = (after, .ok value) := by
  rw [run_bindOr]
  rcases i.run opened memory with ⟨middle, failure | first⟩
  · by_cases final : failure.isCommitted
    · simp [final]
    · simp [final, and_assoc]
  · simp [and_assoc]

end Inquiry

theorem commit_of_isCommitted {failure : Failure} (h : failure.isCommitted) :
    failure.commit = failure := by
  cases failure with
  | unmet expected committed => obtain rfl : committed = true := h; rfl
  | _ => rfl

theorem afterChild_of_isCommitted {failure : Failure} (h : failure.isCommitted) :
    failure.afterChild = failure := if_pos h

/-- Every value that an inquiry may come to, whatever the replies, has the property. -/
def Inquiry.Holds (property : α → Prop) : Inquiry α → Prop
  | .done (.ok value) => property value
  | .done (.error _) => True
  | .ask _ _ reply => ∀ tree, (reply tree).Holds property

namespace Inquiry

variable {property : α → Prop} {result : β → Prop}

theorem Holds.done_bind {outcome : Except Failure α} {next : α → Inquiry β}
    (h : ∀ value, outcome = .ok value → (next value).Holds result) :
    (Inquiry.done outcome >>= next).Holds result := by
  cases outcome with
  | error failure => trivial
  | ok value => exact h value rfl

theorem holds_true (i : Inquiry α) : i.Holds fun _ => True := by
  induction i with
  | done outcome => cases outcome <;> trivial
  | ask name text reply _ ih => exact ih

theorem Holds.run {i : Inquiry α} (h : i.Holds property) {after : Memory} {value : α}
    (ran : i.run opened memory = (after, .ok value)) : property value := by
  induction i generalizing memory with
  | done outcome =>
    obtain ⟨-, rfl⟩ := by simpa using ran
    exact h
  | ask name text reply _ ih =>
    rw [run_ask] at ran
    split at ran
    · simp at ran
    · exact ih _ (h _) ran

theorem Holds.bind {i : Inquiry α} (h : i.Holds property) {next : α → Inquiry β}
    (step : ∀ value, property value → (next value).Holds result) :
    (i >>= next).Holds result := by
  change (i.bind next).Holds result
  induction i with
  | done outcome =>
    cases outcome with
    | error failure => trivial
    | ok value => exact step value h
  | ask name text reply _ ih => exact fun tree => ih tree (h tree) step

theorem Holds.mapFailure {i : Inquiry α} (h : i.Holds property) (change : Failure → Failure) :
    (i.mapFailure change).Holds property := by
  induction i with
  | done outcome =>
    cases outcome with
    | error failure => trivial
    | ok value => exact h
  | ask name text reply _ ih => exact fun tree => ih tree (h tree)

theorem Holds.bindOr {i : Inquiry α} (h : i.Holds property) {otherwise : Inquiry β}
    {next : α → Inquiry β} (step : ∀ value, property value → (next value).Holds result)
    (other : otherwise.Holds result) : (i.bindOr otherwise next).Holds result := by
  induction i with
  | done outcome =>
    cases outcome with
    | error failure =>
      unfold Inquiry.bindOr
      split
      · trivial
      · exact other
    | ok value => exact step value h
  | ask name text reply _ ih => exact fun tree => ih tree (h tree) step

theorem Holds.mono {i : Inquiry α} (h : i.Holds property) {weaker : α → Prop}
    (imp : ∀ value, property value → weaker value) : i.Holds weaker := by
  induction i with
  | done outcome =>
    cases outcome with
    | error failure => trivial
    | ok value => exact imp value h
  | ask name text reply _ ih => exact fun tree => ih tree (h tree) imp

/-- No failure of the inquiry leaves room for another construct. -/
def Committed : Inquiry α → Prop
  | .done (.ok _) => True
  | .done (.error failure) => failure.isCommitted
  | .ask _ _ reply => ∀ tree, (reply tree).Committed

section Committed

variable {i : Inquiry α} {next : α → Inquiry β}

theorem Committed.bind (first : i.Committed) (step : ∀ value, (next value).Committed) :
    (i >>= next).Committed := by
  change (i.bind next).Committed
  induction i with
  | done outcome =>
    cases outcome with
    | error failure => exact first
    | ok value => exact step value
  | ask name text reply _ ih => exact fun tree => ih tree (first tree) step

theorem Committed.done_bind {outcome : Except Failure α}
    (first : ∀ failure, outcome = .error failure → failure.isCommitted)
    (step : ∀ value, (next value).Committed) : (Inquiry.done outcome >>= next).Committed := by
  cases outcome with
  | error failure => exact first failure rfl
  | ok value => exact step value

theorem committed_mapFailure {change : Failure → Failure}
    (commits : ∀ failure, (change failure).isCommitted) (i : Inquiry α) :
    (i.mapFailure change).Committed := by
  induction i with
  | done outcome =>
    cases outcome with
    | error failure => exact commits failure
    | ok value => trivial
  | ask name text reply _ ih => exact ih

/-- What goes on where there is room for it decides. -/
theorem Committed.bindOr (i : Inquiry α) {otherwise : Inquiry β} (other : otherwise.Committed)
    (step : ∀ value, (next value).Committed) : (i.bindOr otherwise next).Committed := by
  induction i with
  | done outcome =>
    cases outcome with
    | error failure =>
      unfold Inquiry.bindOr
      split
      · assumption
      · exact other
    | ok value => exact step value
  | ask name text reply _ ih => exact fun tree => ih tree step

theorem Committed.run (final : i.Committed) {after : Memory} {failure : Failure}
    (ran : i.run opened memory = (after, .error failure)) : failure.isCommitted := by
  induction i generalizing memory with
  | done outcome =>
    obtain ⟨-, rfl⟩ := by simpa using ran
    exact final
  | ask name text reply _ ih =>
    rw [run_ask] at ran
    split at ran
    · next asked =>
      obtain ⟨-, rfl⟩ := by simpa using ran
      exact resolve_isCommitted asked
    · exact ih _ (final _) ran

end Committed

end Inquiry

end Shorthand.Abbreviation
