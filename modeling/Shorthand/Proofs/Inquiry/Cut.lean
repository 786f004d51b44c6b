import Shorthand.Proofs.Inquiry.Run

/-! Inquiries that are cut short. One inquiry is cut short against another when it asks
the same questions and comes to the same results, except in places where it gives up at
the limit on nesting. This carries over to compositions and to runs. -/
namespace Shorthand.Abbreviation.Inquiry

variable {α β : Type}

/-- The first inquiry is the second, given up in places where it is nested too deep. -/
inductive Cut : {α : Type} → Inquiry α → Inquiry α → Prop where
  | exceeded {α : Type} (limit : Nat) (j : Inquiry α) :
      Cut (.fail (.exceeded .nesting limit)) j
  | done {α : Type} (result : Except Failure α) : Cut (.done result) (.done result)
  | ask {α : Type} {name : String} {text text' : List Char → Inquiry Node}
      {reply reply' : Option Node → Inquiry α} :
      (∀ s, Cut (text s) (text' s)) → (∀ tree, Cut (reply tree) (reply' tree)) →
        Cut (.ask name text reply) (.ask name text' reply')

namespace Cut

variable {i j : Inquiry α}

theorem refl (i : Inquiry α) : Cut i i := by
  induction i with
  | done result => exact .done result
  | ask name text reply textIh ih => exact .ask textIh ih

theorem bind (first : Cut i j) {next next' : α → Inquiry β}
    (step : ∀ value, Cut (next value) (next' value)) : Cut (i >>= next) (j >>= next') := by
  change Cut (i.bind next) (j.bind next')
  induction first with
  | exceeded limit j => exact .exceeded limit _
  | done result =>
    cases result with
    | error failure => exact .refl _
    | ok value => exact step value
  | ask text _ _ ih => exact .ask text fun tree => ih tree step

theorem mapFailure {change : Failure → Failure}
    (fixed : ∀ limit, change (.exceeded .nesting limit) = .exceeded .nesting limit)
    (first : Cut i j) : Cut (i.mapFailure change) (j.mapFailure change) := by
  induction first with
  | exceeded limit j =>
    rw [fail, Inquiry.mapFailure, fixed]
    exact .exceeded limit _
  | done result => exact .refl _
  | ask text _ _ ih => exact .ask text ih

theorem bindOr (first : Cut i j) {otherwise otherwise' : Inquiry β} {next next' : α → Inquiry β}
    (other : Cut otherwise otherwise') (step : ∀ value, Cut (next value) (next' value)) :
    Cut (i.bindOr otherwise next) (j.bindOr otherwise' next') := by
  induction first with
  | exceeded limit j => exact .exceeded limit _
  | done result =>
    cases result with
    | error failure =>
      unfold Inquiry.bindOr
      split
      · exact .refl _
      · exact other
    | ok value => exact step value
  | ask text _ _ ih => exact .ask text fun tree => ih tree step

end Cut

end Inquiry

/-- Reading was given up at a limit. -/
def GivenUp {α : Type} (result : Except Failure α) : Prop :=
  ∃ quantity limit, result = .error (.exceeded quantity limit)

/-- Reading was given up where it was nested too deep. -/
def TooDeep {α : Type} (result : Except Failure α) : Prop :=
  ∃ limit, result = .error (.exceeded .nesting limit)

theorem TooDeep.givenUp {α : Type} {result : Except Failure α} (deep : TooDeep result) :
    GivenUp result :=
  ⟨.nesting, deep⟩

theorem resolve_cut {readText readText' : List String → Memory → List Char → Reading Node}
    (h : ∀ opened memory s, TooDeep (readText opened memory s).2 ∨
      readText opened memory s = readText' opened memory s)
    (opened : List String) (memory : Memory) (name : String) :
    TooDeep (resolve readText opened memory name).2 ∨
      resolve readText opened memory name = resolve readText' opened memory name := by
  have answer := resolution readText opened memory name
  generalize resolve readText opened memory name = result at answer ⊢
  cases answer with
  | opened inside => exact .inr (Resolution.opened inside).eq.symm
  | given outside known => exact .inr (Resolution.given outside known).eq.symm
  | failed outside source ran =>
    rcases h (name :: opened) memory _ with ⟨limit, exceeded⟩ | same
    · rw [ran] at exceeded
      obtain rfl := Except.error.inj exceeded
      exact .inl ⟨limit, rfl⟩
    · exact .inr (Resolution.failed outside source (same.symm.trans ran)).eq.symm
  | read outside source ran =>
    rcases h (name :: opened) memory _ with ⟨limit, exceeded⟩ | same
    · rw [ran] at exceeded
      contradiction
    · exact .inr (Resolution.read outside source (same.symm.trans ran)).eq.symm

/-- Up to the limit, an inquiry that is cut short does what the other does. -/
theorem Inquiry.Cut.run {α : Type} {i j : Inquiry α} (first : Cut i j) (opened : List String)
    (memory : Memory) :
    TooDeep (i.run opened memory).2 ∨ i.run opened memory = j.run opened memory := by
  induction first generalizing opened memory with
  | exceeded limit j => exact .inl ⟨limit, rfl⟩
  | done result => exact .inr rfl
  | @ask _ name text text' reply reply' _ _ textIh ih =>
    rw [run_ask, run_ask]
    have asked := resolve_cut (fun opened memory s => textIh s opened memory) opened memory name
    rcases asked with ⟨limit, exceeded⟩ | same
    · left
      generalize resolve _ opened memory name = result at exceeded ⊢
      obtain ⟨after, _⟩ := result
      obtain rfl : _ = _ := exceeded
      exact ⟨limit, rfl⟩
    · rw [same]
      split
      · exact .inr rfl
      · exact ih _ _ _

end Shorthand.Abbreviation
