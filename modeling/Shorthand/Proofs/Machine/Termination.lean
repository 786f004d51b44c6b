import Mathlib
import Shorthand.Proofs.Machine.Calls
import Shorthand.Proofs.Machine.Invariant

/-! Reading ends. Whatever the aliases are, and however they mention each other, the machine
that reads an abbreviation stops, with what `read` gives. -/
namespace Shorthand.Abbreviation.Machine

open StateTransition (Reaches eval mem_eval)

variable {limits : Limits}

/-- The call that `c` is about to make comes to an end, at which the stack, the depth and
the opened aliases are what they are now. -/
def ComesBack (limits : Limits) (c : Config) : Prop :=
  ∃ value memory, (⟨.returning value, c.stack, c.depth, c.opened, memory⟩ : Config) ∈
    eval (stepOfCall limits c.stack.length) c

theorem Answers.comesBack {α : Type} {depth : Nat} {control : Control} {shown : α → Value}
    {i : Inquiry α} (h : Answers limits depth control [] shown i) (stack : List Frame)
    (opened : List String) (memory : Memory) :
    ComesBack limits ⟨control, stack, depth, opened, memory⟩ :=
  ⟨_, _, mem_eval.mpr ⟨h stack opened memory, if_pos ⟨rfl, le_rfl⟩⟩⟩

theorem comesBack_expression (stack : List Frame) (depth : Nat) (opened : List String)
    (memory : Memory) (s : List Char) :
    ComesBack limits ⟨.expression s, stack, depth, opened, memory⟩ :=
  (expression_answers limits depth s).comesBack stack opened memory

theorem comesBack_resolve (stack : List Frame) (depth : Nat) (opened : List String)
    (memory : Memory) (name : String) :
    ComesBack limits ⟨.resolve name, stack, depth, opened, memory⟩ :=
  (resolve_answers (expression_answers limits depth) name).comesBack stack opened memory

theorem eval_start (limits : Limits) (aliases : AliasTable) (s : List Char)
    {after : Memory} {result : Except Failure Node}
    (ran : (complete (expression limits limits.maxDepth) s).run [] { aliases } = (after, result)) :
    (⟨.returning (.of .whole result), [], 0, [], after⟩ : Config) ∈
      eval (step limits) (start aliases s) := by
  have whole := complete_answers (expression_answers limits 0) s [] [] { aliases }
  rw [Nat.sub_zero, ran] at whole
  exact mem_eval.mpr ⟨reaches_of_stepOfCall whole, rfl⟩

/-- Whatever the aliases and the limits are, the machine stops with what `read` gives; at
every moment the opened aliases are distinct, each with its text still to be read, and the
depth is within a bound that the texts alone give; and every expression, and every name,
that is begun comes to an end with the depth and the opened aliases that it began with. -/
theorem reading_terminates (limits : Limits) (aliases : AliasTable) (abbreviation : String) :
    (∃ result after,
      (⟨.returning (.of .whole result), [], 0, [], after⟩ : Config) ∈
        eval (step limits) (start aliases (splitFilters abbreviation.toList).1) ∧
      read limits aliases abbreviation =
        (after.aliases, result.map (withFilters (splitFilters abbreviation.toList).2))) ∧
    (∀ c, Reaches (step limits) (start aliases (splitFilters abbreviation.toList).1) c →
      c.opened.Nodup ∧
      (∀ name ∈ c.opened, ∃ text, c.memory.aliases.get? name = some (.source text)) ∧
      c.depth ≤ deepest aliases (splitFilters abbreviation.toList).1.length) ∧
    ∀ c : Config, (∃ s, c.control = .expression s) ∨ (∃ name, c.control = .resolve name) →
      ComesBack limits c := by
  refine ⟨?_, fun c path => ?_, ?_⟩
  · exact ⟨_, _, eval_start limits aliases _ (Prod.eta _), rfl⟩
  · have sound := (sound_start aliases _).reaches path
    exact ⟨sound.distinct, sound.sources, sound.depth_le⟩
  · rintro ⟨control, stack, depth, opened, memory⟩ (⟨s, rfl⟩ | ⟨name, rfl⟩)
    · exact comesBack_expression stack depth opened memory s
    · exact comesBack_resolve stack depth opened memory name

/-- Two aliases that mention each other. -/
def ring : AliasTable := [("x", .source "y.first"), ("y", .source "x.second")]

theorem reaches_of_iterate {n : Nat} {c c' : Config}
    (h : (fun c => c.bind (step limits))^[n] (some c) = some c') : Reaches (step limits) c c' := by
  induction n generalizing c' with
  | zero =>
    obtain rfl := Option.some.inj h
    exact .refl
  | succ n ih =>
    rw [Function.iterate_succ_apply'] at h
    obtain ⟨last, before, step⟩ := Option.bind_eq_some_iff.mp h
    exact .tail (ih before) step

/-- Both aliases of the ring are open when `x` is asked for again. -/
theorem reading_terminates_ring :
    ∃ c, Reaches (step {}) (start ring (splitFilters "x".toList).1) c ∧ c.control = .resolve "x" ∧
      c.opened = ["y", "x"] ∧ c.opened.Nodup ∧ ComesBack {} c := by
  have moment : ((fun c => c.bind (step {}))^[17]
      (some (start ring (splitFilters "x".toList).1))).map (fun c => (c.control, c.opened)) =
        some (.resolve "x", ["y", "x"]) := by
    cbv
  obtain ⟨c, path, here⟩ := Option.map_eq_some_iff.mp moment
  obtain ⟨control, opened⟩ := Prod.mk.inj here
  obtain ⟨-, during, back⟩ := reading_terminates {} ring "x"
  have path := reaches_of_iterate path
  exact ⟨c, path, control, opened, (during c path).1, back c (.inr ⟨"x", control⟩)⟩

end Shorthand.Abbreviation.Machine
