import Mathlib
import Shorthand.Proofs.Machine.Failures

/-! The limit in a register of its own. Here a failure says itself which limit was passed. A
reader may keep the limit apart: the check that finds it passed notes it, and fails with an
expectation like any other, which the aliases on the way report as theirs; when the whole
text is refused, the limit that was noted is reported in place of the failure. That reader
goes step by step with the machine, and reports what `read` gives, whatever the check says. -/
namespace Shorthand.Abbreviation.Machine

open StateTransition (Respects eval tr_eval)

/-- The machine, and the limit that it has noted. -/
structure Noting where
  config : Config
  exceeded : Option (Quantity × Nat) := none

namespace Noting

variable {limits : Limits} {wording : Quantity → Nat → Expected} {c : Config} {n : Noting}

/-- A check that finds a limit passed notes the limit, and its failure does not tell. -/
def settle (wording : Quantity → Nat → Expected) (exceeded : Option (Quantity × Nat))
    (c : Config) : Noting :=
  match c.control with
  | .returning (.failed (.exceeded quantity limit)) =>
    { config := c.fails (.unmet (wording quantity limit) true), exceeded := (quantity, limit) }
  | _ => { config := c, exceeded }

def step (limits : Limits) (wording : Quantity → Nat → Expected) (n : Noting) : Option Noting :=
  (Machine.step limits n.config).map (settle wording n.exceeded)

def start (aliases : AliasTable) (s : List Char) : Noting :=
  { config := Machine.start aliases s }

/-- What is reported of a whole text: the limit that was noted, or else the failure. -/
def report (n : Noting) (failure : Failure) : Failure :=
  match n.exceeded with
  | some (quantity, limit) => .exceeded quantity limit
  | none => failure

/-- The two machines at one moment: nothing is noted while no failure tells of a limit, and
when one does, the other is a failure that is committed as well. -/
inductive Follows (c : Config) : Noting → Prop where
  | silent : (∀ quantity limit, ¬GivesUp c quantity limit) → Follows c { config := c }
  | noted {quantity : Quantity} {limit : Nat} {expected : Expected} : GivesUp c quantity limit →
      Follows c { config := c.fails (.unmet expected true), exceeded := (quantity, limit) }

/-- It is noted where it is found passed; nothing was noted before. -/
theorem follows_settle (wording : Quantity → Nat → Expected) (c : Config) :
    Follows c (settle wording none c) := by
  unfold settle
  split
  · next control => exact .noted control
  · next other => exact .silent other

theorem Follows.not_givesUp (follows : Follows c n) (quantity : Quantity) (limit : Nat) :
    ¬GivesUp n.config quantity limit := by
  cases follows with
  | silent unknown => exact unknown quantity limit
  | noted => exact nofun

theorem fails_of_givesUp {quantity : Quantity} {limit : Nat} (givesUp : GivesUp c quantity limit) :
    c.fails (.exceeded quantity limit) = c := by
  obtain ⟨control, stack, depth, opened, memory⟩ := c
  obtain rfl := givesUp
  rfl

theorem reported_unmet (opened : List String) (expected : Expected) :
    ∃ shown, reported opened (.unmet expected true) = .unmet shown true := by
  induction opened generalizing expected with
  | nil => exact ⟨expected, rfl⟩
  | cons name opened ih => exact ih (.aliasExpansion name expected)

/-- A frame does not look at the call whose value it takes. -/
theorem resume_go (control : Control) (frame : Frame) (value : Value) :
    (c.go control).resume limits frame value = c.resume limits frame value := by
  cases frame <;> cases value <;> rfl

/-- What a frame leaves behind does not depend on the committed failure that it is handed. -/
theorem step_fails (limits : Limits) {frame : Frame} {stack : List Frame}
    (waiting : c.stack = frame :: stack) :
    ∃ c', ∀ {failure : Failure}, failure.isCommitted →
      Machine.step limits (c.fails failure) =
        some (Config.fails c' (reported (openedBy [frame]) failure)) := by
  obtain ⟨depth, opened, resumed⟩ := resume_failed limits { c with stack } frame
  refine ⟨{ c with stack, depth, opened }, fun {failure} committed => ?_⟩
  have left := (resume_go (.returning (.failed failure)) frame _).trans (resumed committed)
  rw [Machine.step, show (c.fails failure).stack = frame :: stack from waiting]
  exact left

/-- Each step of the one is a step of the other. -/
theorem respects (limits : Limits) (wording : Quantity → Nat → Expected) :
    Respects (Machine.step limits) (step limits wording) Follows := by
  intro c n follows
  cases follows with
  | silent =>
    cases moved : Machine.step limits c with
    | none => exact congrArg (Option.map _) moved
    | some c' => exact ⟨_, follows_settle wording c', .single (congrArg (Option.map _) moved)⟩
  | @noted quantity limit expected givesUp =>
    cases waiting : c.stack with
    | nil =>
      have ended : ∀ failure, Machine.step limits (c.fails failure) = none := fun failure => by
        rw [Machine.step, show (c.fails failure).stack = [] from waiting]
        rfl
      rw [← fails_of_givesUp givesUp, ended]
      exact congrArg (Option.map _) (ended _)
    | cons frame stack =>
      obtain ⟨c', resumed⟩ := step_fails limits waiting
      obtain ⟨shown, wrapped⟩ := reported_unmet (openedBy [frame]) expected
      have told : Machine.step limits (c.fails (.exceeded quantity limit)) = _ := resumed rfl
      have untold : Machine.step limits (c.fails (.unmet expected true)) = _ := resumed rfl
      rw [reported_exceeded, fails_of_givesUp givesUp] at told
      rw [wrapped] at untold
      rw [told]
      exact ⟨_, .noted rfl, .single (congrArg (Option.map _) untold)⟩

theorem Follows.outcome {result : Except Failure Node} (follows : Follows c n)
    (control : c.control = .returning (.of .whole result)) :
    ∃ outcome, n.config.control = .returning (.of .whole outcome) ∧
      n.config.memory = c.memory ∧ result = outcome.mapError n.report := by
  cases follows with
  | silent =>
    refine ⟨result, control, rfl, ?_⟩
    cases result <;> rfl
  | @noted quantity limit expected givesUp =>
    refine ⟨.error (.unmet expected true), rfl, rfl, ?_⟩
    have same := Control.returning.inj (control.symm.trans givesUp)
    cases result with
    | ok tree => contradiction
    | error failure => exact congrArg Except.error (Value.failed.inj same)

end Noting

/-- The machine that keeps the limit apart stops, no failure of it tells of a limit, and with
the limit that it has noted in place of the failure it comes to what `read` gives. -/
theorem read_eq_report (limits : Limits) (aliases : AliasTable) (abbreviation : String)
    (wording : Quantity → Nat → Expected) :
    let parts := splitFilters abbreviation.toList
    ∃ n outcome, n ∈ eval (Noting.step limits wording) (.start aliases parts.1) ∧
      n.config.control = .returning (.of .whole outcome) ∧
      (∀ quantity limit, outcome ≠ .error (.exceeded quantity limit)) ∧
      read limits aliases abbreviation =
        (n.config.memory.aliases, (outcome.mapError n.report).map (withFilters parts.2)) := by
  intro parts
  have finished := eval_start limits aliases parts.1 (Prod.eta _).symm
  have together : Noting.Follows (start aliases parts.1) (.start aliases parts.1) := .silent nofun
  obtain ⟨n, follows, ended⟩ := tr_eval (Noting.respects limits wording) together finished
  obtain ⟨outcome, control, memory, result⟩ := follows.outcome rfl
  refine ⟨n, outcome, ended, control, fun quantity limit told => ?_, ?_⟩
  · rw [told] at control
    exact follows.not_givesUp quantity limit control
  · rw [memory, ← result]
    rfl

end Shorthand.Abbreviation.Machine
