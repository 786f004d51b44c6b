import Mathlib
import Shorthand.Proofs.Grammar.Commitment
import Shorthand.Proofs.Machine.Termination

/-! Failures that are kept. Every frame of the machine hands a committed failure on, and
only the frames of aliases change it, so whatever is still to be done when one comes up,
reading ends with it. A limit is reported as it is, in the text of an alias too; and it is
reported only where one of the checks has found it passed. -/
namespace Shorthand.Abbreviation.Machine

open StateTransition (Reaches eval mem_eval reaches_eval)

variable {limits : Limits} {failure : Failure} {quantity : Quantity} {limit : Nat}

/-- What is reported outside the aliases inside which the failure came up, the latest first. -/
def reported (opened : List String) (failure : Failure) : Failure :=
  opened.foldl (fun failure name => failure.inAlias name) failure

theorem reported_append (inner outer : List String) (failure : Failure) :
    reported (inner ++ outer) failure = reported outer (reported inner failure) :=
  List.foldl_append

theorem reported_isCommitted (committed : failure.isCommitted) (opened : List String) :
    (reported opened failure).isCommitted := by
  induction opened generalizing failure with
  | nil => exact committed
  | cons name opened ih => exact ih (inAlias_isCommitted name failure)

theorem reported_exceeded (opened : List String) (quantity : Quantity) (limit : Nat) :
    reported opened (.exceeded quantity limit) = .exceeded quantity limit := by
  induction opened with
  | nil => rfl
  | cons name opened ih => exact ih

section Unwinding

variable (limits) in
/-- No frame recovers from a committed failure, whichever it is. -/
theorem resume_failed (c : Config) (frame : Frame) :
    ∃ depth opened, ∀ {failure : Failure}, failure.isCommitted →
      c.resume limits frame (.failed failure) =
        some { c.fails (reported (openedBy [frame]) failure) with depth, opened } := by
  cases frame with
  | level => exact ⟨c.depth - 1, c.opened, fun _ => rfl⟩
  | opened name => exact ⟨c.depth, c.opened.tail, fun _ => rfl⟩
  | group =>
    refine ⟨c.depth, c.opened, fun committed => ?_⟩
    rw [Config.resume, commit_of_isCommitted committed]
    rfl
  | child subject count =>
    refine ⟨c.depth, c.opened, fun committed => ?_⟩
    rw [Config.resume, afterChild_of_isCommitted committed]
    rfl
  | further operands rest =>
    exact ⟨c.depth, c.opened, fun committed => congrArg some (if_pos committed)⟩
  | whole | tag tag rest | subject | first | shorthand operands tag rest =>
    exact ⟨c.depth, c.opened, fun _ => rfl⟩

variable (limits) in
/-- So the stack is left with it. -/
theorem reaches_failed (committed : failure.isCommitted) (stack : List Frame) (depth : Nat)
    (opened : List String) (memory : Memory) :
    ∃ depth' opened', Reaches (step limits) ⟨.returning (.failed failure), stack, depth, opened, memory⟩
      ⟨.returning (.failed (reported (openedBy stack) failure)), [], depth', opened', memory⟩ := by
  induction stack generalizing failure depth opened with
  | nil => exact ⟨depth, opened, .refl⟩
  | cons frame stack ih =>
    let c : Config := ⟨.returning (.failed failure), stack, depth, opened, memory⟩
    obtain ⟨depth₁, opened₁, resumed⟩ := resume_failed limits c frame
    obtain ⟨depth₂, opened₂, path⟩ :=
      ih (reported_isCommitted committed (openedBy [frame])) depth₁ opened₁
    have all : openedBy (frame :: stack) = openedBy [frame] ++ openedBy stack :=
      List.filterMap_append (l := [frame])
    rw [all, reported_append]
    exact ⟨depth₂, opened₂, .head (resumed committed) path⟩

/-- A committed failure that comes up anywhere is what reading a whole text comes to. -/
theorem run_of_failed {aliases : AliasTable} {s : List Char} {c : Config}
    (path : Reaches (step limits) (start aliases s) c)
    (control : c.control = .returning (.failed failure)) (committed : failure.isCommitted) :
    ((complete (expression limits limits.maxDepth) s).run [] { aliases }).2 =
      .error (reported c.opened failure) := by
  have finished := eval_start limits aliases s (Prod.eta _).symm
  rw [reaches_eval path] at finished
  have opened := ((sound_start aliases s).reaches path).opened_eq
  obtain ⟨_, stack, depth, _, memory⟩ := c
  obtain rfl : _ = Control.returning (.failed failure) := control
  obtain ⟨depth', opened', unwound⟩ := reaches_failed limits committed stack depth _ memory
  have same := Part.mem_unique finished (mem_eval.mpr ⟨unwound, rfl⟩)
  have value := Control.returning.inj (congrArg Config.control same)
  rw [opened]
  generalize ((complete (expression limits limits.maxDepth) s).run [] { aliases }).2 = result at value ⊢
  cases result with
  | ok tree => contradiction
  | error failure => exact congrArg Except.error (Value.failed.inj value)

end Unwinding

section Checks

/-- The next step is a check that finds a limit passed. -/
inductive Overruns (limits : Limits) (c : Config) : Quantity → Nat → Prop where
  /-- Expressions are nested too deep. -/
  | nesting {s : List Char} : c.control = .expression s → limits.maxDepth ≤ c.depth →
      Overruns limits c .nesting limits.maxDepth
  /-- The copies of an atom would have too many nodes. -/
  | copies {node : Node} {rest after : List Char} {count : Nat} : c.control = .subject node rest →
      repeatCount rest = .ok (some count, after) → after.head? ≠ some '>' →
      limits.maxNodes < node.nodeCount * count → Overruns limits c .nodes limits.maxNodes
  /-- A tree with a child grafted on would, or its copies. -/
  | graft {subject child whole : Node} {count : Option Nat} {rest : List Char}
      {stack : List Frame} : c.control = .returning (.node child rest) →
      c.stack = .child subject count :: stack → subject.graft? child = some whole →
      (limits.maxNodes < whole.nodeCount ∨
        ∃ n, count = some n ∧ limits.maxNodes < whole.nodeCount * n) →
      Overruns limits c .nodes limits.maxNodes
  /-- A chain has too many nodes. -/
  | chain {operands : Operands} {s : List Char} : c.control = .further operands s →
      s.head? ≠ some '+' → operands.toNode.isChain →
      limits.maxNodes < operands.toNode.nodeCount → Overruns limits c .nodes limits.maxNodes

variable {c c' : Config}

/-- The machine is about to report that a limit is passed. -/
def GivesUp (c : Config) (quantity : Quantity) (limit : Nat) : Prop :=
  c.control = .returning (.failed (.exceeded quantity limit))

/-- A check that finds the limit passed reports it. -/
theorem Overruns.step (overruns : Overruns limits c quantity limit) :
    ∃ c', step limits c = some c' ∧ GivesUp c' quantity limit := by
  unfold Machine.step
  cases overruns with
  | nesting control deep =>
    rw [control]
    refine ⟨_, rfl, ?_⟩
    rw [Config.expression, if_pos deep]
    rfl
  | @copies node rest after count control counted plain many =>
    rw [control]
    refine ⟨_, rfl, ?_⟩
    have copied := materialize_eq_error.mpr ⟨⟨count, rfl, many⟩, rfl⟩
    unfold Config.subject
    rw [counted]
    split
    · contradiction
    · next heq =>
      obtain ⟨rfl, rfl⟩ := Prod.mk.inj (Except.ok.inj heq)
      contradiction
    · next heq =>
      obtain ⟨rfl, rfl⟩ := Prod.mk.inj (Except.ok.inj heq)
      rw [copied]
      rfl
  | graft control waiting grafted many =>
    rw [control, waiting]
    refine ⟨_, rfl, ?_⟩
    have failed := graftAndMaterialize_eq_error.mpr (.inr ⟨⟨_, grafted, many⟩, rfl⟩)
    rw [failed]
    rfl
  | chain control ended chain many =>
    rw [control]
    refine ⟨_, rfl, ?_⟩
    have refused := admitChain_eq_error.mpr ⟨⟨chain, many⟩, rfl⟩
    unfold Config.further
    split
    · contradiction
    · rw [refused]
      rfl

theorem not_isMissing_exceeded : ¬IsMissing (.exceeded quantity limit) := by
  rintro ⟨expected, same⟩
  contradiction

theorem GivesUp.of_fails (givesUp : GivesUp (c.fails failure) quantity limit) :
    failure = .exceeded quantity limit :=
  Value.failed.inj (Control.returning.inj givesUp)

theorem GivesUp.of_returns {α : Type} {shown : α → Value} {result : Except Failure α}
    (plain : ∀ value failure, shown value ≠ .failed failure)
    (givesUp : GivesUp (c.returns (.of shown result)) quantity limit) :
    result = .error (.exceeded quantity limit) := by
  have same : Value.of shown result = _ := Control.returning.inj givesUp
  cases result with
  | ok value => exact absurd same (plain value _)
  | error failure => exact congrArg Except.error (Value.failed.inj same)

theorem node_ne_failed {rest : List Char} (node : Node) (failure : Failure) :
    Value.node node rest ≠ .failed failure := nofun

/-- What only reads a tag finds constructs missing and passes no limit. -/
theorem not_givesUp_atom (s : List Char) : ¬GivesUp (c.atom s) quantity limit := by
  have missing : ∀ {failure}, IsMissing failure → ¬GivesUp (c.fails failure) quantity limit :=
    fun missing givesUp => not_isMissing_exceeded (givesUp.of_fails ▸ missing)
  have expanded : ∀ tag rest, ¬GivesUp (c.expandTag tag rest) quantity limit := by
    intro tag rest
    unfold Config.expandTag
    split <;> exact nofun
  unfold Config.atom
  split
  · exact nofun
  · next rest =>
    intro givesUp
    exact not_isMissing_exceeded (bracedText_isMissing (givesUp.of_returns fun (content, _) => node_ne_failed (.text content)))
  · split
    · unfold Config.namedTag
      split
      · next unread => exact missing (tagBody_isMissing unread)
      · split
        · exact nofun
        · exact expanded _ _
    · split
      · unfold Config.impliedTag
        split
        · next unread => exact missing (tagBody_isMissing unread)
        · exact expanded _ _
      · exact nofun
  · exact nofun

theorem GivesUp.of_subject {node : Node} {rest : List Char} (control : c.control = .subject node rest)
    (givesUp : GivesUp (c.subject limits node rest) quantity limit) :
    Overruns limits c quantity limit := by
  unfold Config.subject at givesUp
  split at givesUp
  · next unread =>
    exact absurd (givesUp.of_fails ▸ repeatCount_isMissing unread) not_isMissing_exceeded
  · contradiction
  · next count after plain counted =>
    obtain ⟨⟨n, rfl, many⟩, same⟩ := materialize_eq_error.mp (givesUp.of_returns node_ne_failed)
    obtain ⟨rfl, rfl⟩ := Failure.exceeded.inj same
    refine .copies control counted (fun child => ?_) many
    obtain ⟨below, rfl⟩ := List.head?_eq_some_iff.mp child
    exact plain below rfl

theorem GivesUp.of_further {operands : Operands} {s : List Char}
    (control : c.control = .further operands s)
    (givesUp : GivesUp (c.further limits operands s) quantity limit) :
    Overruns limits c quantity limit := by
  unfold Config.further at givesUp
  split at givesUp
  · contradiction
  · next ended =>
    obtain ⟨⟨chain, many⟩, same⟩ := admitChain_eq_error.mp (givesUp.of_returns node_ne_failed)
    obtain ⟨rfl, rfl⟩ := Failure.exceeded.inj same
    refine .chain control (fun more => ?_) chain many
    obtain ⟨rest, rfl⟩ := List.head?_eq_some_iff.mp more
    exact ended rest rfl

section Resume

variable {frame : Frame}

/-- A frame that is handed a failure reports no limit but the one it is handed. -/
theorem GivesUp.of_resume_failed (resumed : c.resume limits frame (.failed failure) = some c')
    (givesUp : GivesUp c' quantity limit) : failure = .exceeded quantity limit := by
  cases frame with
  | group =>
    obtain rfl := Option.some.inj resumed
    have same := givesUp.of_fails
    cases failure with
    | unmet expected committed => contradiction
    | _ => exact same
  | opened name =>
    obtain rfl := Option.some.inj resumed
    have same : failure.inAlias name = _ := Value.failed.inj (Control.returning.inj givesUp)
    cases failure with
    | unmet expected committed => contradiction
    | _ => exact same
  | child subject count =>
    obtain rfl := Option.some.inj resumed
    have same := givesUp.of_fails
    unfold Failure.afterChild at same
    split at same
    · exact same
    · contradiction
  | further operands rest =>
    obtain rfl := Option.some.inj resumed
    split at givesUp
    · exact givesUp.of_fails
    · cases givesUp
  | whole | level | tag tag rest | subject | first | shorthand operands tag rest =>
    obtain rfl := Option.some.inj resumed
    exact Value.failed.inj (Control.returning.inj givesUp)

/-- A frame that is handed a reply may miss an alias, but passes no limit. -/
theorem not_givesUp_of_reply {tree : Option Node}
    (resumed : c.resume limits frame (.reply tree) = some c') : ¬GivesUp c' quantity limit := by
  intro givesUp
  cases frame with
  | shorthand operands tag rest =>
    cases tree with
    | none =>
      obtain rfl := Option.some.inj resumed
      exact not_isMissing_exceeded (givesUp.of_fails ▸ isMissing_unmet .operandAfterPlus)
    | some tree =>
      obtain rfl := Option.some.inj resumed
      cases givesUp
  | level | tag tag rest =>
    obtain rfl := Option.some.inj resumed
    cases givesUp
  | whole | opened name | group | subject | child subject count | first
  | further operands rest => contradiction

/-- A frame that is handed a node passes a limit only where it grafts the node on. -/
theorem GivesUp.of_resume_node {tree : Node} {rest : List Char}
    (resumed : c.resume limits frame (.node tree rest) = some c')
    (givesUp : GivesUp c' quantity limit) :
    ∃ subject count, frame = .child subject count ∧
      graftAndMaterialize limits subject tree count = .error (.exceeded quantity limit) := by
  cases frame with
  | whole =>
    obtain rfl := Option.some.inj resumed
    split at givesUp
    · cases givesUp
    · exact absurd (givesUp.of_fails ▸ isMissing_unmet (.endOfInput _)) not_isMissing_exceeded
  | group =>
    obtain rfl := Option.some.inj resumed
    unfold Config.closeGroup at givesUp
    split at givesUp
    · cases givesUp
    · exact absurd (givesUp.of_fails ▸ isMissing_unmet .groupEnd) not_isMissing_exceeded
  | child subject count =>
    obtain rfl := Option.some.inj resumed
    exact ⟨subject, count, rfl, givesUp.of_returns node_ne_failed⟩
  | level | opened name | subject | first | further operands rest' =>
    obtain rfl := Option.some.inj resumed
    cases givesUp
  | tag tag rest' | shorthand operands tag rest' => contradiction

/-- So a frame reports a limit that it is handed, or grafts a child on. -/
theorem GivesUp.of_resume {stack : List Frame} {value : Value}
    (control : c.control = .returning value) (waiting : c.stack = frame :: stack)
    (resumed : { c with stack }.resume limits frame value = some c')
    (givesUp : GivesUp c' quantity limit) :
    GivesUp c quantity limit ∨ Overruns limits c quantity limit := by
  cases value with
  | failed failure =>
    obtain rfl := givesUp.of_resume_failed resumed
    exact .inl control
  | reply tree => exact absurd givesUp (not_givesUp_of_reply resumed)
  | node tree rest =>
    obtain ⟨subject, count, rfl, refused⟩ := givesUp.of_resume_node resumed
    obtain ⟨-, same⟩ | ⟨⟨grown, grafted, many⟩, same⟩ := graftAndMaterialize_eq_error.mp refused
    · contradiction
    · obtain ⟨rfl, rfl⟩ := Failure.exceeded.inj same
      exact .inr (.graft control waiting grafted many)

end Resume

/-- A limit is reported where it was reported before, or where a check finds it passed. -/
theorem GivesUp.of_step (moved : step limits c = some c') (givesUp : GivesUp c' quantity limit) :
    GivesUp c quantity limit ∨ Overruns limits c quantity limit := by
  unfold Machine.step at moved
  split at moved
  · obtain rfl := Option.some.inj moved
    cases givesUp
  · next s control =>
    obtain rfl := Option.some.inj moved
    unfold Config.expression at givesUp
    split at givesUp
    · next deep =>
      obtain ⟨rfl, rfl⟩ := Failure.exceeded.inj givesUp.of_fails
      exact .inr (.nesting control deep)
    · cases givesUp
  · obtain rfl := Option.some.inj moved
    cases givesUp
  · next control =>
    obtain rfl := Option.some.inj moved
    exact .inr (givesUp.of_further control)
  · obtain rfl := Option.some.inj moved
    unfold Config.shorthand at givesUp
    split at givesUp <;> cases givesUp
  · obtain rfl := Option.some.inj moved
    cases givesUp
  · next control =>
    obtain rfl := Option.some.inj moved
    exact .inr (givesUp.of_subject control)
  · obtain rfl := Option.some.inj moved
    exact absurd givesUp (not_givesUp_atom _)
  · obtain rfl := Option.some.inj moved
    unfold Config.resolve at givesUp
    split at givesUp
    · cases givesUp
    · split at givesUp <;> cases givesUp
  · next control =>
    split at moved
    · contradiction
    · next waiting => exact givesUp.of_resume control waiting moved

/-- So where a limit is reported, a check found it passed on the way. -/
theorem overruns_of_givesUp {aliases : AliasTable} {s : List Char}
    (path : Reaches (step limits) (start aliases s) c) (givesUp : GivesUp c quantity limit) :
    ∃ c, Reaches (step limits) (start aliases s) c ∧ Overruns limits c quantity limit := by
  induction path with
  | refl => contradiction
  | tail path moved ih =>
    obtain before | here := givesUp.of_step moved
    · exact ih before
    · exact ⟨_, path, here⟩

end Checks

/-- Whether an atom begins is decided by the first character. -/
theorem startsAtom_eq_false {s : List Char} :
    startsAtom s = false ↔ ∀ c ∈ s.head?, ¬(c.isAlpha ∨ c ∈ ['!', '#', '.', '(', '{']) := by
  cases s with
  | nil => simp [startsAtom]
  | cons c s => simp [startsAtom, isNameStart]; tauto

/-- A text is refused without commitment only where it begins no atom. -/
theorem run_complete_soft {room : Nat} {s : List Char} {opened : List String} {memory : Memory} :
    (∃ expected, ((complete (expression limits room) s).run opened memory).2 =
        .error (.unmet expected false)) ↔ 0 < room ∧ startsAtom s = false := by
  constructor
  · rintro ⟨expected, soft⟩
    by_contra kept
    have committed : (complete (expression limits room) s).Committed := by
      cases room with
      | zero => rfl
      | succ room =>
        rw [and_iff_right room.succ_pos, Bool.not_eq_false] at kept
        exact complete_committed (chain_committed kept)
    exact Bool.noConfusion (committed.run (Prod.ext rfl soft))
  · rintro ⟨deep, absent⟩
    obtain ⟨room, rfl⟩ := Nat.exists_eq_add_one.mpr deep
    refine ⟨.operand, ?_⟩
    rw [complete, expression, chain, operand_eq_fail absent]
    rfl

/-- Reading an abbreviation fails without commitment exactly where it is let in and begins no
atom. It reports a limit exactly where one of the checks comes up that finds it passed, and
then that limit. And whatever committed failure comes up is the one that is reported, under
the names of the aliases whose texts are being read. -/
theorem reading_fails (limits : Limits) (aliases : AliasTable) (abbreviation : String) :
    let body := (splitFilters abbreviation.toList).1
    let result := (read limits aliases abbreviation).2
    ((∃ expected, result = .error (.unmet expected false)) ↔
      1 ≤ limits.maxDepth ∧ ∀ c ∈ body.head?, ¬(c.isAlpha ∨ c ∈ ['!', '#', '.', '(', '{'])) ∧
    (∀ quantity limit, result = .error (.exceeded quantity limit) ↔
      ∃ c, Reaches (step limits) (start aliases body) c ∧ Overruns limits c quantity limit) ∧
    ∀ c failure, Reaches (step limits) (start aliases body) c →
      c.control = .returning (.failed failure) → failure.isCommitted →
        result = .error (reported c.opened failure) := by
  intro body result
  have failed : ∀ failure, result = .error failure ↔
      ((complete (expression limits limits.maxDepth) body).run [] { aliases }).2 =
        .error failure := fun failure => map_eq_error
  simp only [failed]
  refine ⟨?_, fun quantity limit => ⟨fun failed => ?_, ?_⟩, ?_⟩
  · rw [← startsAtom_eq_false]
    exact run_complete_soft
  · have finished := eval_start limits aliases body (Prod.eta _).symm
    rw [failed] at finished
    exact overruns_of_givesUp (mem_eval.mp finished).1 rfl
  · rintro ⟨c, path, overruns⟩
    obtain ⟨c', moved, givesUp⟩ := overruns.step
    rw [run_of_failed (path.tail moved) givesUp rfl, reported_exceeded]
  · intro c failure path control committed
    exact run_of_failed path control committed

/-- An alias whose text is long, and one whose text is cut short. -/
def rows : AliasTable := [("row", .source "td*4"), ("cell", .source "td#")]

/-- In the texts of aliases, inside a group and after a `+`, a limit is passed and an id is
missing. -/
theorem reading_fails_rows :
    (∃ c, Reaches (step { maxNodes := 3 }) (start rows (splitFilters "tr>(row)".toList).1) c ∧
      c.opened = ["row"] ∧ Overruns { maxNodes := 3 } c .nodes 3 ∧
      (read { maxNodes := 3 } rows "tr>(row)").2 = .error (.exceeded .nodes 3)) ∧
    ∃ c, Reaches (step {}) (start rows (splitFilters "td+cell+".toList).1) c ∧
      c.control = .returning (.failed (.unmet .idName true)) ∧ c.opened = ["cell"] ∧
      (read {} rows "td+cell+").2 = .error (.unmet (.aliasExpansion "cell" .idName) true) := by
  constructor
  · have moment : ((fun c => c.bind (step { maxNodes := 3 }))^[26]
        (some (start rows (splitFilters "tr>(row)".toList).1))).map
          (fun c => (c.control, c.opened)) =
            some (.subject (.tag { name := .ofSelector "td".toList }) "*4".toList, ["row"]) := by
      cbv
    obtain ⟨c, path, here⟩ := Option.map_eq_some_iff.mp moment
    obtain ⟨control, opened⟩ := Prod.mk.inj here
    have path := reaches_of_iterate path
    have counted : repeatCount "*4".toList = .ok (some 4, []) := by decide +kernel
    have overruns : Overruns { maxNodes := 3 } c .nodes 3 :=
      .copies control counted (by decide) (by decide)
    have reported := (reading_fails { maxNodes := 3 } rows "tr>(row)").2.1 .nodes 3
    exact ⟨c, path, opened, overruns, reported.mpr ⟨c, path, overruns⟩⟩
  · have moment : ((fun c => c.bind (step {}))^[19]
        (some (start rows (splitFilters "td+cell+".toList).1))).map
          (fun c => (c.control, c.opened)) =
            some (.returning (.failed (.unmet .idName true)), ["cell"]) := by
      cbv
    obtain ⟨c, path, here⟩ := Option.map_eq_some_iff.mp moment
    obtain ⟨control, opened⟩ := Prod.mk.inj here
    have path := reaches_of_iterate path
    have kept := (reading_fails {} rows "td+cell+").2.2 c _ path control rfl
    rw [opened] at kept
    exact ⟨c, path, control, opened, kept⟩

end Shorthand.Abbreviation.Machine
