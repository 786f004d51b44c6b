import Shorthand.Proofs.Grammar.Tokens
import Shorthand.Proofs.Machine.Step

/-! Calls come back. Whatever the stack and the registers hold, each call of the machine
ends in finitely many steps with the value that the reader of the same name comes to, and
on the same stack and the same registers. -/
namespace Shorthand.Abbreviation.Machine

open StateTransition (Reaches)

variable {α β : Type} {limits : Limits} {depth : Nat} {control control' : Control}
  {frame : Frame} {frames frames' : List Frame} {shown : α → Value} {shown' : β → Value}
  {i : Inquiry α} {j : Inquiry β}

theorem stepOfCall_of_lt {height : Nat} {c : Config} (h : height < c.stack.length) :
    stepOfCall limits height c = step limits c :=
  if_neg (by omega)

/-- What happens in a call on a higher stack happens in the calls around it. -/
theorem reaches_of_call {low high : Nat} {c c' : Config} (le : low ≤ high)
    (h : Reaches (stepOfCall limits high) c c') : Reaches (stepOfCall limits low) c c' := by
  refine Relation.ReflTransGen.mono (fun a b step => ?_) _ _ h
  unfold stepOfCall at step ⊢
  split at step
  · contradiction
  · next inside => rwa [if_neg fun out => inside ⟨out.1, out.2.trans le⟩]

theorem reaches_of_stepOfCall {height : Nat} {c c' : Config}
    (h : Reaches (stepOfCall limits height) c c') : Reaches (step limits) c c' := by
  refine Relation.ReflTransGen.mono (fun a b taken => ?_) _ _ h
  unfold stepOfCall at taken
  split at taken
  · contradiction
  · exact taken

/-- With `frames` on the stack, the machine comes to the result of the inquiry; then the
frames are gone, and everything below them is as it was. -/
def Answers (limits : Limits) (depth : Nat) (control : Control) (frames : List Frame)
    (shown : α → Value) (i : Inquiry α) : Prop :=
  ∀ (stack : List Frame) (opened : List String) (memory : Memory),
    Reaches (stepOfCall limits stack.length) ⟨control, frames ++ stack, depth, opened, memory⟩
      ⟨.returning (.of shown (i.run opened memory).2), stack, depth, opened,
        (i.run opened memory).1⟩

/-- The first step of a call, whatever the stack and the registers hold. -/
def Begins (limits : Limits) (depth : Nat) (control : Control) (next : Config → Config) : Prop :=
  ∀ (stack : List Frame) (opened : List String) (memory : Memory),
    stepOfCall limits stack.length ⟨control, stack, depth, opened, memory⟩ =
      some (next ⟨control, stack, depth, opened, memory⟩)

theorem Begins.congr {next next' : Config → Config} (begins : Begins limits depth control next)
    (same : ∀ c, next c = next' c) : Begins limits depth control next' :=
  fun stack opened memory => (begins stack opened memory).trans (congrArg some (same _))

/-- What goes on after a call, with its value or with its failure. -/
def afterwards (next : α → Inquiry β) (failed : Failure → Inquiry β) :
    Except Failure α → Inquiry β
  | .ok value => next value
  | .error failure => failed failure

namespace Answers

theorem returned (result : Except Failure α) :
    Answers limits depth (.returning (.of shown result)) [] shown (.done result) :=
  fun _ _ _ => .refl

theorem settled (result : Except Failure Node) (rest : List Char) :
    Answers limits depth (.returning (.of (.node · rest) result)) [] .read
      (return (← .done result, rest)) := by
  intro stack opened memory
  cases result <;> exact .refl

/-- A step that makes a call or goes on within one. -/
theorem call (h : Answers limits depth control' frames shown i)
    (begins : Begins limits depth control fun c =>
      { c with control := control', stack := frames ++ c.stack }) :
    Answers limits depth control [] shown i :=
  fun stack opened memory => .head (begins stack opened memory) (h stack opened memory)

/-- A step in which a frame takes a value. -/
theorem resume {value : Value} (h : Answers limits depth control frames shown i)
    (takes : ∀ c : Config, c.resume limits frame value =
      some { c with control, stack := frames ++ c.stack }) :
    Answers limits depth (.returning value) [frame] shown i := by
  intro stack opened memory
  refine .head ?_ (h stack opened memory)
  rw [stepOfCall_of_lt (Nat.lt_succ_self _)]
  exact takes ⟨.returning value, stack, depth, opened, memory⟩

/-- A call whose value or failure a frame takes. -/
theorem andThen {property : α → Prop} {next : α → Inquiry β} {failed : Failure → Inquiry β}
    (first : Answers limits depth control [] shown i) (holds : i.Holds property)
    (onValue : ∀ value, property value →
      Answers limits depth (.returning (shown value)) [frame] shown' (next value))
    (onFailure : ∀ failure,
      Answers limits depth (.returning (.failed failure)) [frame] shown' (failed failure))
    (run : ∀ opened memory, j.run opened memory =
      (afterwards next failed (i.run opened memory).2).run opened (i.run opened memory).1) :
    Answers limits depth control [frame] shown' j := by
  intro stack opened memory
  have inside := reaches_of_call (Nat.le_succ _) (first (frame :: stack) opened memory)
  have goesOn : ∀ result, (i.run opened memory).2 = result →
      Answers limits depth (.returning (.of shown result)) [frame] shown'
        (afterwards next failed result) := by
    intro result came
    cases result with
    | ok value => exact onValue value (holds.run (Prod.ext rfl came))
    | error failure => exact onFailure failure
  rw [run]
  exact inside.trans (goesOn _ rfl stack opened _)

theorem bind {next : α → Inquiry β} (first : Answers limits depth control [] shown i)
    (passes : ∀ (c : Config) failure,
      c.resume limits frame (.failed failure) = some (c.fails failure))
    (step : ∀ value, Answers limits depth (.returning (shown value)) [frame] shown' (next value)) :
    Answers limits depth control [frame] shown' (i >>= next) := by
  refine first.andThen i.holds_true (fun value _ => step value)
    (fun failure => (returned (.error failure)).resume fun c => passes c failure)
    fun opened memory => ?_
  rw [Inquiry.run_bind]
  rcases i.run opened memory with ⟨after, failure | value⟩ <;> rfl

theorem mapFailure_bind {change : Failure → Failure}
    (fixed : ∀ failure, failure.isCommitted → change failure = failure) {next : α → Inquiry β}
    (first : Answers limits depth control [] shown i)
    (changes : ∀ (c : Config) failure,
      c.resume limits frame (.failed failure) = some (c.fails (change failure)))
    (step : ∀ value, Answers limits depth (.returning (shown value)) [frame] shown' (next value)) :
    Answers limits depth control [frame] shown' (i.mapFailure change >>= next) := by
  refine first.andThen i.holds_true (fun value _ => step value)
    (fun failure => (returned (.error (change failure))).resume fun c => changes c failure)
    fun opened memory => ?_
  rw [Inquiry.run_bind, Inquiry.run_mapFailure fixed]
  rcases i.run opened memory with ⟨after, failure | value⟩ <;> rfl

theorem bindOr {property : α → Prop} {otherwise : Inquiry β} {next : α → Inquiry β}
    (first : Answers limits depth control [] shown i) (holds : i.Holds property)
    (passes : ∀ failure, failure.isCommitted →
      ∀ c : Config, c.resume limits frame (.failed failure) = some (c.fails failure))
    (other : ∀ failure, ¬failure.isCommitted →
      Answers limits depth (.returning (.failed failure)) [frame] shown' otherwise)
    (step : ∀ value, property value →
      Answers limits depth (.returning (shown value)) [frame] shown' (next value)) :
    Answers limits depth control [frame] shown' (i.bindOr otherwise next) := by
  have onFailure : ∀ failure, Answers limits depth (.returning (.failed failure)) [frame] shown'
      (if failure.isCommitted then .fail failure else otherwise) := by
    intro failure
    split
    · next final => exact (returned (.error failure)).resume fun c => passes failure final c
    · next soft => exact other failure soft
  refine first.andThen holds step onFailure fun opened memory => ?_
  rw [Inquiry.run_bindOr]
  rcases i.run opened memory with ⟨after, failure | value⟩
  · dsimp only [afterwards]
    split <;> rfl
  · rfl

end Answers

section Readers

variable {expression : Reader}
  (inner : ∀ s, Answers limits depth (.expression s) [] Value.read (expression s))

include inner

theorem complete_answers (s : List Char) :
    Answers limits depth (.complete s) [] .whole (complete expression s) := by
  have checked : Answers limits depth (.expression s) [.whole] .whole (complete expression s) := by
    refine (inner s).bind (fun _ _ => rfl) ?_
    rintro ⟨tree, rest⟩
    cases rest with
    | nil => exact (Answers.returned (.ok tree)).resume fun _ => rfl
    | cons c rest => exact (Answers.returned (.error _)).resume fun _ => rfl
  exact checked.call fun _ _ _ => rfl

theorem resolve_answers (name : String) :
    Answers limits depth (.resolve name) [] .reply (standsFor expression name) := by
  intro stack opened memory
  have read := fun s => reaches_of_call (Nat.le_succ _)
    (complete_answers inner s (.opened name :: stack) (name :: opened) memory)
  have answer := resolution (fun opened memory s => (complete expression s).run opened memory)
    opened memory name
  have first : ∀ c, Config.resolve ⟨.resolve name, stack, depth, opened, memory⟩ name = c →
      stepOfCall limits stack.length ⟨.resolve name, stack, depth, opened, memory⟩ = some c :=
    fun c eq => congrArg some eq
  have last : ∀ value after,
      stepOfCall limits stack.length
        ⟨.returning value, .opened name :: stack, depth, name :: opened, after⟩ =
      Config.resume ⟨.returning value, stack, depth, name :: opened, after⟩ limits
        (.opened name) value :=
    fun value after => stepOfCall_of_lt (Nat.lt_succ_self _)
  rw [standsFor, Inquiry.run_ask]
  generalize resolve _ opened memory name = result at answer
  cases answer with
  | opened inside => exact .single (first _ (Config.resolve_of_mem inside))
  | given outside known => exact .single (first _ (Config.resolve_of_given outside known))
  | @failed text after failure outside source ran =>
    have read := read text.toList
    rw [ran] at read
    exact .tail (.head (first _ (Config.resolve_of_source outside source)) read) (last _ _)
  | @read text after tree outside source ran =>
    have read := read text.toList
    rw [ran] at read
    exact .tail (.head (first _ (Config.resolve_of_source outside source)) read) (last _ _)

theorem expandTag_answers (tag : Tag) (rest : List Char)
    (begins : Begins limits depth control (·.expandTag tag rest)) :
    Answers limits depth control [] .read (return (← expandTag expression tag, rest)) := by
  unfold expandTag
  cases literal : tag.name.literal? with
  | none =>
    refine .call (.returned (.ok (Node.tag tag, rest))) (begins.congr fun c => ?_)
    rw [Config.expandTag, literal]
    rfl
  | some name =>
    have merged : Answers limits depth (.resolve name) [.tag tag rest] .read
        (standsFor expression name >>= fun tree =>
          return (tree.elim (.tag tag) (·.merge tag), rest)) := by
      refine (resolve_answers inner name).bind (fun _ _ => rfl) fun tree => ?_
      cases tree with
      | none => exact (Answers.returned (.ok (Node.tag tag, rest))).resume fun _ => rfl
      | some tree => exact (Answers.returned (.ok (tree.merge tag, rest))).resume fun _ => rfl
    have called : Answers limits depth control [] .read _ := merged.call (begins.congr fun c => by
      rw [Config.expandTag, literal]
      rfl)
    rw [Inquiry.bind_assoc]
    convert called using 3 with tree
    cases tree <;> rfl

theorem namedTag_answers (s : List Char) (begins : Begins limits depth control (·.namedTag s)) :
    Answers limits depth control [] .read (namedTag expression s) := by
  change Answers limits depth control [] .read
    (.done (tagBody (.ofSelector (tagName s).1) (tagName s).2.1 (tagName s).2.2) >>=
      fun result => namedNode expression (tagName s).1 result.1 >>= fun node =>
        return (node, result.2))
  cases body : tagBody (.ofSelector (tagName s).1) (tagName s).2.1 (tagName s).2.2 with
  | error failure =>
    refine .call (.returned (.error failure)) (begins.congr fun c => ?_)
    rw [Config.namedTag, body]
    rfl
  | ok result =>
    obtain ⟨tag, rest⟩ := result
    change Answers limits depth control [] .read
      (namedNode expression (tagName s).1 tag >>= fun node => return (node, rest))
    unfold namedNode
    cases marker : fillerWords? (tagName s).1 with
    | some words =>
      refine .call (.returned (.ok (Node.filler words, rest))) (begins.congr fun c => ?_)
      rw [Config.namedTag, body]
      simp only [marker]
      rfl
    | none =>
      refine expandTag_answers inner tag rest (begins.congr fun c => ?_)
      rw [Config.namedTag, body]
      simp only [marker]

theorem impliedTag_answers (s : List Char) (begins : Begins limits depth control (·.impliedTag s)) :
    Answers limits depth control [] .read (impliedTag expression s) := by
  unfold impliedTag
  cases body : tagBody (.ofText "div") true s with
  | error failure =>
    refine .call (.returned (.error failure)) (begins.congr fun c => ?_)
    rw [Config.impliedTag, body]
    rfl
  | ok result =>
    obtain ⟨tag, rest⟩ := result
    refine expandTag_answers inner tag rest (begins.congr fun c => ?_)
    rw [Config.impliedTag, body]

omit inner in
theorem textNode_answers (s : List Char) (begins : Begins limits depth control (·.textNode s)) :
    Answers limits depth control [] .read (textNode s) := by
  unfold textNode
  cases text : bracedText s with
  | error failure =>
    refine .call (.returned (.error failure)) (begins.congr fun c => ?_)
    rw [Config.textNode, text]
    rfl
  | ok result =>
    obtain ⟨content, rest⟩ := result
    refine .call (.returned (.ok (Node.text content, rest))) (begins.congr fun c => ?_)
    rw [Config.textNode, text]
    rfl

theorem group_answers (s : List Char) :
    Answers limits depth (.expression s) [.group] .read (group expression s) := by
  refine (inner s).mapFailure_bind (fun _ => commit_of_isCommitted) (fun _ _ => rfl) ?_
  rintro ⟨tree, rest⟩
  split
  · next heq =>
    obtain ⟨rfl, rfl⟩ := Prod.mk.inj heq
    exact (Answers.returned (.ok (tree, _))).resume fun _ => rfl
  · next other =>
    refine (Answers.returned (.error (.unmet .groupEnd true))).resume fun c => congrArg some ?_
    unfold Config.closeGroup
    split
    · next rest => exact (other tree rest rfl).elim
    · rfl

theorem atom_answers (s : List Char) :
    Answers limits depth (.atom s) [] .read (atom expression s) := by
  have begins : Begins limits depth (.atom s) (·.atom s) := fun _ _ _ => rfl
  unfold atom
  split
  · exact (group_answers inner _).call begins
  · exact textNode_answers _ begins
  · next first rest notGroup notText =>
    have begins := begins.congr fun c => Config.atom_sign c notGroup notText
    split
    · next named => exact namedTag_answers inner _ (begins.congr fun _ => if_pos named)
    · next unnamed =>
      have begins := begins.congr fun _ => if_neg unnamed
      split
      · next implied => exact impliedTag_answers inner _ (begins.congr fun _ => if_pos implied)
      · next other =>
        exact (Answers.returned (.error (.unmet .operand false))).call
          (begins.congr fun _ => if_neg other)
  · exact (Answers.returned (.error (.unmet .operand false))).call begins

theorem child_answers (subject : Node) (count : Option Nat) (s : List Char) :
    Answers limits depth (.expression s) [.child subject count] .read (do
      let (child, rest) ← (expression s).mapFailure Failure.afterChild
      return (← .done (graftAndMaterialize limits subject child count), rest)) := by
  refine (inner s).mapFailure_bind (fun _ => afterChild_of_isCommitted) (fun _ _ => rfl) ?_
  rintro ⟨child, rest⟩
  exact (Answers.settled (graftAndMaterialize limits subject child count) rest).resume fun _ => rfl

theorem subject_answers (node : Node) (rest : List Char) :
    Answers limits depth (.subject node rest) [] .read (do
      match ← .done (repeatCount rest) with
      | (count, '>' :: rest) =>
        let (child, rest) ← (expression rest).mapFailure Failure.afterChild
        return (← .done (graftAndMaterialize limits node child count), rest)
      | (count, rest) => return (← .done (materialize limits node count), rest)) := by
  have begins : Begins limits depth (.subject node rest) (·.subject limits node rest) :=
    fun _ _ _ => rfl
  cases found : repeatCount rest with
  | error failure =>
    refine (Answers.returned (.error failure)).call (begins.congr fun c => ?_)
    rw [Config.subject, found]
    rfl
  | ok result =>
    obtain ⟨count, after⟩ := result
    change Answers limits depth _ [] .read (match (count, after) with
      | (count, '>' :: rest) => do
        let (child, rest) ← (expression rest).mapFailure Failure.afterChild
        return (← .done (graftAndMaterialize limits node child count), rest)
      | (count, rest) => return (← .done (materialize limits node count), rest))
    split
    · next heq =>
      obtain ⟨rfl, rfl⟩ := Prod.mk.inj heq
      refine (child_answers inner node count _).call (begins.congr fun c => ?_)
      rw [Config.subject, found]
      rfl
    · next other heq =>
      obtain ⟨rfl, rfl⟩ := Prod.mk.inj heq
      refine (Answers.settled (materialize limits node count) after).call (begins.congr fun c => ?_)
      rw [Config.subject, found]
      split
      · contradiction
      · next heq =>
        obtain ⟨rfl, rfl⟩ := Prod.mk.inj (Except.ok.inj heq)
        exact (other _ rfl).elim
      · next heq =>
        obtain ⟨rfl, rfl⟩ := Prod.mk.inj (Except.ok.inj heq)
        rfl

theorem operand_answers (s : List Char) :
    Answers limits depth (.operand s) [] .read (operand limits expression s) := by
  have counted : Answers limits depth (.atom s) [.subject] .read (operand limits expression s) := by
    refine (atom_answers inner s).bind (fun _ _ => rfl) ?_
    rintro ⟨node, rest⟩
    exact (subject_answers inner node rest).resume fun _ => rfl
  exact counted.call fun _ _ _ => rfl

theorem shorthand_answers (operands : Operands) (s : List Char)
    {next : Node → Inquiry (Node × List Char)}
    (further : ∀ node, Answers limits depth (.further (operands.replaceLast node) s) [] .read
      (next node)) :
    Answers limits depth (.shorthand operands s) [] .read
      (expandShorthand expression operands.last >>= next) := by
  have begins : Begins limits depth (.shorthand operands s) (·.shorthand operands s) :=
    fun _ _ _ => rfl
  unfold expandShorthand
  cases named : (lastOperand? operands.last).bind
      fun tag => tag.name.literal?.map fun name => (tag, name) with
  | none =>
    refine .call (.returned (.error (.unmet .operandAfterPlus true))) (begins.congr fun c => ?_)
    rw [Config.shorthand, named]
    rfl
  | some found =>
    obtain ⟨tag, name⟩ := found
    have merged :
        Answers limits depth (.resolve (name ++ "+")) [.shorthand operands tag s] .read (do
          (← standsFor expression (name ++ "+")).elim (.fail (.unmet .operandAfterPlus true))
            fun expansion => next (replaceLastOperand (expansion.merge tag) operands.last)) := by
      refine (resolve_answers inner (name ++ "+")).bind (fun _ _ => rfl) fun tree => ?_
      cases tree with
      | none =>
        exact (Answers.returned (.error (.unmet .operandAfterPlus true))).resume fun _ => rfl
      | some tree => exact (further _).resume fun _ => rfl
    have called : Answers limits depth (.shorthand operands s) [] .read _ :=
      merged.call (begins.congr fun c => by
        rw [Config.shorthand, named]
        rfl)
    convert called using 1
    refine (Inquiry.bind_assoc _ _ _).trans (congrArg _ (funext fun tree => ?_))
    cases tree <;> rfl

/-- Each `+` is consumed, so the bound of `furtherOperands` is never what ends the chain. -/
theorem further_answers (tokens : TakesTokens expression) {bound : Nat} (operands : Operands)
    {s : List Char} (enough : s.length ≤ bound) :
    Answers limits depth (.further operands s) [] .read
      (furtherOperands limits expression bound operands s >>= fun (operands, rest) =>
        .done (admitChain limits operands.toNode) >>= fun node => return (node, rest)) := by
  induction bound generalizing operands s with
  | zero =>
    obtain rfl := List.length_eq_zero_iff.mp (Nat.le_zero.mp enough)
    exact (Answers.settled (admitChain limits operands.toNode) []).call fun _ _ _ => rfl
  | succ bound ih =>
    by_cases more : s.head? = some '+'
    · obtain ⟨s, rfl⟩ := List.head?_eq_some_iff.mp more
      have enough : s.length ≤ bound := Nat.le_of_succ_le_succ enough
      rw [furtherOperands_plus, Inquiry.bindOr_bind, Inquiry.bind_assoc]
      have begins : Begins limits depth (.further operands ('+' :: s)) fun c =>
          { c with control := .operand s, stack := [.further operands s] ++ c.stack } :=
        fun _ _ _ => rfl
      refine ((operand_answers inner s).bindOr (operand_takes tokens s) ?_ ?_ ?_).call begins
      · exact fun failure final c => congrArg some (if_pos final)
      · intro failure soft
        refine (shorthand_answers inner operands s fun node => ih _ enough).resume fun c => ?_
        exact congrArg some (if_neg soft)
      · rintro ⟨node, rest⟩ taken
        exact (ih (operands.push node) (taken.length_le.trans enough)).resume fun _ => rfl
    · rw [furtherOperands_end (.inr more)]
      have begins : Begins limits depth (.further operands s) (·.further limits operands s) :=
        fun _ _ _ => rfl
      refine (Answers.settled (admitChain limits operands.toNode) s).call (begins.congr fun c => ?_)
      unfold Config.further
      split
      · exact (more rfl).elim
      · rfl

theorem chain_answers (tokens : TakesTokens expression) (s : List Char) :
    Answers limits depth (.chain s) [] .read (chain limits expression s) := by
  have continued :
      Answers limits depth (.operand s) [.first] .read (chain limits expression s) := by
    refine (operand_answers inner s).bind (fun _ _ => rfl) ?_
    rintro ⟨first, rest⟩
    exact (further_answers inner tokens { first } le_rfl).resume fun _ => rfl
  exact continued.call fun _ _ _ => rfl

end Readers

/-- An expression gives back the level it took. -/
theorem expression_answers (limits : Limits) (depth : Nat) (s : List Char) :
    Answers limits depth (.expression s) [] .read
      (expression limits (limits.maxDepth - depth) s) := by
  generalize left : limits.maxDepth - depth = room
  induction room generalizing depth s with
  | zero =>
    have full : limits.maxDepth ≤ depth := by omega
    refine (Answers.returned (.error (.exceeded .nesting limits.maxDepth))).call fun _ _ _ => ?_
    exact congrArg some (if_pos full)
  | succ room ih =>
    have shallow : ¬limits.maxDepth ≤ depth := by omega
    have inner := fun s => ih (depth + 1) s (by omega)
    intro stack opened memory
    have read :=
      chain_answers inner (expression_takes limits room) s (.level :: stack) opened memory
    refine .head (congrArg some (if_neg shallow)) (.tail (reaches_of_call (Nat.le_succ _) read) ?_)
    exact stepOfCall_of_lt (Nat.lt_succ_self _)

end Shorthand.Abbreviation.Machine
