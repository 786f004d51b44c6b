import Shorthand.Alias
import Shorthand.Failure

/-! Readings that ask on the way. What an abbreviation means depends on what the
aliases in it stand for, so reading one is an inquiry: it is done, or it asks for a
name and goes on with the reply, which is the tree that the name stands for, if any.

Running an inquiry against an alias table answers its questions. A tree read for an
alias is remembered, unless it was cut short because the alias is part of a cycle. -/
namespace Shorthand.Abbreviation

inductive Inquiry : Type → Type 1 where
  | done {α : Type} (result : Except Failure α) : Inquiry α
  /-- Asks for `name`. Where that is the alias of a text, `text` reads the text. -/
  | ask {α : Type} (name : String) (text : List Char → Inquiry Node)
      (next : Option Node → Inquiry α) : Inquiry α

namespace Inquiry

variable {α β : Type}

def fail (failure : Failure) : Inquiry α := .done (.error failure)

def bind : Inquiry α → (α → Inquiry β) → Inquiry β
  | .done (.ok value), next => next value
  | .done (.error failure), _ => .fail failure
  | .ask name text reply, next => .ask name text fun tree => (reply tree).bind next

instance : Monad Inquiry where
  pure value := .done (.ok value)
  bind := bind

def mapFailure (change : Failure → Failure) : Inquiry α → Inquiry α
  | .done (.ok value) => .done (.ok value)
  | .done (.error failure) => .fail (change failure)
  | .ask name text reply => .ask name text fun tree => (reply tree).mapFailure change

/-- Goes on with `next`; or with `otherwise`, where a failure leaves room for that. -/
def bindOr : Inquiry α → (otherwise : Inquiry β) → (next : α → Inquiry β) → Inquiry β
  | .done (.ok value), _, next => next value
  | .done (.error failure), otherwise, _ =>
    if failure.isCommitted then .fail failure else otherwise
  | .ask name text reply, otherwise, next =>
    .ask name text fun tree => (reply tree).bindOr otherwise next

end Inquiry

/-- What reading learns: the aliases read so far, and those found to reach each other. -/
structure Memory where
  aliases : AliasTable
  cyclic : List String := []

/-- A result together with what was learnt on the way, kept also on failure. -/
abbrev Reading (α : Type) := Memory × Except Failure α

/-- The aliases `opened` up to `name` depend on each other, unless `name` came last:
an alias that mentions itself means the plain tag there. -/
def Memory.noteCycle (memory : Memory) (opened : List String) (name : String) : Memory :=
  match opened.takeWhile (· ≠ name) with
  | [] => memory
  | between => { memory with cyclic := memory.cyclic ++ between ++ [name] }

def Memory.remember (memory : Memory) (name : String) (tree : Node) : Memory :=
  if name ∈ memory.cyclic then memory
  else { memory with aliases := memory.aliases.insert name (.parsed tree) }

/-- The tree that alias `name` stands for while the aliases `opened` are being read, the
latest first. There is none where the alias itself is being read. -/
def resolve (readText : List String → Memory → List Char → Reading Node) (opened : List String)
    (memory : Memory) (name : String) : Reading (Option Node) :=
  if name ∈ opened then (memory.noteCycle opened name, .ok none)
  else
    match memory.aliases.get? name with
    | none => (memory, .ok none)
    | some (.parsed tree) => (memory, .ok (some tree))
    | some (.source text) =>
      match readText (name :: opened) memory text.toList with
      | (memory, .error failure) => (memory, .error (failure.inAlias name))
      | (memory, .ok tree) => (memory.remember name tree, .ok (some tree))

/-- Answers the questions of an inquiry. A question without an answer ends it. -/
def Inquiry.run {α : Type} : Inquiry α → List String → Memory → Reading α
  | .done result, _, memory => (memory, result)
  | .ask name text reply, opened, memory =>
    match resolve (fun opened memory s => (text s).run opened memory) opened memory name with
    | (memory, .error failure) => (memory, .error failure)
    | (memory, .ok tree) => (reply tree).run opened memory

end Shorthand.Abbreviation
