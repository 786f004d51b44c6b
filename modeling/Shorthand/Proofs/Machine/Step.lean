import Shorthand.Abbreviation.Grammar
import Mathlib.Computability.StateTransition

/-! Reading step by step. The readers of the grammar call each other; here the calls that
are under way are a stack of frames, next to the two registers that they share: how deep
expressions are nested, and which aliases are being read. A frame says what is still to be
done with the value that a call returns. The registers change where an expression or the
text of an alias is entered, and change back where it is left, whatever it came to. -/
namespace Shorthand.Abbreviation.Machine

/-- What a call returns. The value of a whole text leaves nothing of it. -/
inductive Value where
  | node (node : Node) (rest : List Char)
  | reply (tree : Option Node)
  | failed (failure : Failure)

namespace Value

variable {α : Type}

def of (shown : α → Value) : Except Failure α → Value
  | .ok value => shown value
  | .error failure => .failed failure

/-- A node with the input that is left. -/
def read : Node × List Char → Value
  | (tree, rest) => .node tree rest

/-- A node that took all of the input. -/
def whole (tree : Node) : Value := .node tree []

end Value

/-- What a caller does with the value it waits for. -/
inductive Frame where
  /-- Checks that a whole text was read. -/
  | whole
  /-- Gives back the level of nesting that an expression took. -/
  | level
  /-- Gives up the name of an alias whose text is read, and remembers its tree. -/
  | opened (name : String)
  | tag (tag : Tag) (rest : List Char)
  | group
  | subject
  | child (subject : Node) (count : Option Nat)
  | first
  | further (operands : Operands) (rest : List Char)
  | shorthand (operands : Operands) (tag : Tag) (rest : List Char)

/-- The call to be made next, or the value that the last call returned. -/
inductive Control where
  | complete (s : List Char)
  | expression (s : List Char)
  | chain (s : List Char)
  | further (operands : Operands) (s : List Char)
  | shorthand (operands : Operands) (s : List Char)
  | operand (s : List Char)
  | subject (node : Node) (rest : List Char)
  | atom (s : List Char)
  | resolve (name : String)
  | returning (value : Value)

structure Config where
  control : Control
  stack : List Frame := []
  depth : Nat := 0
  /-- The aliases whose texts are being read, the latest first. -/
  opened : List String := []
  memory : Memory

namespace Config

variable (c : Config)

def go (control : Control) : Config := { c with control }

/-- Makes a call; the frame waits for its value. -/
def call (frame : Frame) (control : Control) : Config :=
  { c with control, stack := frame :: c.stack }

def returns (value : Value) : Config := c.go (.returning value)

def fails (failure : Failure) : Config := c.returns (.failed failure)

def isReturning : Bool :=
  match c.control with
  | .returning _ => true
  | _ => false

/-- The tag is read; where its name is an alias, the alias decides what it is. -/
def expandTag (tag : Tag) (rest : List Char) : Config :=
  match tag.name.literal? with
  | none => c.returns (.node (.tag tag) rest)
  | some name => c.call (.tag tag rest) (.resolve name)

def namedTag (s : List Char) : Config :=
  match tagBody (.ofSelector (tagName s).1) (tagName s).2.1 (tagName s).2.2 with
  | .error failure => c.fails failure
  | .ok (tag, rest) =>
    match fillerWords? (tagName s).1 with
    | some words => c.returns (.node (.filler words) rest)
    | none => c.expandTag tag rest

def impliedTag (s : List Char) : Config :=
  match tagBody (.ofText "div") true s with
  | .error failure => c.fails failure
  | .ok (tag, rest) => c.expandTag tag rest

def textNode (s : List Char) : Config :=
  c.returns (.of (fun (content, rest) => .node (.text content) rest) (bracedText s))

def atom : List Char → Config
  | '(' :: rest => c.call .group (.expression rest)
  | '{' :: rest => c.textNode rest
  | first :: rest =>
    if isNameStart first then c.namedTag (first :: rest)
    else if first = '#' ∨ first = '.' then c.impliedTag (first :: rest)
    else c.fails (.unmet .operand false)
  | [] => c.fails (.unmet .operand false)

/-- Neither a parenthesis nor a brace: the atom is a tag. -/
theorem atom_sign {first : Char} {rest : List Char} (notGroup : first = '(' → False)
    (notText : first = '{' → False) :
    c.atom (first :: rest) =
      if isNameStart first then c.namedTag (first :: rest)
      else if first = '#' ∨ first = '.' then c.impliedTag (first :: rest)
      else c.fails (.unmet .operand false) := by
  unfold atom
  split
  · next heq => exact (notGroup (List.cons.inj heq).1).elim
  · next heq => exact (notText (List.cons.inj heq).1).elim
  · next heq =>
    obtain ⟨rfl, rfl⟩ := List.cons.inj heq
    rfl
  · contradiction

def closeGroup (tree : Node) : List Char → Config
  | ')' :: rest => c.returns (.node tree rest)
  | _ => c.fails (.unmet .groupEnd true)

/-- The subject of an operand is read: a count may follow, and a child. -/
def subject (limits : Limits) (node : Node) (rest : List Char) : Config :=
  match repeatCount rest with
  | .error failure => c.fails failure
  | .ok (count, '>' :: rest) => c.call (.child node count) (.expression rest)
  | .ok (count, rest) => c.returns (.of (.node · rest) (materialize limits node count))

def further (limits : Limits) (operands : Operands) : List Char → Config
  | '+' :: rest => c.call (.further operands rest) (.operand rest)
  | rest => c.returns (.of (.node · rest) (admitChain limits operands.toNode))

def shorthand (operands : Operands) (rest : List Char) : Config :=
  match (lastOperand? operands.last).bind
      fun tag => tag.name.literal?.map fun name => (tag, name) with
  | none => c.fails (.unmet .operandAfterPlus true)
  | some (tag, name) => c.call (.shorthand operands tag rest) (.resolve (name ++ "+"))

def resolve (name : String) : Config :=
  if name ∈ c.opened then
    { c.returns (.reply none) with memory := c.memory.noteCycle c.opened name }
  else
    match c.memory.aliases.get? name with
    | none => c.returns (.reply none)
    | some (.parsed tree) => c.returns (.reply (some tree))
    | some (.source text) =>
      { c.call (.opened name) (.complete text.toList) with opened := name :: c.opened }

section Resolve

variable {c : Config} {name : String}

theorem resolve_of_mem (inside : name ∈ c.opened) :
    c.resolve name = { c.returns (.reply none) with memory := c.memory.noteCycle c.opened name } :=
  if_pos inside

theorem resolve_of_given (outside : name ∉ c.opened) {reply : Option Node}
    (known : c.memory.aliases.get? name = reply.map .parsed) :
    c.resolve name = c.returns (.reply reply) := by
  unfold resolve
  rw [if_neg outside, known]
  cases reply <;> rfl

theorem resolve_of_source (outside : name ∉ c.opened) {text : String}
    (source : c.memory.aliases.get? name = some (.source text)) :
    c.resolve name =
      { c.call (.opened name) (.complete text.toList) with opened := name :: c.opened } := by
  unfold resolve
  rw [if_neg outside, source]

end Resolve

def expression (limits : Limits) (s : List Char) : Config :=
  if limits.maxDepth ≤ c.depth then c.fails (.exceeded .nesting limits.maxDepth)
  else { c.call .level (.chain s) with depth := c.depth + 1 }

/-- The frame takes the value that it waited for. A value of another kind stops the machine. -/
def resume (limits : Limits) : Frame → Value → Option Config
  | .level, value => some { c.returns value with depth := c.depth - 1 }
  | .whole, .node tree rest =>
    some (if rest = [] then c.returns (.whole tree)
      else c.fails (.unmet (.endOfInput (String.ofList rest)) true))
  | .opened name, .node tree _ =>
    some { c.returns (.reply (some tree)) with
      opened := c.opened.tail, memory := c.memory.remember name tree }
  | .opened name, .failed failure =>
    some { c.fails (failure.inAlias name) with opened := c.opened.tail }
  | .tag tag rest, .reply tree =>
    some (c.returns (.node ((tree.map (·.merge tag)).getD (.tag tag)) rest))
  | .group, .node tree rest => some (c.closeGroup tree rest)
  | .group, .failed failure => some (c.fails failure.commit)
  | .subject, .node tree rest => some (c.go (.subject tree rest))
  | .child subject count, .node tree rest =>
    some (c.returns (.of (.node · rest) (graftAndMaterialize limits subject tree count)))
  | .child _ _, .failed failure => some (c.fails failure.afterChild)
  | .first, .node first rest => some (c.go (.further { first } rest))
  | .further operands _, .node tree rest => some (c.go (.further (operands.push tree) rest))
  | .further operands rest, .failed failure =>
    some (if failure.isCommitted then c.fails failure else c.go (.shorthand operands rest))
  | .shorthand operands tag rest, .reply (some tree) =>
    some (c.go (.further
      (operands.replaceLast (replaceLastOperand (tree.merge tag) operands.last)) rest))
  | .shorthand _ _ _, .reply none => some (c.fails (.unmet .operandAfterPlus true))
  | _, .failed failure => some (c.fails failure)
  | _, _ => none

end Config

/-- One step. The machine stops with a value that no frame waits for. -/
def step (limits : Limits) (c : Config) : Option Config :=
  match c.control with
  | .complete s => some (c.call .whole (.expression s))
  | .expression s => some (c.expression limits s)
  | .chain s => some (c.call .first (.operand s))
  | .further operands s => some (c.further limits operands s)
  | .shorthand operands s => some (c.shorthand operands s)
  | .operand s => some (c.call .subject (.atom s))
  | .subject node rest => some (c.subject limits node rest)
  | .atom s => some (c.atom s)
  | .resolve name => some (c.resolve name)
  | .returning value =>
    match c.stack with
    | [] => none
    | frame :: stack => { c with stack }.resume limits frame value

/-- Before the first step: the text is to be read as a whole. -/
def start (aliases : AliasTable) (s : List Char) : Config :=
  { control := .complete s, memory := { aliases } }

/-- The steps of a call that was made on a stack of height `height`. They end where the
stack is down to that height with the value of the call. -/
def stepOfCall (limits : Limits) (height : Nat) (c : Config) : Option Config :=
  if c.isReturning ∧ c.stack.length ≤ height then none else step limits c

end Shorthand.Abbreviation.Machine
