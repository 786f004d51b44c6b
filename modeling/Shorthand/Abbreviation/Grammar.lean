import Shorthand.Abbreviation.Inquiry
import Shorthand.Abbreviation.Qualifier
import Shorthand.Abbreviation.Suffix
import Shorthand.Limits
import Shorthand.Node.Copies
import Shorthand.Node.Graft
import Shorthand.Node.Merge

/-! Reading abbreviations. From the loosest binding to the tightest, an expression
is a chain of operands joined by `+`; an operand is an atom with an optional
multiplier and an optional child expression after `>`; and an atom is a group in
parentheses, text in braces, a tag, or the qualifiers of an implied `div`.

An alias is asked for as soon as its tag is read, and a multiplier is carried out as
soon as its subject is complete. The tree that comes out holds neither. -/
namespace Shorthand.Abbreviation

/-- Reads a tree off the front of the input. -/
abbrev Reader := List Char → Inquiry (Node × List Char)

/-- An expression that is all of the input. -/
def complete (expression : Reader) (s : List Char) : Inquiry Node := do
  match ← expression s with
  | (node, []) => return node
  | (_, rest) => .fail (.unmet (.endOfInput (String.ofList rest)) true)

/-- What `name` stands for. The text of an alias is read as a whole expression. -/
def standsFor (expression : Reader) (name : String) : Inquiry (Option Node) :=
  .ask name (complete expression) fun tree => return tree

/-- The tag itself, or what its name stands for with the tag's qualifiers merged in. -/
def expandTag (expression : Reader) (tag : Tag) : Inquiry Node :=
  match tag.name.literal? with
  | none => return .tag tag
  | some name => do
    match ← standsFor expression name with
    | none => return .tag tag
    | some expansion => return expansion.merge tag

/-- A group whose opening parenthesis is consumed. -/
def group (expression : Reader) : Reader := fun s => do
  match ← (expression s).mapFailure Failure.commit with
  | (node, ')' :: rest) => return (node, rest)
  | _ => .fail (.unmet .groupEnd true)

/-- What a tag written as `name` is: a filler marker, or the tag expanded. -/
def namedNode (expression : Reader) (name : List Char) (tag : Tag) : Inquiry Node :=
  match fillerWords? name with
  | some words => return .filler words
  | none => expandTag expression tag

/-- A tag that is written with its name. -/
def namedTag (expression : Reader) : Reader := fun s => do
  let (name, hasBody, rest) := tagName s
  let (tag, rest) ← .done (tagBody (.ofSelector name) hasBody rest)
  return (← namedNode expression name tag, rest)

/-- Qualifiers without a tag name qualify a `div`. -/
def impliedTag (expression : Reader) : Reader := fun s => do
  let (tag, rest) ← .done (tagBody (.ofText "div") true s)
  return (← expandTag expression tag, rest)

def textNode : Reader := fun s => do
  let (content, rest) ← .done (bracedText s)
  return (.text content, rest)

/-- The first character decides which atom it is. -/
def atom (expression : Reader) : Reader
  | '(' :: rest => group expression rest
  | '{' :: rest => textNode rest
  | c :: rest =>
    if isNameStart c then namedTag expression (c :: rest)
    else if c = '#' ∨ c = '.' then impliedTag expression (c :: rest)
    else .fail (.unmet .operand false)
  | [] => .fail (.unmet .operand false)

/-- A node that the limit on nodes admits. -/
def accept (limits : Limits) (node : Node) : Except Failure Node :=
  if limits.maxNodes < node.nodeCount then .error (.exceeded .nodes limits.maxNodes) else .ok node

/-- Carries out a multiplier, unless it would build too many nodes. -/
def materialize (limits : Limits) (node : Node) : Option Nat → Except Failure Node
  | none => .ok node
  | some count =>
    if limits.maxNodes < node.nodeCount * count then .error (.exceeded .nodes limits.maxNodes)
    else .ok (node.multiply count)

/-- Hangs a child under the subject of a multiplier before the multiplier is carried out. -/
def graftAndMaterialize (limits : Limits) (subject child : Node) (count : Option Nat) :
    Except Failure Node :=
  match subject.graft? child with
  | none => .error (.unmet .parentTag true)
  | some node => (accept limits node).bind fun node => materialize limits node count

/-- An atom with its multiplier and its child. -/
def operand (limits : Limits) (expression : Reader) : Reader := fun s => do
  let (subject, rest) ← atom expression s
  match ← .done (repeatCount rest) with
  | (count, '>' :: rest) =>
    let (child, rest) ← (expression rest).mapFailure Failure.afterChild
    return (← .done (graftAndMaterialize limits subject child count), rest)
  | (count, rest) => return (← .done (materialize limits subject count), rest)

/-- The operands of a chain as far as they are read. -/
structure Operands where
  first : Node
  /-- The operands after the first, last first. -/
  later : List Node := []

namespace Operands

def push (operands : Operands) (node : Node) : Operands :=
  { operands with later := node :: operands.later }

def last (operands : Operands) : Node := operands.later.headD operands.first

def replaceLast (operands : Operands) (node : Node) : Operands :=
  match operands.later with
  | [] => { operands with first := node }
  | _ :: before => { operands with later := node :: before }

/-- A single operand is itself; a chain in the first place is continued. -/
def toNode (operands : Operands) : Node :=
  match operands.later.reverse, operands.first with
  | [], first => first
  | later, .chain items => .chain (items ++ later)
  | later, first => .chain (first :: later)

end Operands

mutual

/-- The tag that a `+` with nothing after it refers to. -/
def lastOperand? : Node → Option Tag
  | .tag tag => some tag
  | .chain items => lastOperandIn? items
  | _ => none

def lastOperandIn? : List Node → Option Tag
  | [] => none
  | [last] => lastOperand? last
  | _ :: next :: rest => lastOperandIn? (next :: rest)

end

mutual

/-- The node with the tag of `lastOperand?` replaced. -/
def replaceLastOperand (new : Node) : Node → Node
  | .chain items => .chain (replaceLastOperandIn new items)
  | _ => new

def replaceLastOperandIn (new : Node) : List Node → List Node
  | [] => []
  | [last] => [replaceLastOperand new last]
  | item :: next :: rest => item :: replaceLastOperandIn new (next :: rest)

end

/-- `name+` with nothing after the `+` stands for the alias of that spelling. -/
def expandShorthand (expression : Reader) (node : Node) : Inquiry Node :=
  match (lastOperand? node).bind fun tag => tag.name.literal?.map fun name => (tag, name) with
  | none => .fail (.unmet .operandAfterPlus true)
  | some (tag, name) => do
    match ← standsFor expression (name ++ "+") with
    | none => .fail (.unmet .operandAfterPlus true)
    | some expansion => return replaceLastOperand (expansion.merge tag) node

/-- The operands after the first. Each `+` is consumed, so the length of the input
bounds how many there are. -/
def furtherOperands (limits : Limits) (expression : Reader) :
    Nat → Operands → List Char → Inquiry (Operands × List Char)
  | bound + 1, operands, '+' :: rest =>
    (operand limits expression rest).bindOr
      (do
        let node ← expandShorthand expression operands.last
        furtherOperands limits expression bound (operands.replaceLast node) rest)
      fun (node, rest) => furtherOperands limits expression bound (operands.push node) rest
  | _, operands, rest => return (operands, rest)

/-- A chain that the limit on nodes admits; a single operand is admitted before. -/
def admitChain (limits : Limits) (node : Node) : Except Failure Node :=
  if node.isChain then accept limits node else .ok node

/-- Operands joined by `+`. -/
def chain (limits : Limits) (expression : Reader) : Reader := fun s => do
  let (first, rest) ← operand limits expression s
  let (operands, rest) ← furtherOperands limits expression rest.length { first } rest
  return (← .done (admitChain limits operands.toNode), rest)

/-- An expression that may hold `room` levels of further expressions. -/
def expression (limits : Limits) : (room : Nat) → Reader
  | 0, _ => .fail (.exceeded .nesting limits.maxDepth)
  | room + 1, s => chain limits (expression limits room) s

/-- A tree with the filters named after its abbreviation. -/
def withFilters (filters : List String) (tree : Node) : Node :=
  if filters = [] then tree else .filtered filters tree

/-- Reads a whole abbreviation with its filters. The alias table that comes back holds
the trees of the aliases that were read on the way. -/
def read (limits : Limits) (aliases : AliasTable) (abbreviation : String) :
    AliasTable × Except Failure Node :=
  let (body, filters) := splitFilters abbreviation.toList
  let (memory, result) := (complete (expression limits limits.maxDepth) body).run [] { aliases }
  (memory.aliases, result.map (withFilters filters))

end Shorthand.Abbreviation
