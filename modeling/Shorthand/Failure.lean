/-! What can go wrong, by cause, with the wording of each cause. An abbreviation
is refused because a construct was expected and not found, because the expansion
would grow past a limit, because its filters make no chain, or because it holds
no declaration. A setup is refused because a table is missing, a default filter
chain is unusable, or the settings cannot be read. -/
namespace Shorthand

/-- The construct that was expected where reading stopped. -/
inductive Expected where
  | operand
  | endOfInput (rest : String)
  | operandAfterPlus
  | operandAfterChild
  | repeatCount
  | wordCount
  | groupEnd
  | textEnd
  | idName
  | className
  | attributeName
  | parentTag
  | aliasExpansion (name : String) (inner : Expected)
deriving DecidableEq

def Expected.label : Expected → String
  | .operand => "a tag, group or text"
  | .endOfInput rest => "end of input before `" ++ rest ++ "`"
  | .operandAfterPlus => "an expression after `+`"
  | .operandAfterChild => "an expression after `>`"
  | .repeatCount => "a repeat count after `*`"
  | .wordCount => "a repeat count that fits in a machine word"
  | .groupEnd => "`)` closing the group"
  | .textEnd => "`\x7d` closing the text"
  | .idName => "an id after `#`"
  | .className => "a class name after `.`"
  | .attributeName => "an attribute name or `]`"
  | .parentTag => "a tag before `>`"
  | .aliasExpansion name inner =>
    "a valid expansion for alias `" ++ name ++ "` (" ++ inner.label ++ ")"

/-- What a limit bounds. -/
inductive Quantity where
  | nesting
  | nodes
  | fillerWords
deriving DecidableEq

def Quantity.label : Quantity → String
  | .nesting => "nesting depth"
  | .nodes => "generated node"
  | .fillerWords => "lorem word"

/-- Why an abbreviation has no expansion. Reading commits itself once it has
consumed an operator or an opening bracket; before that another construct may
still match. A limit that is passed travels with the failure, so it is the limit
that is reported at the end, whichever aliases are open. -/
inductive Failure where
  | unmet (expected : Expected) (committed : Bool)
  | unknownFilter (name : String)
  | filterOrder (name : String)
  | exceeded (quantity : Quantity) (limit : Nat)
  | noDeclarations (abbreviation : String)
deriving DecidableEq

namespace Failure

def message : Failure → String
  | .unmet expected _ => "parse error: expected " ++ expected.label
  | .unknownFilter name => "unknown filter '" ++ name ++ "'"
  | .filterOrder name => "filter '" ++ name ++ "' must be the first stage of the chain"
  | .exceeded quantity limit => quantity.label ++ " limit of " ++ toString limit ++ " exceeded"
  | .noDeclarations abbreviation =>
    "invalid CSS abbreviation: '" ++ abbreviation ++ "' contains no declarations"

/-- Whether the failure ends the search for another construct. -/
def isCommitted : Failure → Bool
  | .unmet _ committed => committed
  | _ => true

def commit : Failure → Failure
  | .unmet expected _ => .unmet expected true
  | failure => failure

/-- A failure inside the text of an alias is reported for the alias; limits stay limits. -/
def inAlias (name : String) : Failure → Failure
  | .unmet expected _ => .unmet (.aliasExpansion name expected) true
  | failure => failure

/-- After `>` a missing operand is reported as such; other failures are kept. -/
def afterChild (failure : Failure) : Failure :=
  if failure.isCommitted then failure else .unmet .operandAfterChild true

end Failure

/-- A table without which nothing can be expanded. -/
inductive RequiredTable where
  | all
  | htmlTags
  | hamlTags
  | hiccupTags
  | declarations
  | indentedDeclarations
deriving DecidableEq

def RequiredTable.label : RequiredTable → String
  | .all => "tables"
  | .htmlTags => "html tag snippets"
  | .hamlTags => "haml tag snippets"
  | .hiccupTags => "hiccup tag snippets"
  | .declarations => "css snippets"
  | .indentedDeclarations => "indented css snippets"

/-- Why no expander can be set up. -/
inductive SetupFailure where
  | missingTable (table : RequiredTable)
  | emptyChain (extension : String)
  | noRenderer (extension first : String)
  | unknownFilter (extension name : String)
  | unreadableSettings
deriving DecidableEq

def SetupFailure.message : SetupFailure → String
  | .missingTable table => "required table '" ++ table.label ++ "' was not supplied"
  | .emptyChain extension =>
    "invalid default filter list: '" ++ extension ++ "' maps to an empty list"
  | .noRenderer extension first =>
    "invalid default filter list: '" ++ extension ++
      "' must start with a markup renderer, found '" ++ first ++ "'"
  | .unknownFilter extension name =>
    "invalid default filter list: '" ++ extension ++ "' names unknown filter '" ++ name ++ "'"
  | .unreadableSettings => "settings error"

end Shorthand
