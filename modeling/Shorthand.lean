import Shorthand.Abbreviation.Grammar
import Shorthand.Abbreviation.Inquiry
import Shorthand.Abbreviation.Qualifier
import Shorthand.Abbreviation.Suffix
import Shorthand.Alias
import Shorthand.CommandLine
import Shorthand.Expand
import Shorthand.Expander
import Shorthand.Failure
import Shorthand.Filler.ChaCha
import Shorthand.Filler.Source
import Shorthand.Filler.Text
import Shorthand.Filter
import Shorthand.Json
import Shorthand.Limits
import Shorthand.Main
import Shorthand.Markup.Chain
import Shorthand.Markup.Dialect
import Shorthand.Markup.Element
import Shorthand.Markup.Haml
import Shorthand.Markup.Hiccup
import Shorthand.Markup.Html
import Shorthand.Markup.Render
import Shorthand.Markup.Snippet
import Shorthand.Node
import Shorthand.Node.Copies
import Shorthand.Node.Graft
import Shorthand.Node.Merge
import Shorthand.Numbering
import Shorthand.Options
import Shorthand.Proofs.Aliases.Alike
import Shorthand.Proofs.Aliases.Cycles
import Shorthand.Proofs.Aliases.Filling
import Shorthand.Proofs.Aliases.Fixed
import Shorthand.Proofs.Aliases.Meaning
import Shorthand.Proofs.Aliases.Memory
import Shorthand.Proofs.Aliases.Nesting
import Shorthand.Proofs.Aliases.Questions
import Shorthand.Proofs.Aliases.Remembering
import Shorthand.Proofs.Aliases.Steady
import Shorthand.Proofs.Filler.Markers
import Shorthand.Proofs.Filler.Request
import Shorthand.Proofs.Filler.Sentences
import Shorthand.Proofs.Grammar.Commitment
import Shorthand.Proofs.Grammar.Composition
import Shorthand.Proofs.Grammar.Depth
import Shorthand.Proofs.Grammar.Locality
import Shorthand.Proofs.Grammar.NodeLimit
import Shorthand.Proofs.Grammar.Steps
import Shorthand.Proofs.Grammar.Tokens
import Shorthand.Proofs.Inquiry.Cut
import Shorthand.Proofs.Inquiry.Keeps
import Shorthand.Proofs.Inquiry.Run
import Shorthand.Proofs.Machine.Calls
import Shorthand.Proofs.Machine.Failures
import Shorthand.Proofs.Machine.Invariant
import Shorthand.Proofs.Machine.LimitRegister
import Shorthand.Proofs.Machine.Registers
import Shorthand.Proofs.Machine.Step
import Shorthand.Proofs.Machine.Termination
import Shorthand.Proofs.Markup.Attributes
import Shorthand.Proofs.Markup.Chain
import Shorthand.Proofs.Markup.Elements
import Shorthand.Proofs.Markup.Escape
import Shorthand.Proofs.Markup.Grouping
import Shorthand.Proofs.Markup.Indentation
import Shorthand.Proofs.Markup.Journal
import Shorthand.Proofs.Markup.Literals
import Shorthand.Proofs.Markup.Marks
import Shorthand.Proofs.Markup.Outline
import Shorthand.Proofs.Markup.Spelling
import Shorthand.Proofs.Markup.Stages
import Shorthand.Proofs.Markup.Strings
import Shorthand.Proofs.Node.Copies
import Shorthand.Proofs.Node.Count
import Shorthand.Proofs.Node.Graft
import Shorthand.Proofs.Node.Merge
import Shorthand.Proofs.Node.Numbers
import Shorthand.Proofs.Node.Parts
import Shorthand.Proofs.Node.Templates
import Shorthand.Proofs.Operators
import Shorthand.Proofs.Printing.Tag
import Shorthand.Proofs.Printing.Template
import Shorthand.Proofs.Scanning.Braces
import Shorthand.Proofs.Scanning.Locality
import Shorthand.Proofs.Scanning.Numbering
import Shorthand.Proofs.Scanning.Pieces
import Shorthand.Proofs.Scanning.Remainder
import Shorthand.Proofs.Scanning.Span
import Shorthand.Proofs.Scanning.Token
import Shorthand.Proofs.Session.Change
import Shorthand.Proofs.Session.Coherence
import Shorthand.Proofs.Style.Argument
import Shorthand.Proofs.Style.Arguments
import Shorthand.Proofs.Style.Color
import Shorthand.Proofs.Style.Expansion
import Shorthand.Proofs.Style.Importance
import Shorthand.Proofs.Style.Key
import Shorthand.Proofs.Style.Mark
import Shorthand.Proofs.Style.Partition
import Shorthand.Proofs.Style.Placeholder
import Shorthand.Proofs.Style.Plus
import Shorthand.Proofs.Style.Settled
import Shorthand.Proofs.Style.Slots
import Shorthand.Proofs.Style.Substitution
import Shorthand.Proofs.Style.Texts
import Shorthand.Proofs.Style.Token
import Shorthand.Proofs.Suffix.Agreement
import Shorthand.Proofs.Suffix.Plain
import Shorthand.Proofs.Suffix.Walk
import Shorthand.Proofs.Table
import Shorthand.Proofs.Template.Building
import Shorthand.Proofs.Template.Canonical
import Shorthand.Proofs.Template.Segments
import Shorthand.Proofs.Text.Lines
import Shorthand.Proofs.Text.Shift
import Shorthand.Proofs.Text.Trim
import Shorthand.Settings.Layer
import Shorthand.Settings.Load
import Shorthand.Settings.Toml.Document
import Shorthand.Settings.Toml.Item
import Shorthand.Settings.Toml.Lexeme
import Shorthand.Settings.Toml.Moment
import Shorthand.Settings.Toml.Scalar
import Shorthand.Settings.Value
import Shorthand.Style.Argument
import Shorthand.Style.Color
import Shorthand.Style.Declaration
import Shorthand.Style.Formatter
import Shorthand.Style.Sheet
import Shorthand.Style.Token
import Shorthand.Table
import Shorthand.Tables
import Shorthand.Tables.Builtin
import Shorthand.Template
import Shorthand.Text.Blank
import Shorthand.Text.Bytes
import Shorthand.Text.Case
import Shorthand.Text.Case.Cased
import Shorthand.Text.Case.Table
import Shorthand.Text.Digit
import Shorthand.Text.Lines
import Shorthand.Text.Shortest
import Shorthand.Text.Span
