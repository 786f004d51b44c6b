import Shorthand.Node
import Shorthand.Table

/-! Aliases. An alias stands for a tree. It is supplied as the text of an
abbreviation and kept as the tree once that text has been read. -/
namespace Shorthand

inductive Alias where
  | source (text : String)
  | parsed (tree : Node)

abbrev AliasTable := Table String Alias

end Shorthand
