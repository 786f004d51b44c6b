/-! Bounds on a single expansion. -/
namespace Shorthand

structure Limits where
  /-- How deep expressions may nest: groups, operands of `>`, and alias texts. -/
  maxDepth : Nat := 64
  /-- How many nodes an operator may build. -/
  maxNodes : Nat := 10000
  /-- How many words one filler marker may ask for. -/
  maxFillerWords : Nat := 10000
deriving DecidableEq

end Shorthand
