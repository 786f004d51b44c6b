/-! Text of several lines: putting lines together, replacing single characters,
and indenting. -/
namespace Shorthand

/-- Every occurrence of `c` in `text` becomes `new`. -/
def replaceChar (c : Char) (new : String) (text : String) : String :=
  String.ofList (text.toList.flatMap fun d => if d = c then new.toList else [d])

/-- The parts that are not empty, one below the other. -/
def joinLines (parts : List String) : String :=
  "\n".intercalate (parts.filter fun part => !part.isEmpty)

def isMultiline (text : String) : Bool := text.toList.contains '\n'

/-- `text` on lines of its own, each preceded by `unit`. -/
def indent (unit text : String) : String :=
  "\n" ++ unit ++ replaceChar '\n' ("\n" ++ unit) text

/-- What is left of `s` after `lead`, if `s` begins with it. -/
def dropLead? : List Char → List Char → Option (List Char)
  | [], s => some s
  | c :: lead, d :: s => if c = d then dropLead? lead s else none
  | _ :: _, [] => none

theorem dropLead?_eq_some {lead s rest : List Char} (h : dropLead? lead s = some rest) :
    s = lead ++ rest := by
  fun_induction dropLead? lead s with
  | case1 => simpa using h
  | case2 lead c s ih => rw [ih h, List.cons_append]
  | case3 => contradiction
  | case4 => contradiction

/-- The text before a final `c`, if there is one. -/
def dropLast? (c : Char) (s : List Char) : Option (List Char) :=
  if s.getLast? = some c then some s.dropLast else none

end Shorthand
