import Shorthand.Proofs.Inquiry.Run
import Shorthand.Proofs.Machine.Step
import Shorthand.Proofs.Scanning.Token

/-! What a step does to the registers. A step works on the input, or it enters or leaves an
expression, or it opens or closes an alias; nothing else moves the depth or the opened
aliases. So the stack tells both at every moment, an alias is opened only while its text
is still to be read, and none is opened twice. The nesting in one text takes a character
of that text for each level, so the texts bound the depth, whatever the limits are. -/
namespace Shorthand.Abbreviation.Machine

/-- How many characters are at hand, and one more where a level is about to be taken. -/
def Control.demand : Control → Nat
  | .complete s | .expression s => s.length + 1
  | .chain s | .operand s | .atom s | .further _ s | .shorthand _ s | .subject _ s => s.length
  | .returning (.node _ rest) => rest.length
  | .returning _ | .resolve _ => 0

/-- How many characters the frame goes on with. -/
def Frame.demand : Frame → Nat
  | .tag _ rest | .further _ rest | .shorthand _ _ rest => rest.length
  | _ => 0

/-- Whether the frame goes together with a change of the registers. -/
def Frame.isMark : Frame → Bool
  | .level | .opened _ => true
  | _ => false

/-- The ways in which a step changes the stack and the registers. -/
inductive Change (c : Config) : Config → Prop where
  | goes {control : Control} : control.demand ≤ c.control.demand → Change c (c.go control)
  | noted {name : String} : name ∈ c.opened →
      Change c { c.returns (.reply none) with memory := c.memory.noteCycle c.opened name }
  | called {frame : Frame} {control : Control} : frame.isMark = false →
      frame.demand ≤ c.control.demand → control.demand ≤ c.control.demand →
      Change c (c.call frame control)
  | resumed {frame : Frame} {stack : List Frame} {control : Control} :
      c.stack = frame :: stack → frame.isMark = false →
      control.demand ≤ max c.control.demand frame.demand → Change c { c with control, stack }
  | entered {s : List Char} : c.control = .expression s →
      Change c { c.call .level (.chain s) with depth := c.depth + 1 }
  | left {stack : List Frame} : c.stack = .level :: stack →
      Change c { c with stack, depth := c.depth - 1 }
  | opened {name text : String} : name ∉ c.opened →
      c.memory.aliases.get? name = some (.source text) →
      Change c { c.call (.opened name) (.complete text.toList) with opened := name :: c.opened }
  | closed {name : String} {stack : List Frame} {control : Control} {memory : Memory} :
      c.stack = .opened name :: stack → control.demand = 0 →
      (memory = c.memory ∨ ∃ tree, memory = c.memory.remember name tree) →
      Change c { c with control, stack, opened := c.opened.tail, memory }

section Change

variable {limits : Limits} {c : Config} {s rest : List Char}

theorem change_fails (failure : Failure) : Change c (c.fails failure) :=
  .goes (Nat.zero_le _)

theorem demand_of (result : Except Failure Node) (rest : List Char) :
    (Control.returning (.of (.node · rest) result)).demand ≤ rest.length := by
  cases result with
  | ok tree => exact le_rfl
  | error failure => exact Nat.zero_le _

theorem change_expandTag {tag : Tag} (h : rest.length ≤ c.control.demand) :
    Change c (c.expandTag tag rest) := by
  unfold Config.expandTag
  split
  · exact .goes h
  · exact .called rfl h (Nat.zero_le _)

theorem change_namedTag (h : s.length ≤ c.control.demand) : Change c (c.namedTag s) := by
  unfold Config.namedTag
  split
  · exact change_fails _
  · next tag rest body =>
    have shorter := ((tagName_takes s).trans (tagBody_takes body)).length_le.trans h
    split
    · exact .goes shorter
    · exact change_expandTag shorter

theorem change_impliedTag (h : s.length ≤ c.control.demand) : Change c (c.impliedTag s) := by
  unfold Config.impliedTag
  split
  · exact change_fails _
  · next tag rest body => exact change_expandTag ((tagBody_takes body).length_le.trans h)

theorem change_textNode (h : s.length < c.control.demand) : Change c (c.textNode s) := by
  refine .goes ?_
  cases read : bracedText s with
  | error failure => exact Nat.zero_le _
  | ok result =>
    obtain ⟨content, rest⟩ := result
    have taken : Takes ('{' :: s) rest := .text (bracedText_eq_ok.mp read) (.done _)
    exact taken.length_le.trans h

theorem change_atom (h : s.length ≤ c.control.demand) : Change c (c.atom s) := by
  unfold Config.atom
  split
  · exact .called rfl (Nat.zero_le _) h
  · exact change_textNode h
  · split
    · exact change_namedTag h
    · split
      · exact change_impliedTag h
      · exact change_fails _
  · exact change_fails _

theorem change_subject {node : Node} (h : rest.length ≤ c.control.demand) :
    Change c (c.subject limits node rest) := by
  unfold Config.subject
  split
  · exact change_fails _
  · next found => exact .called rfl (Nat.zero_le _) ((repeatCount_takes found).length_le.trans h)
  · next found =>
    exact .goes ((demand_of _ _).trans ((repeatCount_takes found).length_le.trans h))

theorem change_further {operands : Operands} (h : s.length ≤ c.control.demand) :
    Change c (c.further limits operands s) := by
  unfold Config.further
  split
  · exact .called rfl (Nat.le_of_succ_le h) (Nat.le_of_succ_le h)
  · exact .goes ((demand_of _ _).trans h)

theorem change_shorthand {operands : Operands} (h : s.length ≤ c.control.demand) :
    Change c (c.shorthand operands s) := by
  unfold Config.shorthand
  split
  · exact change_fails _
  · exact .called rfl h (Nat.zero_le _)

theorem change_resolve (name : String) : Change c (c.resolve name) := by
  unfold Config.resolve
  split
  · next inside => exact .noted inside
  · next outside =>
    split
    · exact .goes (Nat.zero_le _)
    · exact .goes (Nat.zero_le _)
    · next source => exact .opened outside source

theorem change_expression (h : c.control = .expression s) : Change c (c.expression limits s) := by
  unfold Config.expression
  split
  · exact change_fails _
  · exact .entered h

theorem change_resume {c' : Config} {frame : Frame} {stack : List Frame} {value : Value}
    (control : c.control = .returning value) (waiting : c.stack = frame :: stack)
    (h : { c with stack }.resume limits frame value = some c') : Change c c' := by
  have demand := congrArg Control.demand control
  have failed : ∀ failure, frame.isMark = false →
      Change c { c with control := .returning (.failed failure), stack } :=
    fun failure plain => .resumed waiting plain (Nat.zero_le _)
  have left : frame = .level →
      Change c { c with control := .returning value, stack, depth := c.depth - 1 } := by
    rintro rfl
    exact control ▸ .left waiting
  cases value with
  | failed failure =>
    cases frame with
    | level =>
      obtain rfl := Option.some.inj h
      exact left rfl
    | opened name =>
      obtain rfl := Option.some.inj h
      exact .closed waiting rfl (.inl rfl)
    | further operands after =>
      obtain rfl := Option.some.inj h
      split
      · exact failed _ rfl
      · exact .resumed waiting rfl (le_max_right _ _)
    | whole | tag tag after | group | subject | child subject count | first
    | shorthand operands tag after =>
      obtain rfl := Option.some.inj h
      exact failed _ rfl
  | reply tree =>
    cases frame with
    | level =>
      obtain rfl := Option.some.inj h
      exact left rfl
    | tag tag after =>
      obtain rfl := Option.some.inj h
      exact .resumed waiting rfl (le_max_right _ _)
    | shorthand operands tag after =>
      cases tree with
      | none =>
        obtain rfl := Option.some.inj h
        exact failed _ rfl
      | some tree =>
        obtain rfl := Option.some.inj h
        exact .resumed waiting rfl (le_max_right _ _)
    | whole | opened name | group | subject | child subject count | first
    | further operands after => contradiction
  | node tree rest =>
    cases frame with
    | level =>
      obtain rfl := Option.some.inj h
      exact left rfl
    | opened name =>
      obtain rfl := Option.some.inj h
      exact .closed waiting rfl (.inr ⟨tree, rfl⟩)
    | whole =>
      obtain rfl := Option.some.inj h
      split
      · exact .resumed waiting rfl (Nat.zero_le _)
      · exact failed _ rfl
    | group =>
      obtain rfl := Option.some.inj h
      unfold Config.closeGroup
      split
      · exact .resumed waiting rfl (.trans (demand ▸ Nat.le_succ _) (le_max_left _ _))
      · exact failed _ rfl
    | child subject count =>
      obtain rfl := Option.some.inj h
      exact .resumed waiting rfl (le_max_of_le_left ((demand_of _ _).trans demand.ge))
    | subject | first | further operands after =>
      obtain rfl := Option.some.inj h
      exact .resumed waiting rfl (le_max_of_le_left demand.ge)
    | tag tag after | shorthand operands tag after => contradiction

/-- Every step is one of the changes. -/
theorem change_of_step {c' : Config} (h : step limits c = some c') : Change c c' := by
  unfold step at h
  split at h
  · next s heq =>
    obtain rfl := Option.some.inj h
    exact .called rfl (Nat.zero_le _) (congrArg Control.demand heq).ge
  · next s heq =>
    obtain rfl := Option.some.inj h
    exact change_expression heq
  · next s heq =>
    obtain rfl := Option.some.inj h
    exact .called rfl (Nat.zero_le _) (congrArg Control.demand heq).ge
  · next operands s heq =>
    obtain rfl := Option.some.inj h
    exact change_further (congrArg Control.demand heq).ge
  · next operands s heq =>
    obtain rfl := Option.some.inj h
    exact change_shorthand (congrArg Control.demand heq).ge
  · next s heq =>
    obtain rfl := Option.some.inj h
    exact .called rfl (Nat.zero_le _) (congrArg Control.demand heq).ge
  · next node rest heq =>
    obtain rfl := Option.some.inj h
    exact change_subject (congrArg Control.demand heq).ge
  · next s heq =>
    obtain rfl := Option.some.inj h
    exact change_atom (congrArg Control.demand heq).ge
  · next name heq =>
    obtain rfl := Option.some.inj h
    exact change_resolve name
  · next value heq =>
    split at h
    · contradiction
    · next frame stack waiting => exact change_resume heq waiting h

end Change

end Shorthand.Abbreviation.Machine
