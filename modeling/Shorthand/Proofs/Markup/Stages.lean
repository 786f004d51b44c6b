import Mathlib.Computability.StateTransition
import Mathlib.Data.List.Count
import Shorthand.Proofs.Markup.Chain

/-! Filter chains at work, one stage after the other. An escape that finds the tree in front of
it starts the default chain on the tree and waits for its text. Chains that tables pass the
check with begin with a renderer, so that happens at most once, and every chain comes to an end,
with what `run` gives; a default chain that began with an escape would start itself forever. -/
namespace Shorthand

theorem Filter.name_of_named? {name : String} {filter : Filter}
    (named : Filter.named? name = some filter) : filter.name = name := by
  simpa using List.find?_some named

theorem Filter.name_injective : Function.Injective Filter.name := by
  intro filter other same
  have named := Filter.named?_name filter
  rw [same, Filter.named?_name] at named
  exact (Option.some.inj named).symm

/-- A list of names that can be read is the names of its filters. -/
theorem names_of_filterChain {names : List String} {filters : List Filter}
    (known : filterChain names = .ok filters) : names = filters.map Filter.name := by
  have named := filterChain_eq_ok.mp known
  clear known
  induction names generalizing filters with
  | nil => rw [List.map_eq_nil_iff.mp named.symm]; rfl
  | cons name rest ih =>
    cases filters with
    | nil => contradiction
    | cons filter filters =>
      obtain ⟨first, later⟩ := List.cons.inj named
      rw [List.map_cons, Filter.name_of_named? first, ← ih later]

namespace Markup

open StateTransition (Reaches eval mem_eval)

/-- What a stage hands on: the tree, the text that was made of it, or the failure that ends
all work on it. -/
inductive Stage where
  | tree (tree : Node)
  | text (text : String)
  | failed (failure : Failure)

/-- A chain at work. What is left of a chain behind an escape that found the tree waits, until
the default chain has made a text of the tree. -/
structure Work where
  stage : Stage
  filters : List Filter
  waiting : List (List Filter)
  expander : Expander

namespace Work

variable {options : RenderOptions} {expander : Expander} {tree : Node} {text : String}
  {waiting : List (List Filter)}

/-- The tree becomes a text of the dialect. -/
def renders (options : RenderOptions) (dialect : Dialect) (tree : Node) (rest : List Filter)
    (work : Work) : Work :=
  let (text, expander) := render dialect options tree work.expander
  { work with stage := .text text, filters := rest, expander }

/-- One stage. A chain without filters left hands its text to the chain that waits for it; a
tree that no filter is left for is rendered in the dialect of the options. -/
def step (options : RenderOptions) (work : Work) : Option Work :=
  match work.stage, work.filters, work.waiting with
  | .tree tree, .render dialect :: rest, _ => some (work.renders options dialect tree rest)
  | .tree tree, [], _ => some (work.renders options options.dialect tree [])
  | .tree _, .escape :: rest, waiting =>
    some { work with
      filters := defaultChain work.expander.tables options, waiting := rest :: waiting }
  | .text text, .escape :: rest, _ =>
    some { work with stage := .text (escape text), filters := rest }
  | .text _, .render dialect :: _, _ =>
    some { work with
      stage := .failed (.filterOrder dialect.filterName), filters := [], waiting := [] }
  | .text text, [], rest :: waiting =>
    some { work with stage := .text (escape text), filters := rest, waiting }
  | .text _, [], [] | .failed _, _, _ => none

def start (filters : List Filter) (tree : Node) (expander : Expander) : Work :=
  { stage := .tree tree, filters, waiting := [], expander }

/-- The chain is through with the result. A failure is not handed to chains that wait. -/
def settled (waiting : List (List Filter)) : Except Failure String × Expander → Work
  | (.ok text, expander) => { stage := .text text, filters := [], waiting, expander }
  | (.error failure, expander) =>
    { stage := .failed failure, filters := [], waiting := [], expander }

theorem reaches_text (filters : List Filter) (text : String) :
    Reaches (step options) { stage := .text text, filters, waiting, expander }
      (settled waiting (refine filters text, expander)) := by
  induction filters generalizing text with
  | nil => exact .refl
  | cons filter rest ih =>
    cases filter with
    | render dialect => exact .single rfl
    | escape => exact .head rfl (ih (escape text))

theorem reaches_rendered (dialect : Dialect) (rest : List Filter) :
    Reaches (step options)
      { stage := .tree tree, filters := .render dialect :: rest, waiting, expander }
      (settled waiting (runRenderer (.render dialect :: rest) tree options expander)) :=
  .head rfl (reaches_text rest _)

/-- The chain that waits goes on with the escaped text. -/
theorem reaches_waiting (options : RenderOptions) (waiting : List (List Filter))
    (rest : List Filter) (result : Except Failure String × Expander) :
    Reaches (step options) (settled (rest :: waiting) result)
      (settled waiting (result.1.bind fun text => refine rest (escape text), result.2)) := by
  obtain ⟨_ | text, expander⟩ := result
  · exact .refl
  · exact .head rfl (reaches_text rest (escape text))

/-- Where the default chain begins with a renderer, every chain comes to what `run` gives. -/
theorem reaches_run {dialect : Dialect} {later : List Filter}
    (chain : defaultChain expander.tables options = .render dialect :: later)
    (filters : List Filter) (tree : Node) :
    Reaches (step options) (start filters tree expander)
      (settled [] (run filters tree options expander)) := by
  match filters with
  | [] => exact .single rfl
  | .render dialect :: rest => exact reaches_rendered dialect rest
  | .escape :: rest =>
    have entered : step options (start (.escape :: rest) tree expander) =
        some { stage := .tree tree, filters := .render dialect :: later, waiting := [rest],
               expander } := by
      rw [← chain]
      rfl
    have waited := reaches_waiting options [] rest
      (runRenderer (.render dialect :: later) tree options expander)
    rw [run, chain]
    exact .head entered (.trans (reaches_rendered dialect later) waited)

/-- Where the default chain begins with an escape, a chain that does so never ends. -/
theorem not_mem_eval_of_escape {later : List Filter}
    (chain : defaultChain expander.tables options = .escape :: later) (rest : List Filter)
    (tree : Node) (final : Work) :
    final ∉ eval (step options) (start (.escape :: rest) tree expander) := by
  -- The tree stays as it is, and so does the expander; only the waiting chains become more.
  have stuck : ∀ work, Reaches (step options) (start (.escape :: rest) tree expander) work →
      ∃ rest waiting, work = ⟨.tree tree, .escape :: rest, waiting, expander⟩ := by
    intro work path
    induction path with
    | refl => exact ⟨rest, [], rfl⟩
    | tail _ step ih =>
      obtain ⟨rest, waiting, rfl⟩ := ih
      obtain rfl := Option.some.inj step
      exact ⟨later, rest :: waiting, by rw [← chain]⟩
  intro ended
  obtain ⟨path, halts⟩ := mem_eval.mp ended
  obtain ⟨rest, waiting, rfl⟩ := stuck final path
  contradiction

end Work

section Result

variable {options : RenderOptions} {expander : Expander} {tree : Node}

/-- What the head of a chain makes of the tree. An escape leaves it to the default chain. -/
def firstText (filters : List Filter) (tree : Node) (options : RenderOptions)
    (expander : Expander) : Except Failure String :=
  match filters with
  | .render dialect :: _ => .ok (render dialect options tree expander).1
  | .escape :: _ => (run (defaultChain expander.tables options) tree options expander).1
  | [] => .ok (render options.dialect options tree expander).1

def isRenderer (name : String) : Bool := ((Filter.named? name).bind Filter.dialect?).isSome

theorem find?_isRenderer (filters : List Filter) :
    (filters.map Filter.name).find? isRenderer =
      (filters.findSome? Filter.dialect?).map Dialect.filterName := by
  induction filters with
  | nil => rfl
  | cons filter rest ih =>
    have read : isRenderer filter.name = filter.dialect?.isSome := by
      rw [isRenderer, Filter.named?_name, Option.bind_some]
    cases filter with
    | render dialect => exact List.find?_cons_of_pos read
    | escape => exact (List.find?_cons_of_neg (Bool.eq_false_iff.mp read)).trans ih

/-- Without a renderer among them, all filters escape. -/
theorem count_escape {filters : List Filter} (none : filters.findSome? Filter.dialect? = none) :
    filters.count .escape = filters.length := by
  refine List.count_eq_length.mpr fun filter member => ?_
  have text := List.findSome?_eq_none_iff.mp none filter member
  cases filter with
  | render dialect => contradiction
  | escape => rfl

/-- What the filters behind the head make of a text, which the head has escaped or not. -/
theorem refine_behind (head : Filter) (rest : List Filter) (text : String) :
    refine rest (escape^[[head].count .escape] text) =
      match rest.findSome? Filter.dialect? with
      | some dialect => .error (.filterOrder dialect.filterName)
      | none => .ok (escape^[(head :: rest).count .escape] text) := by
  rw [refine_eq]
  cases late : rest.findSome? Filter.dialect? with
  | some dialect => rfl
  | none =>
    have both : (head :: rest).count .escape = rest.length + [head].count .escape := by
      rw [← count_escape late, ← List.singleton_append, List.count_append, Nat.add_comm]
    rw [both, Function.iterate_add_apply]

theorem run_fst {dialect : Dialect} {later : List Filter}
    (chain : defaultChain expander.tables options = .render dialect :: later)
    (filters : List Filter) (tree : Node) :
    (run filters tree options expander).1 =
      (firstText filters tree options expander).bind fun text =>
        match filters.tail.findSome? Filter.dialect? with
        | some dialect => .error (.filterOrder dialect.filterName)
        | none => .ok (escape^[filters.count .escape] text) := by
  match filters with
  | [] => rfl
  | .render dialect :: rest => exact refine_behind (.render dialect) rest _
  | .escape :: rest =>
    have default : (run (defaultChain expander.tables options) tree options expander).1 =
        (runRenderer (defaultChain expander.tables options) tree options expander).1 := by
      rw [chain]
      rfl
    rw [firstText, default]
    exact congrArg _ (funext (refine_behind .escape rest))

end Result

/-- After any session, every chain of known filters comes to an end, with what `run` gives.
That is a failure if what the head makes of the tree is one; or else, if a renderer stands
behind the head, the failure that names the first of them; or else what the head makes of the
tree, escaped as often as the chain says. -/
theorem run_settles {tables : Option Tables} {source : Filler.ChaCha} {limits : Limits}
    {start expander : Expander} (built : Expander.build tables source limits = .ok start)
    {operations : List Expander.Operation} (reached : start.performAll operations = expander)
    {names : List String} {filters : List Filter} (known : filterChain names = .ok filters)
    (tree : Node) (options : RenderOptions) :
    Work.settled [] (run filters tree options expander) ∈
        eval (Work.step options) (Work.start filters tree expander) ∧
      (run filters tree options expander).1 =
        (firstText filters tree options expander).bind fun text =>
          match names.tail.find? isRenderer with
          | some name => .error (.filterOrder name)
          | none => .ok (escape^[names.count "e"] text) := by
  have consistent := (Expander.Consistent.build built).performAll operations
  rw [reached] at consistent
  obtain ⟨dialect, later, chain, -⟩ := defaultChain_eq consistent.checked options
  constructor
  · refine mem_eval.mpr ⟨Work.reaches_run chain filters tree, ?_⟩
    obtain ⟨_ | text, after⟩ := run filters tree options expander <;> rfl
  · have escapes : names.count "e" = filters.count .escape := by
      rw [names_of_filterChain known]
      exact List.count_map_of_injective _ _ Filter.name_injective .escape
    have late : names.tail.find? isRenderer =
        (filters.tail.findSome? Filter.dialect?).map Dialect.filterName := by
      rw [names_of_filterChain known, ← List.map_tail, find?_isRenderer]
    rw [run_fst chain, escapes, late]
    cases filters.tail.findSome? Filter.dialect? <;> rfl

/-- A session in which a chain escapes twice what the default chain has escaped once. -/
def escaping : List Expander.Operation := [.read "p>b", .expandMarkup "p|e|e" { extension := "x" }]

def br : Node := .tag { name := .ofText "br", hasBody := false }

/-- Three times, where the default chain renders and escapes, and the chain escapes twice. -/
theorem run_settles_escaped :
    ∃ start expander after, Expander.setup (some (tablesOfX ["html", "e"])) 0 {} = .ok start ∧
      start.performAll escaping = expander ∧ filterChain ["e", "e"] = .ok [.escape, .escape] ∧
      (⟨.text "&amp;amp;lt;br/&amp;amp;gt;", [], [], after⟩ : Work) ∈
        eval (Work.step { extension := "x" }) (Work.start [.escape, .escape] br expander) := by
  have built : Expander.setup (some (tablesOfX ["html", "e"])) 0 {} =
      .ok { tables := tablesOfX ["html", "e"], source := .ofSeed 0 } := rfl
  have known : filterChain ["e", "e"] = .ok [.escape, .escape] := rfl
  obtain ⟨settled, text⟩ :=
    run_settles built (rfl : Expander.performAll _ escaping = _) known br { extension := "x" }
  have escaped := text.trans (show _ = .ok "&amp;amp;lt;br/&amp;amp;gt;" by cbv)
  generalize run [.escape, .escape] br _ _ = result at settled escaped
  obtain ⟨_, after⟩ := result
  cases escaped
  exact ⟨_, _, after, built, rfl, known, settled⟩

end Markup

end Shorthand
