import Mathlib
import Shorthand.Proofs.Grammar.Composition
import Shorthand.Proofs.Grammar.Depth
import Shorthand.Proofs.Grammar.Locality
import Shorthand.Proofs.Suffix.Walk

/-! What the operators mean. Where every alias stands for a tree already, the reading of
an abbreviation put together from others is told by their trees: a group is its inner
tree, a child is grafted, a multiplier copies its subject, and `+` makes siblings. The
limits may refuse what has become too deep or too large. -/
namespace Shorthand.Abbreviation

/-- Every alias stands for a tree that has been read. -/
def AllParsed (aliases : AliasTable) : Prop := ∀ entry ∈ aliases, ∃ tree, entry.2 = .parsed tree

/-- The result is the one expected, unless reading was given up at a limit. -/
def UpToLimits {α : Type} (result expected : Except Failure α) : Prop :=
  GivenUp result ∨ result = expected

section AllParsed

variable {aliases : AliasTable} (parsed : AllParsed aliases)

include parsed

theorem resolve_of_allParsed (readText : List String → Memory → List Char → Reading Node)
    (name : String) : ∃ tree, resolve readText [] { aliases } name = ({ aliases }, .ok tree) := by
  have unread {text : String} (found : aliases.get? name = some (.source text)) : False := by
    obtain ⟨tree, same⟩ := parsed _ (Table.mem_of_get? found)
    contradiction
  have answer := resolution readText [] { aliases } name
  generalize resolve readText [] { aliases } name = result at answer ⊢
  cases answer with
  | opened inside => simp at inside
  | given outside known => exact ⟨_, rfl⟩
  | failed outside found ran => exact (unread found).elim
  | read outside found ran => exact (unread found).elim

/-- Nothing is left to be learnt. -/
theorem run_fst_of_allParsed {α : Type} (i : Inquiry α) :
    (i.run [] { aliases }).1 = { aliases } := by
  induction i with
  | done result => rfl
  | ask name text reply _ ih =>
    obtain ⟨tree, resolved⟩ := resolve_of_allParsed parsed
      (fun opened memory s => (text s).run opened memory) name
    rw [Inquiry.run_ask, resolved]
    exact ih tree

theorem run_eq_of_snd {α : Type} {i : Inquiry α} {result : Except Failure α}
    (h : (i.run [] { aliases }).2 = result) : i.run [] { aliases } = ({ aliases }, result) :=
  Prod.ext (run_fst_of_allParsed parsed i) h

end AllParsed

/-- Without a `|` an abbreviation is all expression. -/
theorem read_snd {limits : Limits} {aliases : AliasTable} {abbreviation : String}
    (bar : '|' ∉ abbreviation.toList) :
    (read limits aliases abbreviation).2 =
      ((complete (expression limits limits.maxDepth) abbreviation.toList).run []
        { aliases }).2 :=
  read_of_no_filters (splitFilters_of_bar_not_mem bar)

section UpToLimits

variable {α β : Type} {limits : Limits}

theorem UpToLimits.bind {result : Except Failure α} {value : α} {next : α → Except Failure β}
    {expected : Except Failure β} (first : UpToLimits result (.ok value))
    (second : UpToLimits (next value) expected) : UpToLimits (result.bind next) expected := by
  obtain ⟨quantity, limit, rfl⟩ | rfl := first
  · exact .inl ⟨quantity, limit, rfl⟩
  · exact second

theorem UpToLimits.bind_error {result : Except Failure α} {failure : Failure}
    {next : α → Except Failure β} (first : UpToLimits result (.error failure)) :
    UpToLimits (result.bind next) (.error failure) := by
  obtain ⟨quantity, limit, rfl⟩ | rfl := first
  · exact .inl ⟨quantity, limit, rfl⟩
  · exact .inr rfl

theorem accept_upToLimits (node : Node) : UpToLimits (accept limits node) (.ok node) := by
  unfold accept
  split
  · exact .inl ⟨_, _, rfl⟩
  · exact .inr rfl

theorem admitChain_upToLimits (node : Node) : UpToLimits (admitChain limits node) (.ok node) := by
  unfold admitChain
  split
  · exact accept_upToLimits node
  · exact .inr rfl

theorem materialize_upToLimits (node : Node) (count : Nat) :
    UpToLimits (materialize limits node (some count)) (.ok (node.multiply count)) := by
  unfold materialize
  dsimp only
  split
  · exact .inl ⟨_, _, rfl⟩
  · exact .inr rfl

/-- A child grafted onto a tree; that there is no place for it ends the reading. -/
def grafted (subject child : Node) : Except Failure Node :=
  match subject.graft? child with
  | none => .error (.unmet .parentTag true)
  | some node => .ok node

theorem graftAndMaterialize_upToLimits (subject child : Node) :
    UpToLimits (graftAndMaterialize limits subject child none) (grafted subject child) := by
  unfold graftAndMaterialize grafted
  cases subject.graft? child with
  | none => exact .inr rfl
  | some node => exact (accept_upToLimits node).bind (.inr rfl)

theorem graftAndMaterialize_some_upToLimits (subject child : Node) (count : Nat) :
    UpToLimits (graftAndMaterialize limits subject child (some count))
      ((grafted subject child).map fun node => node.multiply count) := by
  unfold graftAndMaterialize grafted
  cases subject.graft? child with
  | none => exact .inr rfl
  | some node => exact (accept_upToLimits node).bind (materialize_upToLimits node count)

theorem UpToLimits.chained {result expected : Except Failure Node} (h : UpToLimits result expected) :
    UpToLimits (result.bind (admitChain limits)) expected := by
  cases expected with
  | error failure => exact h.bind_error
  | ok node => exact h.bind (admitChain_upToLimits node)

/-- The outermost expression may be read with room for one level more. -/
theorem read_upToLimits {aliases : AliasTable} {abbreviation : String}
    {expected : Except Failure Node} (bar : '|' ∉ abbreviation.toList)
    (h : UpToLimits ((complete (chain limits (expression limits limits.maxDepth))
      abbreviation.toList).run [] { aliases }).2 expected) :
    UpToLimits (read limits aliases abbreviation).2 expected := by
  rw [read_snd bar]
  have cut := complete_cut (expression_cut limits (Nat.le_succ limits.maxDepth)) abbreviation.toList
  rcases cut.run [] { aliases } with deep | same
  · exact .inl deep.givenUp
  · rw [same]
    exact h

end UpToLimits

theorem all_isDigit_of_readWord? {digits : List Char} {count : Nat}
    (h : readWord? digits = some count) : ∀ c ∈ digits, c.isDigit := by
  unfold readWord? at h
  split at h
  · next digits => exact List.all_eq_true.mp digits.2.1
  · contradiction

theorem repeatCount_numeral {digits : List Char} {count : Nat} (x : List Char)
    (numeral : readWord? digits = some count) (stop : Stops isDecimalDigit x) :
    repeatCount ('*' :: (digits ++ x)) = .ok (some count, x) := by
  have all (c : Char) (hc : c ∈ digits) : isDecimalDigit c :=
    isDecimalDigit_of_isDigit (all_isDigit_of_readWord? numeral c hc)
  rw [repeatCount_some (by rwa [takeWhile_run all stop]), dropWhile_run all stop]

theorem quote_not_mem_numeral {digits : List Char} {count : Nat}
    (numeral : readWord? digits = some count) : '"' ∉ digits :=
  fun mem => absurd (all_isDigit_of_readWord? numeral _ mem) (by decide)

theorem quotesApart_of_not_mem {s x : List Char} (h : '"' ∉ x) : QuotesApart s x :=
  fun quote => absurd quote h

section Operators

variable {limits : Limits} {room : Nat} {opened : List String} {memory middle after : Memory}
  {s below digits : List Char} {subject child left right : Node} {count : Nat}

/-- An expression in parentheses is an operand. -/
theorem run_operand_group (x : List Char)
    (ran : (expression limits room s).run opened memory = (after, .ok (subject, [])))
    (apart : QuotesApart s x) (plain : x.head? ≠ some '*') (childless : x.head? ≠ some '>') :
    (operand limits (expression limits room) ('(' :: (s ++ ')' :: x))).run opened memory =
      (after, .ok (subject, x)) := by
  have ends : EndsExpression (')' :: x) := fun c hc => Option.some.inj hc ▸ List.mem_cons_self
  have apart : QuotesApart s (')' :: x) := fun quote => apart (by simpa using quote)
  have inner := expression_readsOn limits room (')' :: x) ran (fun _ => ends) apart
  have grouped : (atom (expression limits room) ('(' :: (s ++ ')' :: x))).run opened memory =
      (after, .ok (subject, x)) := run_group.mpr inner
  exact run_operand_plain grouped (repeatCount_none plain) childless

/-- An atom in front of an operator. -/
theorem run_atom_before {c : Char} {x : List Char}
    (ran : (atom (expression limits room) s).run opened memory = (after, .ok (subject, [])))
    (operator : c ∈ ['+', '>', '*']) (apart : QuotesApart s (c :: x)) :
    (atom (expression limits room) (s ++ c :: x)).run opened memory =
      (after, .ok (subject, c :: x)) := by
  have ends : EndsAtom (c :: x) := fun d hd =>
    Option.some.inj hd ▸ List.mem_append_right [')', '|'] operator
  exact atom_readsOn (expression_readsOn limits room) (c :: x) ran (fun _ => ends) apart

theorem complete_group
    (ran : (expression limits room s).run opened memory = (after, .ok (subject, []))) :
    UpToLimits ((complete (chain limits (expression limits room))
      ('(' :: (s ++ [')']))).run opened memory).2 (.ok subject) := by
  have grouped := run_operand_group [] ran (quotesApart_of_not_mem nofun) nofun nofun
  rw [run_complete_operand (.ok subject) grouped]
  exact admitChain_upToLimits subject

theorem complete_child
    (subjectRan : (atom (expression limits room) s).run opened memory =
      (middle, .ok (subject, [])))
    (childRan : (expression limits room below).run opened middle = (after, .ok (child, [])))
    (apart : QuotesApart s below) :
    UpToLimits ((complete (chain limits (expression limits room))
      (s ++ '>' :: below)).run opened memory).2 (grafted subject child) := by
  have apart : QuotesApart s ('>' :: below) := fun quote => apart (by simpa using quote)
  have atomRan := run_atom_before subjectRan (by decide) apart
  have operandRan := run_operand_nested limits atomRan (repeatCount_none nofun) childRan
  rw [run_complete_operand _ operandRan]
  exact (graftAndMaterialize_upToLimits subject child).chained

theorem complete_copies (numeral : readWord? digits = some count)
    (subjectRan : (atom (expression limits room) s).run opened memory =
      (after, .ok (subject, []))) :
    UpToLimits ((complete (chain limits (expression limits room))
      (s ++ '*' :: digits)).run opened memory).2 (.ok (subject.multiply count)) := by
  have apart : QuotesApart s ('*' :: digits) :=
    quotesApart_of_not_mem (by simp [quote_not_mem_numeral numeral])
  have atomRan := run_atom_before subjectRan (by decide) apart
  have counted : repeatCount ('*' :: digits) = .ok (some count, []) := by
    simpa using repeatCount_numeral [] numeral stops_nil
  rw [run_complete_operand _ (run_operand_plain atomRan counted nofun)]
  exact (materialize_upToLimits subject count).chained

theorem complete_copies_child (numeral : readWord? digits = some count)
    (subjectRan : (atom (expression limits room) s).run opened memory =
      (middle, .ok (subject, [])))
    (childRan : (expression limits room below).run opened middle = (after, .ok (child, [])))
    (apart : QuotesApart s below) :
    UpToLimits ((complete (chain limits (expression limits room))
      (s ++ '*' :: (digits ++ '>' :: below))).run opened memory).2
        ((grafted subject child).map fun node => node.multiply count) := by
  have apart : QuotesApart s ('*' :: (digits ++ '>' :: below)) := fun quote =>
    apart (by simpa [quote_not_mem_numeral numeral] using quote)
  have atomRan := run_atom_before subjectRan (by decide) apart
  have counted := repeatCount_numeral ('>' :: below) numeral (stops_cons.mpr (by decide +kernel))
  rw [run_complete_operand _ (run_operand_nested limits atomRan counted childRan)]
  exact (graftAndMaterialize_some_upToLimits subject child count).chained

theorem complete_siblings
    (leftRan : (expression limits room s).run opened memory = (middle, .ok (left, [])))
    (rightRan : (expression limits room below).run opened middle = (after, .ok (right, [])))
    (apart : QuotesApart s below) :
    UpToLimits ((complete (chain limits (expression limits room))
      ('(' :: (s ++ ')' :: '+' :: '(' :: (below ++ [')'])))).run opened memory).2
        (.ok (left.sibling right)) := by
  have apart : QuotesApart s ('+' :: '(' :: (below ++ [')'])) := fun quote =>
    apart (by simpa using quote)
  have leftOperand := run_operand_group _ leftRan apart (by simp) (by simp)
  have rightOperand := run_operand_group [] rightRan (quotesApart_of_not_mem nofun) nofun nofun
  rw [run_complete_siblings leftOperand rightOperand]
  exact admitChain_upToLimits _

end Operators

section Meaning

variable {limits : Limits} {aliases : AliasTable} {a e e₁ n : String} {ta t t₁ : Node} {count : Nat}

theorem run_expression_of_read (parsed : AllParsed aliases) (bar : '|' ∉ e.toList)
    (readE : (read limits aliases e).2 = .ok t) :
    (expression limits limits.maxDepth e.toList).run [] { aliases } =
      ({ aliases }, .ok (t, [])) := by
  rw [read_snd bar] at readE
  exact run_complete.mp (run_eq_of_snd parsed readE)

theorem operators_compose (limits : Limits) (parsed : AllParsed aliases) (barA : '|' ∉ a.toList)
    (barE : '|' ∉ e.toList) (barE₁ : '|' ∉ e₁.toList)
    (atomA : ((atom (expression limits limits.maxDepth) a.toList).run [] { aliases }).2 =
      .ok (ta, []))
    (readE : (read limits aliases e).2 = .ok t) (readE₁ : (read limits aliases e₁).2 = .ok t₁)
    (numeral : readWord? n.toList = some count) :
    UpToLimits (read limits aliases ("(" ++ e ++ ")")).2 (.ok t) ∧
    (QuotesApart a.toList e.toList →
      UpToLimits (read limits aliases (a ++ ">" ++ e)).2 (grafted ta t)) ∧
    UpToLimits (read limits aliases (a ++ "*" ++ n)).2 (.ok (ta.multiply count)) ∧
    (QuotesApart a.toList e.toList →
      UpToLimits (read limits aliases (a ++ "*" ++ n ++ ">" ++ e)).2
        ((grafted ta t).map fun node => node.multiply count)) ∧
    (QuotesApart e₁.toList e.toList →
      UpToLimits (read limits aliases ("(" ++ e₁ ++ ")+(" ++ e ++ ")")).2
        (.ok (t₁.sibling t))) := by
  have atomA := run_eq_of_snd parsed atomA
  have exprE := run_expression_of_read parsed barE readE
  have exprE₁ := run_expression_of_read parsed barE₁ readE₁
  have barN : '|' ∉ n.toList := fun mem =>
    absurd (all_isDigit_of_readWord? numeral _ mem) (by decide)
  refine ⟨?group, fun apart => ?child, ?copies, fun apart => ?copiesOfChild, fun apart => ?siblings⟩
  case group =>
    refine read_upToLimits (by simp [barE]) ?_
    simpa using complete_group exprE
  case child =>
    refine read_upToLimits (by simp [barA, barE]) ?_
    simpa using complete_child atomA exprE apart
  case copies =>
    refine read_upToLimits (by simp [barA, barN]) ?_
    simpa using complete_copies numeral atomA
  case copiesOfChild =>
    refine read_upToLimits (by simp [barA, barN, barE]) ?_
    simpa using complete_copies_child numeral atomA exprE apart
  case siblings =>
    refine read_upToLimits (by simp [barE₁, barE]) ?_
    simpa using complete_siblings exprE₁ exprE apart

theorem operators_compose_attributes :
    AllParsed [] ∧ readWord? "2".toList = some 2 ∧
    QuotesApart "p[a=\"x\"]".toList "q[b=\"y\"]".toList ∧
    UpToLimits (read {} [] ("p[a=\"x\"]" ++ "*" ++ "2" ++ ">" ++ "q[b=\"y\"]")).2
      ((grafted (.tag (tagWith "p" "a" "x")) (.tag (tagWith "q" "b" "y"))).map
        fun node => node.multiply 2) := by
  have parsed : AllParsed [] := nofun
  have numeral : readWord? "2".toList = some 2 := by decide
  have apart : QuotesApart "p[a=\"x\"]".toList "q[b=\"y\"]".toList := by
    have listed : attributeList [] "a=\"x\"]".toList = .ok ([(['a'], .quoted ['x'])], []) := by cbv
    have written : writtenAttributes "p[a=\"x\"]".toList =
        [(['a'], .quoted ['x'])] ++ writtenAttributes [] :=
      (writtenAttributes_sign _ (by decide) (by decide)).trans (writtenAttributes_list listed)
    intro quote
    rw [written, writtenAttributes]
    decide
  have atomP : (atom (expression {} 64) "p[a=\"x\"]".toList).run [] { aliases := [] } =
      ({ aliases := [] }, .ok (.tag (tagWith "p" "a" "x"), [])) :=
    run_atom_tagWith "a=\"x\"]".toList (by decide) (by cbv) (by cbv) (by cbv) (by decide)
  have atomQ : (atom (expression {} 63) "q[b=\"y\"]".toList).run [] { aliases := [] } =
      ({ aliases := [] }, .ok (.tag (tagWith "q" "b" "y"), [])) :=
    run_atom_tagWith "b=\"y\"]".toList (by decide) (by cbv) (by cbv) (by cbv) (by decide)
  have readQ : (read {} [] "q[b=\"y\"]").2 = .ok (.tag (tagWith "q" "b" "y")) := by
    rw [read_snd (by decide)]
    exact congrArg Prod.snd (run_complete_tag atomQ)
  have composed := operators_compose {} parsed (by decide) (by decide) (by decide)
    (congrArg Prod.snd atomP) readQ readQ numeral
  exact ⟨parsed, numeral, apart, composed.2.2.2.1 apart⟩

/-- Where the last quote of the first tag stands open, the `>` behind it is not read as
an operator: the quote finds its partner in the child. -/
theorem child_closes_quote :
    AllParsed [] ∧ '|' ∉ "p[a=\"x]".toList ∧ '|' ∉ "b[c=\"y]".toList ∧
    ((atom (expression {} 64) "p[a=\"x]".toList).run [] { aliases := [] }).2 =
      .ok (.tag (tagWith "p" "a" "\"x"), []) ∧
    (read {} [] "b[c=\"y]").2 = .ok (.tag (tagWith "b" "c" "\"y")) ∧
    ¬UpToLimits (read {} [] ("p[a=\"x]" ++ ">" ++ "b[c=\"y]")).2
      (grafted (.tag (tagWith "p" "a" "\"x")) (.tag (tagWith "b" "c" "\"y"))) := by
  have atomP : (atom (expression {} 64) "p[a=\"x]".toList).run [] { aliases := [] } =
      ({ aliases := [] }, .ok (.tag (tagWith "p" "a" "\"x"), [])) :=
    run_atom_tagWith "a=\"x]".toList (by decide) (by cbv) (by cbv) (by cbv) (by decide)
  have atomB : (atom (expression {} 63) "b[c=\"y]".toList).run [] { aliases := [] } =
      ({ aliases := [] }, .ok (.tag (tagWith "b" "c" "\"y"), [])) :=
    run_atom_tagWith "c=\"y]".toList (by decide) (by cbv) (by cbv) (by cbv) (by decide)
  have readB : (read {} [] "b[c=\"y]").2 = .ok (.tag (tagWith "b" "c" "\"y")) := by
    rw [read_snd (by decide)]
    exact congrArg Prod.snd (run_complete_tag atomB)
  let swallowed : Tag :=
    tagOf (.ofText "p") true [.attributes [("a", .ofText "x]>b[c="), ("y", .empty)]] none
  have atomWhole : (atom (expression {} 63) "p[a=\"x]>b[c=\"y]".toList).run [] { aliases := [] } =
      ({ aliases := [] }, .ok (.tag swallowed, [])) := by
    have listed : attributes "a=\"x]>b[c=\"y]".toList =
        .ok ([("a", .ofText "x]>b[c="), ("y", .empty)], []) := by cbv
    have named : tagName "p[a=\"x]>b[c=\"y]".toList =
        (['p'], true, '[' :: "a=\"x]>b[c=\"y]".toList) := by cbv
    have template : Template.ofSelector ['p'] = .ofText "p" := by cbv
    have body := tagBody_attributes (.ofText "p") true listed
    exact run_atom_tag (by decide) named (by rw [template]; exact body) (by decide) fun _ _ => rfl
  have readWhole : (read {} [] "p[a=\"x]>b[c=\"y]").2 = .ok (.tag swallowed) := by
    rw [read_snd (by decide)]
    exact congrArg Prod.snd (run_complete_tag atomWhole)
  refine ⟨by simp [AllParsed], by decide, by decide, congrArg Prod.snd atomP, readB, ?_⟩
  rintro (⟨quantity, limit, exceeded⟩ | same)
  · cases readWhole.symm.trans exceeded
  · have grafts : grafted (.tag (tagWith "p" "a" "\"x")) (.tag (tagWith "b" "c" "\"y")) =
        .ok (.nested (tagWith "p" "a" "\"x") (.tag (tagWith "b" "c" "\"y"))) := rfl
    cases (readWhole.symm.trans same).trans grafts

end Meaning

end Shorthand.Abbreviation
