import Shorthand.Proofs.Aliases.Steady
import Shorthand.Proofs.Grammar.Commitment
import Shorthand.Tables.Builtin

/-! Texts that fix what they ask for. Only `+` with nothing after it asks for a name that
depends on what another name stands for. A text without it asks for the same names
whatever they stand for, so a table of such texts notices every cycle. -/
namespace Shorthand.Abbreviation

variable {α β γ : Type}

/-- Whatever the replies, the inquiry asks for the names in turn, unless it fails before,
and comes to a value with the property. -/
def Inquiry.AsksFor (property : α → Prop) : Inquiry α → List String → Prop
  | .done (.ok value), names => names = [] ∧ property value
  | .done (.error _), _ => True
  | .ask name _ reply, names =>
    ∃ later, names = name :: later ∧ ∀ tree, (reply tree).AsksFor property later

namespace Inquiry.AsksFor

variable {property : α → Prop} {result : β → Prop} {i : Inquiry α} {names later : List String}

theorem bind (first : i.AsksFor property names) {next : α → Inquiry β}
    (step : ∀ value, property value → (next value).AsksFor result later) :
    (i >>= next).AsksFor result (names ++ later) := by
  change (i.bind next).AsksFor result (names ++ later)
  induction i generalizing names with
  | done outcome =>
    cases outcome with
    | error failure => trivial
    | ok value =>
      obtain ⟨rfl, holds⟩ := first
      exact step value holds
  | ask name text reply _ ih =>
    obtain ⟨rest, rfl, replies⟩ := first
    exact ⟨rest ++ later, rfl, fun tree => ih tree (replies tree) step⟩

theorem mapFailure (first : i.AsksFor property names) (change : Failure → Failure) :
    (i.mapFailure change).AsksFor property names := by
  induction i generalizing names with
  | done outcome =>
    cases outcome with
    | error failure => trivial
    | ok value => exact first
  | ask name text reply _ ih =>
    obtain ⟨rest, rfl, replies⟩ := first
    exact ⟨rest, rfl, fun tree => ih tree (replies tree)⟩

theorem bindOr (final : i.Committed) (first : i.AsksFor property names) {otherwise : Inquiry β}
    {next : α → Inquiry β} (step : ∀ value, property value → (next value).AsksFor result later) :
    (i.bindOr otherwise next).AsksFor result (names ++ later) := by
  induction i generalizing names with
  | done outcome =>
    cases outcome with
    | error failure =>
      have final : failure.isCommitted := final
      rw [Inquiry.bindOr, if_pos final]
      trivial
    | ok value =>
      obtain ⟨rfl, holds⟩ := first
      exact step value holds
  | ask name text reply _ ih =>
    obtain ⟨rest, rfl, replies⟩ := first
    exact ⟨rest ++ later, rfl, fun tree => ih tree (final tree) (replies tree) step⟩

end Inquiry.AsksFor

/-- The inquiries leave the same of the input `s` and ask for the same names. -/
def Alike (s : List Char) (inquiries : γ → Inquiry (β × List Char)) : Prop :=
  ∃ names rest, Takes s rest ∧
    ∀ start, (inquiries start).AsksFor (fun result => result.2 = rest) names

namespace Alike

variable {s : List Char} {first : γ → Inquiry (α × List Char)}

theorem fail (failure : Failure) : Alike s fun _ : γ => (.fail failure : Inquiry (β × List Char)) :=
  ⟨[], s, .done s, fun _ => trivial⟩

theorem bind (alike : Alike s first) {next : γ → α × List Char → Inquiry (β × List Char)}
    (step : ∀ rest, Takes s rest → Alike rest fun (start, value) => next start (value, rest)) :
    Alike s fun start => first start >>= next start := by
  obtain ⟨names, rest, taken, asks⟩ := alike
  obtain ⟨later, rest', taken', asks'⟩ := step rest taken
  refine ⟨names ++ later, rest', taken.trans taken', fun start => (asks start).bind ?_⟩
  rintro ⟨value, rest⟩ rfl
  exact asks' (start, value)

theorem const {i : Inquiry (β × List Char)} (alike : Alike s fun _ : Unit => i) :
    Alike s fun _ : γ => i := by
  obtain ⟨names, rest, taken, asks⟩ := alike
  exact ⟨names, rest, taken, fun _ => asks ()⟩

theorem later {rest : List Char} (taken : Takes s rest) (alike : Alike rest first) :
    Alike s first := by
  obtain ⟨names, rest', taken', asks⟩ := alike
  exact ⟨names, rest', taken.trans taken', asks⟩

theorem mapFailure (alike : Alike s first) (change : Failure → Failure) :
    Alike s fun start => (first start).mapFailure change := by
  obtain ⟨names, rest, taken, asks⟩ := alike
  exact ⟨names, rest, taken, fun start => (asks start).mapFailure change⟩

theorem bindOr (alike : Alike s first) (final : ∀ start, (first start).Committed)
    {otherwise : γ → Inquiry (β × List Char)} {next : γ → α × List Char → Inquiry (β × List Char)}
    (step : ∀ rest, Takes s rest → Alike rest fun (start, value) => next start (value, rest)) :
    Alike s fun start => (first start).bindOr (otherwise start) (next start) := by
  obtain ⟨names, rest, taken, asks⟩ := alike
  obtain ⟨later, rest', taken', asks'⟩ := step rest taken
  refine ⟨names ++ later, rest', taken.trans taken', fun start => ?_⟩
  refine (asks start).bindOr (final start) ?_
  rintro ⟨value, rest⟩ rfl
  exact asks' (start, value)

/-- What is read without asking is the same for all. -/
theorem done_bind {outcome : Except Failure α} {next : γ → α → Inquiry (β × List Char)}
    (step : ∀ value, outcome = .ok value → Alike s fun start => next start value) :
    Alike s fun start => .done outcome >>= next start := by
  cases outcome with
  | error failure => exact fail failure
  | ok value => exact step value rfl

/-- A node is made of what has been read. -/
theorem of_node {rest : List Char} {names : List String} {node : γ → Inquiry β}
    (taken : Takes s rest) (asks : ∀ start, (node start).AsksFor (fun _ => True) names) :
    Alike s fun start => (do return (← node start, rest) : Inquiry (β × List Char)) :=
  ⟨names ++ [], rest, taken, fun start => (asks start).bind fun _ _ => ⟨rfl, rfl⟩⟩

theorem of_done {rest : List Char} {outcome : γ → Except Failure β} (taken : Takes s rest) :
    Alike s fun start => (do return (← .done (outcome start), rest) : Inquiry (β × List Char)) := by
  have fixed : ∀ start, (Inquiry.done (outcome start)).AsksFor (fun _ => True) [] := by
    intro start
    cases outcome start with
    | error failure => trivial
    | ok value => exact ⟨rfl, trivial⟩
  exact of_node taken fixed

end Alike

/-- Every `+` outside texts and attribute lists has an operand after it. -/
def WithoutShorthand (s : List Char) : Prop :=
  ∀ rest, Takes s ('+' :: rest) → startsAtom rest

theorem WithoutShorthand.later {s rest : List Char} (h : WithoutShorthand s)
    (taken : Takes s rest) : WithoutShorthand rest :=
  fun _ taken' => h _ (taken.trans taken')

/-- The reader asks for the same names whatever they stand for. -/
def AsksAlike (reader : Reader) : Prop :=
  ∀ s, WithoutShorthand s → Alike s fun _ : Unit => reader s

variable {limits : Limits} {expression : Reader}

theorem expandTag_asksFor (tag : Tag) :
    ∃ names, (expandTag expression tag).AsksFor (fun _ => True) names := by
  unfold expandTag
  split
  · exact ⟨[], rfl, trivial⟩
  · next name _ =>
    refine ⟨[name], [], rfl, fun tree => ?_⟩
    cases tree <;> exact ⟨rfl, trivial⟩

theorem namedNode_asksFor (name : List Char) (tag : Tag) :
    ∃ names, (namedNode expression name tag).AsksFor (fun _ => True) names := by
  unfold namedNode
  split
  · exact ⟨[], rfl, trivial⟩
  · exact expandTag_asksFor tag

theorem namedTag_asksAlike : AsksAlike (namedTag expression) := by
  intro s _
  refine .done_bind ?_
  rintro ⟨tag, rest⟩ body
  obtain ⟨names, asks⟩ := @namedNode_asksFor expression (tagName s).1 tag
  exact .of_node ((tagName_takes s).trans (tagBody_takes body)) fun _ => asks

theorem impliedTag_asksAlike : AsksAlike (impliedTag expression) := by
  intro s _
  refine .done_bind ?_
  rintro ⟨tag, rest⟩ body
  obtain ⟨names, asks⟩ := @expandTag_asksFor expression tag
  exact .of_node (tagBody_takes body) fun _ => asks

theorem group_asksAlike (inner : AsksAlike expression) : AsksAlike (group expression) := by
  intro s h
  apply ((inner s h).mapFailure _).bind
  intro rest _
  by_cases close : ∃ rest', rest = ')' :: rest'
  · obtain ⟨rest, rfl⟩ := close
    exact ⟨[], rest, .next (by decide) (.done _), fun _ => ⟨rfl, rfl⟩⟩
  · refine ⟨[], rest, .done rest, fun start => ?_⟩
    dsimp only
    split
    · next heq => exact absurd ⟨_, (Prod.mk.inj heq).2⟩ close
    · trivial

theorem atom_asksAlike (inner : AsksAlike expression) : AsksAlike (atom expression) := by
  intro s h
  unfold atom
  split
  · next rest =>
    have taken : Takes ('(' :: rest) rest := .next (by decide) (.done _)
    exact (group_asksAlike inner rest (h.later taken)).later taken
  · next rest =>
    refine .done_bind ?_
    rintro ⟨content, rest⟩ text
    exact ⟨[], rest, .text (bracedText_eq_ok.mp text) (.done _), fun _ => ⟨rfl, rfl⟩⟩
  · split
    · exact namedTag_asksAlike _ h
    · split
      · exact impliedTag_asksAlike _ h
      · exact .fail _
  · exact .fail _

theorem operand_asksAlike (inner : AsksAlike expression) :
    AsksAlike (operand limits expression) := by
  intro s h
  apply (atom_asksAlike inner s h).bind
  intro rest taken
  refine .done_bind ?_
  rintro ⟨count, rest₂⟩ counted
  have counted : Takes rest rest₂ := repeatCount_takes counted
  by_cases child : ∃ below, rest₂ = '>' :: below
  · obtain ⟨below, rfl⟩ := child
    have taken' : Takes rest below :=
      counted.trans (.next (by decide) (.done _))
    refine .later taken' (.bind (.const ?_) fun rest _ => .of_done (.done rest))
    exact (inner below (h.later (taken.trans taken'))).mapFailure _
  · have leaf : Alike rest fun start : Unit × Node =>
        (do return (← .done (materialize limits start.2 count), rest₂) :
          Inquiry (Node × List Char)) := .of_done counted
    obtain ⟨names, rest₃, taken', asks⟩ := leaf
    refine ⟨names, rest₃, taken', fun start => ?_⟩
    dsimp only
    split
    · next heq => exact absurd ⟨_, (Prod.mk.inj heq).2⟩ child
    · next heq =>
      obtain ⟨rfl, rfl⟩ := Prod.mk.inj heq
      exact asks start

theorem furtherOperands_alike (inner : AsksAlike expression) (bound : Nat) {s : List Char}
    (h : WithoutShorthand s) :
    Alike s fun operands => furtherOperands limits expression bound operands s := by
  induction bound generalizing s with
  | zero => exact ⟨[], s, .done s, fun _ => ⟨rfl, rfl⟩⟩
  | succ bound ih =>
    by_cases more : s.head? = some '+'
    · obtain ⟨s, rfl⟩ := List.head?_eq_some_iff.mp more
      have plus : Takes ('+' :: s) s := .next (by decide) (.done _)
      simp only [furtherOperands_plus]
      have starts : startsAtom s := h s (.done _)
      refine .later plus (.bindOr (.const (operand_asksAlike inner s (h.later plus))) ?_ ?_)
      · exact fun _ => operand_committed starts
      · intro rest taken
        obtain ⟨names, rest', taken', asks⟩ := ih (h.later (plus.trans taken))
        exact ⟨names, rest', taken', fun (operands, node) => asks _⟩
    · simp only [furtherOperands_end (.inr more)]
      exact ⟨[], s, .done s, fun _ => ⟨rfl, rfl⟩⟩

theorem chain_asksAlike (inner : AsksAlike expression) : AsksAlike (chain limits expression) := by
  intro s h
  apply (operand_asksAlike inner s h).bind
  intro rest taken
  refine .bind ?_ fun rest _ => .of_done (.done rest)
  obtain ⟨names, rest', taken', asks⟩ := @furtherOperands_alike limits _ inner rest.length _ (h.later taken)
  exact ⟨names, rest', taken', fun (_, first) => asks _⟩

theorem expression_asksAlike (limits : Limits) (room : Nat) :
    AsksAlike (Abbreviation.expression limits room) := by
  induction room with
  | zero => exact fun s _ => .fail _
  | succ room ih => exact chain_asksAlike ih

theorem whole_asksFor (limits : Limits) (room : Nat) {s : List Char} (h : WithoutShorthand s) :
    ∃ names, (whole limits room s).AsksFor (fun _ => True) names := by
  obtain ⟨names, rest, -, asks⟩ := expression_asksAlike limits room s h
  refine ⟨names ++ [], (asks ()).bind ?_⟩
  rintro ⟨node, rest⟩ -
  split
  · exact ⟨rfl, trivial⟩
  · trivial

variable {aliases : AliasTable} {opened : List String} {i : Inquiry α} {names : List String}

theorem Reads.asked_eq {property : α → Prop} {asked below : List String} {value : α}
    (reads : Reads limits aliases opened i asked below value) (asks : i.AsksFor property names) :
    asked = names := by
  induction i generalizing asked below names with
  | done outcome =>
    cases reads with
    | done value => exact asks.1.symm
  | ask name text reply _ ih =>
    obtain ⟨later, rfl, replies⟩ := asks
    cases reads with
    | ask answers next => rw [ih _ next (replies _)]

theorem Asks.mem_of_asksFor {property : α → Prop} {name : String}
    (h : Asks limits aliases opened i name) (asks : i.AsksFor property names) : name ∈ names := by
  induction h generalizing names with
  | here =>
    obtain ⟨later, rfl, -⟩ := asks
    exact List.mem_cons_self
  | later answers _ ih =>
    obtain ⟨later, rfl, replies⟩ := asks
    exact List.mem_cons_of_mem _ (ih (replies _))

/-- Where no text uses the shorthand, every cycle is noticed. -/
theorem noticesCycles_of_withoutShorthand (limits : Limits)
    (h : ∀ name text, aliases.get? name = some (.source text) → WithoutShorthand text.toList) :
    NoticesCycles limits aliases := by
  apply AsksSteadily.noticesCycles
  intro name text source opened room other asks opened' room' asked below tree reads
  obtain ⟨names, fixed⟩ := whole_asksFor limits (max room room') (h name text source)
  have reads := reads.cut (whole_cut limits (Nat.le_max_right room room') _)
  have asks := asks.cut (whole_cut limits (Nat.le_max_left room room') _)
  obtain rfl := reads.asked_eq fixed
  exact List.mem_append_left _ (asks.mem_of_asksFor fixed)

/-- An operand follows every `+`, wherever it stands. -/
def joinsOperands : List Char → Bool
  | [] => true
  | c :: rest => (c != '+' || startsAtom rest) && joinsOperands rest

theorem withoutShorthand_of_joinsOperands {s : List Char} (h : joinsOperands s) :
    WithoutShorthand s := by
  intro rest taken
  obtain ⟨front, rfl⟩ := taken.suffix
  clear taken
  induction front with
  | nil =>
    simp only [List.nil_append, joinsOperands, Bool.and_eq_true] at h
    simpa using h.1
  | cons c front ih =>
    simp only [List.cons_append, joinsOperands, Bool.and_eq_true] at h
    exact ih h.2

theorem noticesCycles_of_joinsOperands (limits : Limits) {texts : List (String × String)}
    (h : ∀ entry ∈ texts, joinsOperands entry.2.toList) :
    NoticesCycles limits (texts.map fun (name, text) => (name, .source text)) := by
  apply noticesCycles_of_withoutShorthand limits
  intro name text source
  obtain ⟨entry, among, same⟩ := List.mem_map.mp (Table.mem_of_get? source)
  obtain ⟨rfl, rfl⟩ : entry.1 = name ∧ entry.2 = text := by simpa using same
  exact withoutShorthand_of_joinsOperands (h entry among)

/-- The aliases that come with the library notice every cycle. -/
theorem noticesCycles_builtin (limits : Limits) : NoticesCycles limits Tables.builtin.aliases :=
  noticesCycles_of_joinsOperands limits (by decide +kernel)

end Shorthand.Abbreviation
