import Shorthand.Proofs.Grammar.Commitment
import Shorthand.Proofs.Scanning.Locality

/-! Reading with more text behind. An expression that is read off the front of a text is
read off the front of any longer text, provided that what follows it there ends it and
holds no partner for a quote that it leaves open. This is what lets the reading of a
composed abbreviation be told from the readings of its parts. -/
namespace Shorthand.Abbreviation

variable {limits : Limits} {expression : Reader}

/-- What the reader reads it also reads with a text behind that `ends` it. -/
def ReadsOn (ends : List Char → Prop) (reader : Reader) : Prop :=
  ∀ {opened memory after node s rest} (x : List Char),
    (reader s).run opened memory = (after, .ok (node, rest)) → (rest = [] → ends x) →
      QuotesApart s x → (reader (s ++ x)).run opened memory = (after, .ok (node, rest ++ x))

/-- The text begins with a closing parenthesis or a `|`, if with anything. -/
def EndsExpression (x : List Char) : Prop := ∀ c ∈ x.head?, c ∈ [')', '|']

theorem EndsExpression.endsAtom {x : List Char} (ends : EndsExpression x) : EndsAtom x :=
  fun c hc => List.mem_append_left ['+', '>', '*'] (ends c hc)

theorem EndsExpression.head?_ne {x : List Char} (ends : EndsExpression x) {c : Char}
    (h : c ∉ [')', '|']) : x.head? ≠ some c :=
  fun hc => h (ends c hc)

theorem group_readsOn (inner : ReadsOn EndsExpression expression) {ends : List Char → Prop} :
    ReadsOn ends (group expression) := by
  intro opened memory after node s rest x ran _ apart
  rw [run_group] at ran ⊢
  exact inner x ran (fun h => nomatch h) apart

theorem namedTag_readsOn : ReadsOn EndsAtom (namedTag expression) := by
  intro opened memory after node s rest x ran ends apart
  rw [run_namedTag] at ran ⊢
  obtain ⟨tag, body, named⟩ := ran
  have inside (h : (tagName s).2.2 = []) : EndsAtom x := by
    rw [h] at body
    exact ends (tagBody_takes body).eq_nil
  rw [tagName_append inside]
  exact ⟨tag, tagBody_append body ends (apart.of_takes (tagName_takes s)), named⟩

theorem impliedTag_readsOn : ReadsOn EndsAtom (impliedTag expression) := by
  intro opened memory after node s rest x ran ends apart
  rw [run_impliedTag] at ran ⊢
  obtain ⟨tag, body, expanded⟩ := ran
  exact ⟨tag, tagBody_append body ends apart, expanded⟩

theorem textNode_readsOn {opened : List String} {memory after : Memory} {node : Node}
    {s rest : List Char} (x : List Char)
    (ran : (textNode s).run opened memory = (after, .ok (node, rest))) :
    (textNode (s ++ x)).run opened memory = (after, .ok (node, rest ++ x)) := by
  rw [run_textNode] at ran ⊢
  obtain ⟨content, read, same, text⟩ := ran
  have braced := Template.braced?_append x (bracedText_eq_ok.mp read)
  exact ⟨content, bracedText_eq_ok.mpr braced, same, text⟩

theorem atom_readsOn (inner : ReadsOn EndsExpression expression) :
    ReadsOn EndsAtom (atom expression) := by
  intro opened memory after node s rest x ran ends apart
  cases s with
  | nil => simp [atom] at ran
  | cons c s =>
    by_cases group : c = '('
    · subst group
      have taken : Takes ('(' :: s) s := .next (by decide) (.done s)
      exact group_readsOn inner x ran ends (apart.of_takes taken)
    · by_cases text : c = '{'
      · subst text
        exact textNode_readsOn x ran
      · by_cases named : isNameStart c
        · rw [atom_named named] at ran
          rw [List.cons_append, atom_named named]
          exact namedTag_readsOn x ran ends apart
        · by_cases implied : c = '#' ∨ c = '.'
          · rw [atom_implied implied] at ran
            rw [List.cons_append, atom_implied implied]
            exact impliedTag_readsOn x ran ends apart
          · rw [atom_eq_fail] at ran
            · simp at ran
            · simp only [not_or] at implied
              simp [startsAtom, group, text, named, implied]

theorem operand_readsOn (tokens : TakesTokens expression)
    (inner : ReadsOn EndsExpression expression) :
    ReadsOn EndsExpression (operand limits expression) := by
  intro opened memory after node s rest x ran ends apart
  rw [run_operand] at ran ⊢
  obtain ⟨middle, subject, rest₁, count, rest₂, read, counted, last⟩ := ran
  have taken₁ : Takes s rest₁ := (atom_takes tokens s).run read
  have taken₂ : Takes rest₁ rest₂ := repeatCount_takes counted
  have taken₃ : Takes rest₂ rest := by
    obtain ⟨below, child, rfl, nested, -⟩ | ⟨-, -, rfl, -⟩ := last
    · exact .next (by decide) ((tokens below).run nested)
    · exact .done _
  have ends₂ (h : rest₂ = []) : EndsExpression x := ends (h ▸ taken₃).eq_nil
  have ends₁ (h : rest₁ = []) : EndsExpression x := ends₂ (h ▸ taken₂).eq_nil
  refine ⟨middle, subject, rest₁ ++ x, count, rest₂ ++ x, ?_, ?_, ?_⟩
  · exact atom_readsOn inner x read (fun h => (ends₁ h).endsAtom) apart
  · exact repeatCount_append counted (fun h => (ends₂ h).endsAtom)
      fun h => (ends₂ h).head?_ne (by decide)
  · obtain ⟨below, child, rfl, nested, grafted⟩ | ⟨head, same, rfl, copied⟩ := last
    · have taken : Takes s below := (taken₁.trans taken₂).trans
        (.next (by decide) (.done _))
      exact .inl ⟨below ++ x, child, rfl, inner x nested ends (apart.of_takes taken), grafted⟩
    · refine .inr ⟨head?_append_ne head fun h => (ends₂ h).head?_ne (by decide), same, rfl, copied⟩

theorem startsAtom_append {s x : List Char} (h : startsAtom s = false)
    (ends : s = [] → EndsExpression x) : startsAtom (s ++ x) = false := by
  cases s with
  | cons c s => exact h
  | nil =>
    cases x with
    | nil => rfl
    | cons c x =>
      have close : ∀ c ∈ [')', '|'], startsAtom [c] = false :=
        forall_mem_of_all (by decide)
      exact close c (ends rfl c rfl)

theorem furtherOperands_readsOn (tokens : TakesTokens expression)
    (inner : ReadsOn EndsExpression expression) {opened : List String} {memory after : Memory}
    {bound bound' : Nat} {operands operands' : Operands} {s rest : List Char} (x : List Char)
    (ran : (furtherOperands limits expression bound operands s).run opened memory =
      (after, .ok (operands', rest)))
    (enough : s.length ≤ bound) (le : bound ≤ bound') (ends : rest = [] → EndsExpression x)
    (apart : QuotesApart s x) :
    (furtherOperands limits expression bound' operands (s ++ x)).run opened memory =
      (after, .ok (operands', rest ++ x)) := by
  induction bound generalizing bound' operands s memory with
  | zero =>
    obtain rfl := List.eq_nil_of_length_eq_zero (Nat.le_zero.mp enough)
    obtain ⟨rfl, rfl, rfl⟩ := by simpa [furtherOperands] using ran
    rw [List.nil_append, furtherOperands_end (.inr ((ends rfl).head?_ne (by decide)))]
    rfl
  | succ bound ih =>
    obtain ⟨bound', rfl⟩ := Nat.exists_eq_add_one_of_ne_zero (Nat.ne_zero_of_lt le)
    have le := Nat.le_of_succ_le_succ le
    by_cases more : s.head? = some '+'
    · obtain ⟨s, rfl⟩ := List.head?_eq_some_iff.mp more
      have enough := Nat.le_of_succ_le_succ enough
      have plus : Takes ('+' :: s) s := .next (by decide) (.done _)
      rw [List.cons_append, furtherOperands_plus, Inquiry.run_bindOr_eq_ok]
      rw [furtherOperands_plus, Inquiry.run_bindOr_eq_ok] at ran
      obtain ⟨middle, ⟨node, rest₁⟩, read, further⟩ | ⟨middle, failure, failed, soft, further⟩ := ran
      · have taken : Takes s rest₁ := (operand_takes tokens s).run read
        have ends₁ (h : rest₁ = []) : EndsExpression x :=
          ends (h ▸ (furtherOperands_takes tokens _ _ rest₁).run further).eq_nil
        refine .inl ⟨middle, (node, rest₁ ++ x), ?_, ?_⟩
        · exact operand_readsOn tokens inner x read ends₁ (apart.of_takes plus)
        · exact ih further (Nat.le_trans taken.length_le enough) le
            (apart.of_takes (plus.trans taken))
      · obtain ⟨absent, rfl⟩ := startsAtom_of_soft failed soft
        have ends₁ (h : s = []) : EndsExpression x := by
          obtain ⟨_, node, -, further⟩ := Inquiry.run_bind_eq_ok.mp further
          exact ends (h ▸ (furtherOperands_takes tokens _ _ s).run further).eq_nil
        rw [operand_eq_fail (startsAtom_append absent ends₁)]
        obtain ⟨last, node, expanded, further⟩ := Inquiry.run_bind_eq_ok.mp further
        refine .inr ⟨_, _, rfl, Bool.false_ne_true, Inquiry.run_bind_eq_ok.mpr ?_⟩
        exact ⟨last, node, expanded, ih further enough le (apart.of_takes plus)⟩
    · rw [furtherOperands_end (.inr more)] at ran
      obtain ⟨rfl, rfl, rfl⟩ := by simpa using ran
      rw [furtherOperands_end (.inr (head?_append_ne more fun h => (ends h).head?_ne (by decide)))]
      rfl

theorem chain_readsOn (tokens : TakesTokens expression)
    (inner : ReadsOn EndsExpression expression) :
    ReadsOn EndsExpression (chain limits expression) := by
  intro opened memory after node s rest x ran ends apart
  rw [run_chain] at ran ⊢
  obtain ⟨middle, first, rest₁, operands, read, further, admitted⟩ := ran
  have taken : Takes s rest₁ := (operand_takes tokens s).run read
  have ends₁ (h : rest₁ = []) : EndsExpression x :=
    ends (h ▸ (furtherOperands_takes tokens _ _ rest₁).run further).eq_nil
  refine ⟨middle, first, rest₁ ++ x, operands, ?_, ?_, admitted⟩
  · exact operand_readsOn tokens inner x read ends₁ apart
  · exact furtherOperands_readsOn tokens inner x further (Nat.le_refl _) (by simp) ends
      (apart.of_takes taken)

/-- What is read as an expression is read so with a text behind that ends it. -/
theorem expression_readsOn (limits : Limits) (room : Nat) :
    ReadsOn EndsExpression (Abbreviation.expression limits room) := by
  induction room with
  | zero =>
    intro opened memory after node s rest x ran
    simp [Abbreviation.expression] at ran
  | succ room ih => exact chain_readsOn (expression_takes limits room) ih

end Shorthand.Abbreviation
