import Shorthand.Abbreviation.Grammar
import Shorthand.Proofs.Inquiry.Run
import Shorthand.Proofs.Scanning.Span

/-! What each reader of the grammar does when it runs and succeeds. Later modules argue
from these lemmas and do not open the readers. -/
namespace Shorthand.Abbreviation

variable {limits : Limits} {expression : Reader} {opened : List String}
  {memory after : Memory} {node : Node} {s rest : List Char}

theorem run_complete :
    (complete expression s).run opened memory = (after, .ok node) ↔
      (expression s).run opened memory = (after, .ok (node, [])) := by
  unfold complete
  rw [Inquiry.run_bind_eq_ok]
  constructor
  · rintro ⟨middle, ⟨node', rest⟩, read, close⟩
    split at close
    · next heq =>
      obtain ⟨rfl, rfl⟩ := Prod.mk.inj heq
      obtain ⟨rfl, rfl⟩ := by simpa using close
      exact read
    · simp at close
  · exact fun read => ⟨after, (node, []), read, rfl⟩

theorem run_group :
    (group expression s).run opened memory = (after, .ok (node, rest)) ↔
      (expression s).run opened memory = (after, .ok (node, ')' :: rest)) := by
  unfold group
  rw [Inquiry.run_bind_eq_ok]
  constructor
  · rintro ⟨middle, ⟨node', rest'⟩, read, close⟩
    split at close
    · next heq =>
      obtain ⟨rfl, rfl⟩ := Prod.mk.inj heq
      obtain ⟨rfl, rfl, rfl⟩ := by simpa using close
      exact (Inquiry.run_mapFailure_eq_ok fun _ => commit_of_isCommitted).mp read
    · simp at close
  · intro read
    refine ⟨after, (node, ')' :: rest), ?_, rfl⟩
    exact (Inquiry.run_mapFailure_eq_ok fun _ => commit_of_isCommitted).mpr read

theorem run_namedTag :
    (namedTag expression s).run opened memory = (after, .ok (node, rest)) ↔
      ∃ tag, tagBody (.ofSelector (tagName s).1) (tagName s).2.1 (tagName s).2.2 = .ok (tag, rest) ∧
        (namedNode expression (tagName s).1 tag).run opened memory = (after, .ok node) := by
  unfold namedTag
  rw [Inquiry.run_done_bind_eq_ok]
  simp only [Inquiry.run_bind_eq_ok, Prod.exists]
  constructor
  · rintro ⟨tag, rest', body, middle, node', named, result⟩
    obtain ⟨rfl, rfl, rfl⟩ := by simpa using result
    exact ⟨tag, body, named⟩
  · rintro ⟨tag, body, named⟩
    exact ⟨tag, rest, body, after, node, named, rfl⟩

theorem run_impliedTag :
    (impliedTag expression s).run opened memory = (after, .ok (node, rest)) ↔
      ∃ tag, tagBody (.ofText "div") true s = .ok (tag, rest) ∧
        (expandTag expression tag).run opened memory = (after, .ok node) := by
  unfold impliedTag
  rw [Inquiry.run_done_bind_eq_ok]
  simp only [Inquiry.run_bind_eq_ok, Prod.exists]
  constructor
  · rintro ⟨tag, rest', body, middle, node', expanded, result⟩
    obtain ⟨rfl, rfl, rfl⟩ := by simpa using result
    exact ⟨tag, body, expanded⟩
  · rintro ⟨tag, body, expanded⟩
    exact ⟨tag, rest, body, after, node, expanded, rfl⟩

theorem run_textNode :
    (textNode s).run opened memory = (after, .ok (node, rest)) ↔
      ∃ content, bracedText s = .ok (content, rest) ∧ after = memory ∧ node = .text content := by
  unfold textNode
  simp only [Inquiry.run_done_bind_eq_ok, Prod.exists]
  constructor
  · rintro ⟨content, rest', read, result⟩
    obtain ⟨rfl, rfl, rfl⟩ := by simpa using result
    exact ⟨content, read, rfl, rfl⟩
  · rintro ⟨content, read, rfl, rfl⟩
    exact ⟨content, rest, read, rfl⟩

/-- Whether an atom begins here. -/
def startsAtom : List Char → Bool
  | [] => false
  | c :: _ => c == '(' || c == '{' || isNameStart c || c == '#' || c == '.'

theorem atom_named {c : Char} (h : isNameStart c) (t : List Char) :
    atom expression (c :: t) = namedTag expression (c :: t) := by
  unfold atom
  split
  · next heq => obtain ⟨rfl, -⟩ := List.cons.inj heq; contradiction
  · next heq => obtain ⟨rfl, -⟩ := List.cons.inj heq; contradiction
  · next heq => obtain ⟨rfl, rfl⟩ := List.cons.inj heq; exact if_pos h
  · contradiction

theorem atom_implied {c : Char} (h : c = '#' ∨ c = '.') (t : List Char) :
    atom expression (c :: t) = impliedTag expression (c :: t) := by
  rcases h with rfl | rfl <;> rfl

theorem atom_eq_fail (h : startsAtom s = false) :
    atom expression s = .fail (.unmet .operand false) := by
  unfold atom
  split
  · contradiction
  · contradiction
  · simp only [startsAtom, Bool.or_eq_false_iff, beq_eq_false_iff_ne] at h
    simp [h]
  · rfl

theorem operand_eq_fail (h : startsAtom s = false) :
    operand limits expression s = .fail (.unmet .operand false) := by
  unfold operand
  rw [atom_eq_fail h]
  rfl

/-- An operand is an atom with a count, and with a child where a `>` follows. -/
theorem run_operand :
    (operand limits expression s).run opened memory = (after, .ok (node, rest)) ↔
      ∃ middle subject rest₁ count rest₂,
        (atom expression s).run opened memory = (middle, .ok (subject, rest₁)) ∧
        repeatCount rest₁ = .ok (count, rest₂) ∧
        ((∃ below child, rest₂ = '>' :: below ∧
            (expression below).run opened middle = (after, .ok (child, rest)) ∧
            graftAndMaterialize limits subject child count = .ok node) ∨
          (rest₂.head? ≠ some '>' ∧ after = middle ∧ rest = rest₂ ∧
            materialize limits subject count = .ok node)) := by
  unfold operand
  rw [Inquiry.run_bind_eq_ok]
  constructor
  · rintro ⟨middle, ⟨subject, rest₁⟩, read, ran⟩
    obtain ⟨⟨count, rest₂⟩, counted, ran⟩ := Inquiry.run_done_bind_eq_ok.mp ran
    refine ⟨middle, subject, rest₁, count, rest₂, read, counted, ?_⟩
    split at ran
    · next below heq =>
      obtain ⟨rfl, rfl⟩ := Prod.mk.inj heq
      obtain ⟨last, ⟨child, rest₃⟩, nested, ran⟩ := Inquiry.run_bind_eq_ok.mp ran
      obtain ⟨whole, grafted, result⟩ := Inquiry.run_done_bind_eq_ok.mp ran
      obtain ⟨rfl, rfl, rfl⟩ := by simpa using result
      refine .inl ⟨below, child, rfl, ?_, grafted⟩
      exact (Inquiry.run_mapFailure_eq_ok fun _ => afterChild_of_isCommitted).mp nested
    · next other heq =>
      obtain ⟨rfl, rfl⟩ := Prod.mk.inj heq
      obtain ⟨whole, copied, result⟩ := Inquiry.run_done_bind_eq_ok.mp ran
      obtain ⟨rfl, rfl, rfl⟩ := by simpa using result
      refine .inr ⟨head?_ne_of_ne_cons fun t ht => ?_, rfl, rfl, copied⟩
      exact other t (by rw [ht])
  · rintro ⟨middle, subject, rest₁, count, rest₂, read, counted, last⟩
    refine ⟨middle, (subject, rest₁), read, Inquiry.run_done_bind_eq_ok.mpr ⟨_, counted, ?_⟩⟩
    obtain ⟨below, child, rfl, nested, grafted⟩ | ⟨head, rfl, rfl, copied⟩ := last
    · refine Inquiry.run_bind_eq_ok.mpr ⟨after, (child, rest), ?_, ?_⟩
      · exact (Inquiry.run_mapFailure_eq_ok fun _ => afterChild_of_isCommitted).mpr nested
      · exact Inquiry.run_done_bind_eq_ok.mpr ⟨node, grafted, rfl⟩
    · split
      · next below heq =>
        obtain ⟨rfl, rfl⟩ := Prod.mk.inj heq
        exact absurd rfl head
      · next heq =>
        obtain ⟨rfl, rfl⟩ := Prod.mk.inj heq
        exact Inquiry.run_done_bind_eq_ok.mpr ⟨node, copied, rfl⟩

theorem run_chain :
    (chain limits expression s).run opened memory = (after, .ok (node, rest)) ↔
      ∃ middle first rest₁ operands,
        (operand limits expression s).run opened memory = (middle, .ok (first, rest₁)) ∧
        (furtherOperands limits expression rest₁.length { first } rest₁).run opened middle =
          (after, .ok (operands, rest)) ∧
        admitChain limits operands.toNode = .ok node := by
  unfold chain
  rw [Inquiry.run_bind_eq_ok]
  constructor
  · rintro ⟨middle, ⟨first, rest₁⟩, read, ran⟩
    obtain ⟨last, ⟨operands, rest₂⟩, further, ran⟩ := Inquiry.run_bind_eq_ok.mp ran
    obtain ⟨whole, admitted, result⟩ := Inquiry.run_done_bind_eq_ok.mp ran
    obtain ⟨rfl, rfl, rfl⟩ := by simpa using result
    exact ⟨middle, first, rest₁, operands, read, further, admitted⟩
  · rintro ⟨middle, first, rest₁, operands, read, further, admitted⟩
    refine ⟨middle, (first, rest₁), read, Inquiry.run_bind_eq_ok.mpr ?_⟩
    refine ⟨after, (operands, rest), further, Inquiry.run_done_bind_eq_ok.mpr ?_⟩
    exact ⟨node, admitted, rfl⟩

theorem furtherOperands_plus (bound : Nat) (operands : Operands) (s : List Char) :
    furtherOperands limits expression (bound + 1) operands ('+' :: s) =
      (operand limits expression s).bindOr
        (do
          let node ← expandShorthand expression operands.last
          furtherOperands limits expression bound (operands.replaceLast node) s)
        fun (node, rest) => furtherOperands limits expression bound (operands.push node) rest :=
  rfl

theorem furtherOperands_end {bound : Nat} {operands : Operands} {s : List Char}
    (h : bound = 0 ∨ s.head? ≠ some '+') :
    furtherOperands limits expression bound operands s = return (operands, s) := by
  unfold furtherOperands
  split
  · simp at h
  · rfl

end Shorthand.Abbreviation
