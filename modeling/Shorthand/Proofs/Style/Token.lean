import Shorthand.Proofs.Text.Lines
import Shorthand.Style.Token

/-! Tokens side by side. Pieces are taken in pairs, so a text that is put behind another
could shift the pairs in front; a text that begins a declaration leaves them as they are.
What becomes of a `+` is decided inside its token, for a token holds one at most. -/
namespace Shorthand.Style

/-- There is a first piece, and it does not continue the arguments of a piece before it. -/
def BeginsDeclaration (s : List Char) : Prop := isContinuation s = false ∧ s.head? ≠ some '+'

instance (s : List Char) : Decidable (BeginsDeclaration s) :=
  inferInstanceAs (Decidable (_ ∧ _))

variable {s t piece next token : List Char}

section Appending

/-- The first piece is all of the text, or reaches to the first `+`. -/
theorem exists_first_piece (s : List Char) :
    ∃ piece pieces, s.splitOn '+' = piece :: pieces ∧ piece <+: s ∧
      (s.head? ≠ some '+' → s ≠ [] → piece ≠ []) := by
  by_cases plus : '+' ∈ s
  · obtain ⟨piece, rest, rfl, clean⟩ := List.eq_append_cons_of_mem plus
    refine ⟨piece, rest.splitOn '+', List.splitOn_append_cons_self_of_not_mem clean rest,
      List.prefix_append piece _, ?_⟩
    rintro first - rfl
    exact first rfl
  · exact ⟨s, [], List.splitOn_eq_singleton plus, List.prefix_rfl, fun _ nonempty => nonempty⟩

/-- Whether a piece continues is decided by what it begins with. -/
theorem isContinuation_append (nonempty : piece ≠ []) (continues : isContinuation piece)
    (t : List Char) : isContinuation (piece ++ t) := by
  match piece, nonempty with
  | [c], _ =>
    by_cases sign : c = '-'
    · subst sign
      exact absurd continues (by decide)
    · simpa [isContinuation, sign] using continues
  | c :: d :: piece, _ =>
    by_cases sign : c = '-'
    · subst sign
      exact continues
    · simpa [isContinuation, sign] using continues

theorem BeginsDeclaration.first_piece (begins : BeginsDeclaration s) :
    ∀ piece ∈ (s.splitOn '+').head?, isContinuation piece = false := by
  obtain ⟨fresh, noPlus⟩ := begins
  obtain ⟨piece, pieces, split, ⟨rest, rfl⟩, nonempty⟩ := exists_first_piece s
  have filled : piece ++ rest ≠ [] := fun empty => by
    rw [empty] at fresh
    contradiction
  intro first here
  rw [split] at here
  obtain rfl : piece = first := Option.some.inj here
  refine Bool.eq_false_iff.mpr fun continues => ?_
  rw [isContinuation_append (nonempty noPlus filled) continues rest] at fresh
  contradiction

theorem pairPieces_append {first last : List (List Char)}
    (fresh : ∀ piece ∈ last.head?, isContinuation piece = false) :
    pairPieces (first ++ last) = pairPieces first ++ pairPieces last := by
  fun_induction pairPieces first with
  | case1 => rfl
  | case2 piece =>
    cases last with
    | nil => rfl
    | cons next rest =>
      have alone : isContinuation next = false := fresh next rfl
      simp only [List.cons_append, List.nil_append, pairPieces, alone, Bool.false_eq_true, if_false]
  | case3 piece next rest joined ih =>
    simp only [List.cons_append, pairPieces, joined, if_true, ih]
  | case4 piece next rest alone ih =>
    rw [List.cons_append, List.cons_append, pairPieces, if_neg alone, ← List.cons_append, ih,
      List.cons_append]

theorem rawTokens_plus (s : List Char) (begins : BeginsDeclaration t) :
    rawTokens (s ++ '+' :: t) = rawTokens s ++ rawTokens t := by
  rw [rawTokens, List.splitOn_append_cons_self, pairPieces_append begins.first_piece]
  rfl

theorem tokens_plus (s : List Char) (begins : BeginsDeclaration t) :
    tokens (s ++ '+' :: t) = tokens s ++ tokens t := by
  rw [tokens, rawTokens_plus s begins, List.filter_append]
  rfl

end Appending

section Counting

theorem count_plus_le_one_of_mem_pairPieces {pieces : List (List Char)}
    (clean : ∀ piece ∈ pieces, '+' ∉ piece) (member : token ∈ pairPieces pieces) :
    token.count '+' ≤ 1 := by
  fun_induction pairPieces pieces with
  | case1 => contradiction
  | case2 piece =>
    obtain rfl := List.mem_singleton.mp member
    simp [List.count_eq_zero_of_not_mem (clean _ List.mem_cons_self)]
  | case3 piece next rest continues ih =>
    simp only [List.forall_mem_cons] at clean
    obtain ⟨first, second, later⟩ := clean
    obtain rfl | member := List.mem_cons.mp member
    · simp [List.count_eq_zero_of_not_mem first, List.count_eq_zero_of_not_mem second]
    · exact ih later member
  | case4 piece next rest alone ih =>
    obtain ⟨first, later⟩ := List.forall_mem_cons.mp clean
    obtain rfl | member := List.mem_cons.mp member
    · simp [List.count_eq_zero_of_not_mem first]
    · exact ih later member

theorem count_plus_le_one (member : token ∈ tokens s) : token.count '+' ≤ 1 :=
  count_plus_le_one_of_mem_pairPieces (fun _ => not_mem_of_mem_splitOn)
    (List.mem_filter.mp member).1

/-- The `+` of a token is its only one. -/
theorem plus_not_mem_of_mem_tokens (member : piece ++ '+' :: next ∈ tokens s) :
    '+' ∉ piece ∧ '+' ∉ next := by
  have count := count_plus_le_one member
  rw [List.count_append, List.count_cons_self] at count
  exact ⟨List.count_eq_zero.mp (by omega), List.count_eq_zero.mp (by omega)⟩

end Counting

end Shorthand.Style
