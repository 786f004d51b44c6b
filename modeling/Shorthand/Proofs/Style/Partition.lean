import Mathlib.Data.List.Chain
import Shorthand.Proofs.Scanning.Span
import Shorthand.Proofs.Style.Token

/-! Tokens as a partition. Joined with `+` again, the tokens are the text, so nothing is lost
between them but blank tokens. How a text is cut is determined by three conditions on a token and
its neighbour: a token has one `+` at most, what stands behind it continues, and where a token has
none, what stands at the front of the next does not continue. -/
namespace Shorthand.Style

variable {s piece next token : List Char} {pieces raw : List (List Char)}

/-- Begins as an argument does: with a blank, a `#`, a `$`, a digit, or a minus and a digit. -/
def LooksLikeArgument (s : List Char) : Prop :=
  (∃ c ∈ s.head?, c = ' ' ∨ c = '#' ∨ c = '$' ∨ c.isDigit) ∨
    ∃ c rest, s = '-' :: c :: rest ∧ c.isDigit

/-- Empty, or begins as an argument does. -/
def Continues (s : List Char) : Prop := s = [] ∨ LooksLikeArgument s

theorem isContinuation_iff : isContinuation s ↔ Continues s := by
  unfold Continues LooksLikeArgument
  cases s with
  | nil => simp [isContinuation]
  | cons c rest =>
    by_cases sign : c = '-'
    · subst sign
      cases rest <;> simp [isContinuation]
    · simp [isContinuation, sign, or_assoc, or_comm, or_left_comm]

/-- The tokens that a text is cut into at some of its `+`. There is one at least, as the empty text
is one empty token. -/
structure IsPartition (s : List Char) (raw : List (List Char)) : Prop where
  nonempty : raw ≠ []
  joined : ['+'].intercalate raw = s
  single : ∀ token ∈ raw, token.count '+' ≤ 1
  continued : ∀ token ∈ raw, ∀ piece next, token = piece ++ '+' :: next → Continues next
  separate : raw.IsChain fun token next =>
    '+' ∉ token → ¬ Continues (next.takeWhile (· ≠ '+'))

section Pairing

theorem takeWhile_piece (clean : '+' ∉ piece) (next : List Char) :
    (piece ++ '+' :: next).takeWhile (· ≠ '+') = piece := by
  have all : ∀ c ∈ piece, decide (c ≠ '+') := fun c member =>
    decide_eq_true fun plus => clean (plus ▸ member)
  exact takeWhile_run all (stops_cons.mpr (by decide))

theorem takeWhile_clean (clean : '+' ∉ piece) : piece.takeWhile (· ≠ '+') = piece :=
  List.takeWhile_eq_self_iff.mpr fun _ member => decide_eq_true fun plus => clean (plus ▸ member)

/-- The first piece is what stands in front of any `+`. -/
theorem head?_splitOn (s : List Char) : (s.splitOn '+').head? = some (s.takeWhile (· ≠ '+')) := by
  by_cases plus : '+' ∈ s
  · obtain ⟨piece, rest, rfl, clean⟩ := List.eq_append_cons_of_mem plus
    rw [List.splitOn_append_cons_self_of_not_mem clean, takeWhile_piece clean, List.head?_cons]
  · rw [List.splitOn_eq_singleton plus, takeWhile_clean plus, List.head?_cons]

theorem pairPieces_ne_nil (some : pieces ≠ []) : pairPieces pieces ≠ [] := by
  fun_cases pairPieces pieces with
  | case1 => contradiction
  | case2 | case3 | case4 => exact List.cons_ne_nil _ _

theorem intercalate_pairPieces (pieces : List (List Char)) :
    ['+'].intercalate (pairPieces pieces) = ['+'].intercalate pieces := by
  fun_induction pairPieces pieces with
  | case1 => rfl
  | case2 => rfl
  | case3 piece next rest continues ih =>
    cases rest with
    | nil => simp [pairPieces]
    | cons last rest =>
      rw [List.intercalate_cons_of_ne_nil (pairPieces_ne_nil (List.cons_ne_nil _ _)), ih]
      simp [List.intercalate_cons_cons]
  | case4 piece next rest alone ih =>
    rw [List.intercalate_cons_of_ne_nil (pairPieces_ne_nil (List.cons_ne_nil _ _)), ih,
      List.intercalate_cons_cons]

/-- What stands behind the `+` of a token was found to continue. -/
theorem continues_of_mem_pairPieces (clean : ∀ piece ∈ pieces, '+' ∉ piece)
    (member : piece ++ '+' :: next ∈ pairPieces pieces) : Continues next := by
  fun_induction pairPieces pieces with
  | case1 => contradiction
  | case2 alone =>
    have plain := clean _ List.mem_cons_self
    exact absurd (List.mem_singleton.mp member ▸ List.mem_append_cons_self) plain
  | case3 first second rest continues ih =>
    simp only [List.forall_mem_cons] at clean
    obtain ⟨firstClean, secondClean, later⟩ := clean
    obtain same | member := List.mem_cons.mp member
    · obtain ⟨-, -, rfl⟩ :=
        (List.append_cons_inj_of_notMem firstClean secondClean).mp same.symm
      exact isContinuation_iff.mp continues
    · exact ih later member
  | case4 first second rest alone ih =>
    obtain ⟨plain, later⟩ := List.forall_mem_cons.mp clean
    obtain same | member := List.mem_cons.mp member
    · exact absurd (same ▸ List.mem_append_cons_self) plain
    · exact ih later member

theorem takeWhile_head_pairPieces (clean : '+' ∉ piece) (rest : List (List Char)) :
    ∀ token ∈ (pairPieces (piece :: rest)).head?, token.takeWhile (· ≠ '+') = piece := by
  intro token here
  cases rest with
  | nil =>
    obtain rfl := Option.some.inj here
    exact takeWhile_clean clean
  | cons next rest =>
    rw [pairPieces] at here
    split at here
    · obtain rfl := Option.some.inj here
      exact takeWhile_piece clean next
    · obtain rfl := Option.some.inj here
      exact takeWhile_clean clean

theorem isChain_pairPieces (clean : ∀ piece ∈ pieces, '+' ∉ piece) :
    (pairPieces pieces).IsChain fun token next =>
      '+' ∉ token → ¬ Continues (next.takeWhile (· ≠ '+')) := by
  fun_induction pairPieces pieces with
  | case1 => exact .nil
  | case2 piece => exact .singleton piece
  | case3 piece next rest continues ih =>
    simp only [List.forall_mem_cons] at clean
    exact .cons (ih clean.2.2) fun _ _ plain => absurd List.mem_append_cons_self plain
  | case4 piece next rest alone ih =>
    obtain ⟨-, later⟩ := List.forall_mem_cons.mp clean
    refine .cons (ih later) fun token here _ => ?_
    rw [takeWhile_head_pairPieces (later _ List.mem_cons_self) rest token here,
      ← isContinuation_iff]
    exact alone

end Pairing

theorem isPartition_rawTokens (s : List Char) : IsPartition s (rawTokens s) where
  nonempty := pairPieces_ne_nil (List.splitOn_ne_nil _ _)
  joined := by rw [rawTokens, intercalate_pairPieces, List.intercalate_splitOn]
  single _ := count_plus_le_one_of_mem_pairPieces fun _ => not_mem_of_mem_splitOn
  continued := by
    rintro _ member piece next rfl
    exact continues_of_mem_pairPieces (fun _ => not_mem_of_mem_splitOn) member
  separate := isChain_pairPieces fun _ => not_mem_of_mem_splitOn

section Uniqueness

/-- The pieces of a text are those of its tokens. -/
theorem splitOn_intercalate_plus (some : raw ≠ []) :
    (['+'].intercalate raw).splitOn '+' = raw.flatMap (·.splitOn '+') := by
  induction raw with
  | nil => contradiction
  | cons token rest ih =>
    cases rest with
    | nil => simp
    | cons next rest =>
      rw [List.intercalate_cons_cons, List.append_assoc, List.singleton_append,
        List.splitOn_append_cons_self, ih (List.cons_ne_nil _ _)]
      rfl

theorem splitOn_token (single : (piece ++ '+' :: next).count '+' ≤ 1) :
    (piece ++ '+' :: next).splitOn '+' = [piece, next] := by
  rw [List.count_append, List.count_cons_self] at single
  have front : '+' ∉ piece := List.count_eq_zero.mp (by omega)
  have back : '+' ∉ next := List.count_eq_zero.mp (by omega)
  rw [List.splitOn_append_cons_self_of_not_mem front, List.splitOn_eq_singleton back]

/-- Tokens that are cut as they should be are paired from their pieces again. -/
theorem pairPieces_flatMap_splitOn (single : ∀ token ∈ raw, token.count '+' ≤ 1)
    (continued : ∀ token ∈ raw, ∀ piece next, token = piece ++ '+' :: next → Continues next)
    (separate : raw.IsChain fun token next =>
      '+' ∉ token → ¬ Continues (next.takeWhile (· ≠ '+'))) :
    pairPieces (raw.flatMap (·.splitOn '+')) = raw := by
  induction raw with
  | nil => rfl
  | cons token rest ih =>
    obtain ⟨one, singles⟩ := List.forall_mem_cons.mp single
    obtain ⟨here, later⟩ := List.forall_mem_cons.mp continued
    obtain ⟨first, chain⟩ := List.isChain_cons.mp separate
    have paired := ih singles later chain
    by_cases plus : '+' ∈ token
    · obtain ⟨piece, next, rfl⟩ := List.append_of_mem plus
      have continues : isContinuation next := isContinuation_iff.mpr (here piece next rfl)
      rw [List.flatMap_cons, splitOn_token one, List.cons_append, List.singleton_append,
        pairPieces, if_pos continues, paired]
    · have fresh : ∀ piece ∈ (rest.flatMap (·.splitOn '+')).head?,
          isContinuation piece = false := by
        cases rest with
        | nil => simp
        | cons next rest =>
          intro piece front
          rw [List.flatMap_cons, List.head?_append, head?_splitOn, Option.some_or] at front
          obtain rfl := Option.some.inj front
          exact Bool.eq_false_iff.mpr fun continues =>
            first next rfl plus (isContinuation_iff.mp continues)
      rw [List.flatMap_cons, List.splitOn_eq_singleton plus, pairPieces_append fresh, paired]
      rfl

theorem IsPartition.eq_rawTokens (partition : IsPartition s raw) : raw = rawTokens s := by
  rw [rawTokens, ← partition.joined, splitOn_intercalate_plus partition.nonempty,
    pairPieces_flatMap_splitOn partition.single partition.continued partition.separate]

end Uniqueness

section Characters

/-- Neither a separator nor a blank. -/
def isSolid (c : Char) : Bool := !isBlank c && c != '+'

theorem filter_isSolid_intercalate (raw : List (List Char)) :
    (['+'].intercalate raw).filter isSolid = raw.flatten.filter isSolid := by
  induction raw with
  | nil => rfl
  | cons token rest ih =>
    cases rest with
    | nil => simp
    | cons next rest =>
      have plus : isSolid '+' = false := by decide
      rw [List.intercalate_cons_cons, List.filter_append, List.filter_append, ih,
        List.filter_singleton, plus, List.flatten_cons, List.filter_append]
      simp

/-- Blank tokens hold no solid character. -/
theorem filter_isSolid_tokens (raw : List (List Char)) :
    (raw.filter (!isBlankText ·)).flatten.filter isSolid = raw.flatten.filter isSolid := by
  induction raw with
  | nil => rfl
  | cons token rest ih =>
    rw [List.filter_cons, List.flatten_cons, List.filter_append, ← ih]
    split
    · rw [List.flatten_cons, List.filter_append]
    · next blank =>
      have none : token.filter isSolid = [] := by
        simp only [isBlankText, Bool.not_eq_true', Bool.not_eq_false, List.all_eq_true] at blank
        refine List.filter_eq_nil_iff.mpr fun c member => ?_
        simp [isSolid, blank c member]
      rw [none, List.nil_append]

end Characters

/-- A text is cut in one way only, and its tokens are those of the cut that are not blank. No
character but separators and blanks is lost. -/
theorem tokens_partition (s : List Char) :
    ∃ raw, (∀ other, IsPartition s other ↔ other = raw) ∧
      tokens s = raw.filter (!isBlankText ·) ∧
      (tokens s).flatten.filter isSolid = s.filter isSolid := by
  refine ⟨rawTokens s, fun other => ⟨IsPartition.eq_rawTokens, ?_⟩, rfl, ?_⟩
  · rintro rfl
    exact isPartition_rawTokens s
  · rw [tokens, filter_isSolid_tokens, ← filter_isSolid_intercalate,
      (isPartition_rawTokens s).joined]

end Shorthand.Style
