import Shorthand.Proofs.Scanning.Span
import Shorthand.Text.Blank

/-! Trimming a text of several parts. A character that is no blank keeps the blanks on its
two sides apart, so only the outer ends of the text are trimmed. -/
namespace Shorthand

variable {c : Char} {s t : List Char}

theorem trimStart_append_cons (solid : isBlank c = false) (s t : List Char) :
    trimStart (s ++ c :: t) = trimStart s ++ c :: t :=
  dropWhile_append_right fun _ => stops_cons.mpr solid

theorem trimEnd_append_cons (solid : isBlank c = false) (s t : List Char) :
    trimEnd (s ++ c :: t) = s ++ c :: trimEnd t := by
  have stop : Stops isBlank (c :: s.reverse) := stops_cons.mpr solid
  have inner : (t.reverse ++ c :: s.reverse).dropWhile isBlank =
      t.reverse.dropWhile isBlank ++ c :: s.reverse := dropWhile_append_right fun _ => stop
  simp [trimEnd, inner]

theorem trim_append_cons (solid : isBlank c = false) (s t : List Char) :
    trim (s ++ c :: t) = trimStart s ++ c :: trimEnd t := by
  rw [trim, trimStart_append_cons solid, trimEnd_append_cons solid]

theorem trimEnd_length_le (s : List Char) : (trimEnd s).length ≤ s.length := by
  simpa [trimEnd] using length_dropWhile_le isBlank s.reverse

/-- A text that trimming leaves as it is begins with no blank. -/
theorem trimStart_eq_self_of_trim (h : trim s = s) : trimStart s = s := by
  have outer := trimEnd_length_le (trimStart s)
  rw [← trim, h] at outer
  have inner := List.dropWhile_sublist isBlank (l := s)
  exact inner.eq_of_length (Nat.le_antisymm inner.length_le outer)

theorem trimEnd_eq_self_of_trim (h : trim s = s) : trimEnd s = s := by
  have same := h
  rwa [trim, trimStart_eq_self_of_trim h] at same

/-- A text with no blank at either end is trimmed. -/
theorem trim_eq_self (front : Stops isBlank s) (back : ∀ c ∈ s.getLast?, isBlank c = false) :
    trim s = s := by
  have stop : Stops isBlank s.reverse := by
    intro c last
    exact back c (List.head?_reverse ▸ last)
  rw [trim, trimStart, front.dropWhile_eq_self, trimEnd, stop.dropWhile_eq_self,
    List.reverse_reverse]

theorem trim_subset (s : List Char) : trim s ⊆ s := by
  intro c member
  have inner : c ∈ (trimStart s).reverse.dropWhile isBlank := by
    simpa [trim, trimEnd] using member
  have middle : c ∈ trimStart s := by simpa using (List.dropWhile_subset _) inner
  exact (List.dropWhile_suffix _).subset middle

end Shorthand
