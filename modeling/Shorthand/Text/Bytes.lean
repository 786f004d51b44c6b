/-! Texts by the bytes that encode them. -/
namespace Shorthand

/-- How many bytes encode the characters. -/
def byteLength : List Char → Nat
  | [] => 0
  | c :: s => c.utf8Size + byteLength s

/-- The characters that the first `n` bytes encode. -/
def takeBytes (n : Nat) : List Char → List Char
  | [] => []
  | c :: s => if c.utf8Size ≤ n then c :: takeBytes (n - c.utf8Size) s else []

theorem byteLength_append (s t : List Char) : byteLength (s ++ t) = byteLength s + byteLength t := by
  induction s with
  | nil => exact (Nat.zero_add _).symm
  | cons c s ih => rw [List.cons_append, byteLength, byteLength, ih, Nat.add_assoc]

theorem takeBytes_append (s t : List Char) : takeBytes (byteLength s) (s ++ t) = s := by
  induction s with
  | nil =>
    cases t with
    | nil => rfl
    | cons c t => exact if_neg (Nat.not_le.mpr c.utf8Size_pos)
  | cons c s ih =>
    rw [byteLength, List.cons_append, takeBytes, if_pos (Nat.le_add_right _ _),
      Nat.add_sub_cancel_left, ih]

/-- Where the end of a text is left, the bytes in front of it encode what was taken. -/
theorem takeBytes_sub_append (s t : List Char) :
    takeBytes (byteLength (s ++ t) - byteLength t) (s ++ t) = s := by
  rw [byteLength_append, Nat.add_sub_cancel, takeBytes_append]

end Shorthand
