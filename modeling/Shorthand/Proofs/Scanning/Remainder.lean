import Shorthand.Abbreviation.Qualifier
import Shorthand.Proofs.Scanning.Pieces

/-! What scanning leaves of its input is the end of it. -/
namespace Shorthand

theorem Template.braced?_suffix {before : List Piece} {s rest : List Char} {text : Template}
    (h : Template.braced? before s = some (text, rest)) : rest <:+ s := by
  fun_induction Template.braced? before s with
  | case1 => contradiction
  | case2 before s =>
    obtain ⟨-, rfl⟩ := Prod.mk.inj (Option.some.inj h)
    exact List.suffix_cons _ _
  | case3 => contradiction
  | case4 before d s _ ih => exact ((ih h).trans (List.suffix_cons _ _)).trans (List.suffix_cons _ _)
  | case5 before s _ _ ih =>
    exact ((ih h).trans (Numbering.read_suffix s)).trans (List.suffix_cons _ _)
  | case6 before c s _ _ _ ih => exact (ih h).trans (List.suffix_cons _ _)

namespace Abbreviation

theorem quoted?_suffix {s value rest : List Char} (h : quoted? s = some (value, rest)) :
    rest <:+ s := by
  unfold quoted? at h
  split at h
  · next t =>
    split at h
    · contradiction
    · next c r hr =>
      obtain ⟨-, rfl⟩ := Prod.mk.inj (Option.some.inj h)
      have left : c :: r <:+ t := hr ▸ List.dropWhile_suffix _
      exact ((List.suffix_cons c r).trans left).trans (List.suffix_cons _ _)
  · contradiction

theorem attributeValue_suffix (s : List Char) : (attributeValue s).2 <:+ s := by
  unfold attributeValue
  split
  · split
    · next h => exact (quoted?_suffix h).trans (List.suffix_cons _ _)
    · exact (List.dropWhile_suffix _).trans (List.suffix_cons _ _)
  · exact List.suffix_refl _

theorem attributeList_suffix {before list : List (List Char × Written)} {s rest : List Char}
    (h : attributeList before s = .ok (list, rest)) : rest <:+ s := by
  fun_induction attributeList before s with
  | case1 before s s' hs =>
    obtain ⟨-, rfl⟩ := Prod.mk.inj (Except.ok.inj h)
    exact (List.tail_suffix s').trans (List.dropWhile_suffix _)
  | case2 => contradiction
  | case3 before s s' _ key hkey value ih =>
    exact (((ih h).trans (attributeValue_suffix _)).trans (List.dropWhile_suffix _)).trans
      (List.dropWhile_suffix _)

end Abbreviation

end Shorthand
