import Shorthand.Proofs.Scanning.Span
import Shorthand.Template

/-! Scanning piece by piece. A template spells out its segments, so what the scanners find can be
told one character and one token at a time, and each goes on where the token before it ends. The
scanner of a selector cuts literals out between the tokens; the scanner of text in braces walks
from character to character, collects literals, and walks past a token by as many characters as
the bytes of the token make. -/
namespace Shorthand

variable {s rest after : List Char} {c : Char}

namespace Numbering

theorem readSuffix_suffix (width : Nat) (s : List Char) : (readSuffix width s).2 <:+ s := by
  have digits := fun t : List Char => List.dropWhile_suffix isDecimalDigit (l := t)
  fun_cases readSuffix width s with
  | case1 t => exact ((digits t).trans (List.suffix_cons _ _)).trans (List.suffix_cons _ _)
  | case2 t _ => exact (digits t).trans (List.suffix_cons _ _)
  | case3 => exact List.suffix_refl _

theorem read_suffix (s : List Char) : (read s).2 <:+ s :=
  (readSuffix_suffix _ _).trans (List.dropWhile_suffix _)

end Numbering

/-- As many characters as were taken in front of the end of the input, but for the first, which
was passed before: behind them the end is left. -/
theorem drop_takeBytes (ending : after <:+ s) (c : Char) :
    s.drop ((takeBytes (byteLength (c :: s) - byteLength after) (c :: s)).length - 1) = after := by
  obtain ⟨taken, rfl⟩ := ending
  rw [← List.cons_append, takeBytes_sub_append, List.length_cons, Nat.add_sub_cancel,
    List.drop_left]

namespace Template

/-- What stands behind a token is what its characters are passed over for. -/
theorem bracedSegments?_number (run : String) (s : List Char) :
    bracedSegments? run ('$' :: s) =
      (bracedSegments? "" (Numbering.read s).2).map fun found =>
        (.literal run :: .numbering (Numbering.read s).1 :: found.1, found.2) := by
  rw [bracedSegments?.eq_def]
  simp only [drop_takeBytes (Numbering.read_suffix s) '$', show '$' ≠ '}' by decide,
    show '$' ≠ '\\' by decide, if_true, if_false]

-- the digit takes two bytes and is one character to pass over
example : bracedSegments? "" "$@\u0663x\x7d>p".toList =
    some ([.literal "", .numbering ⟨1, true, 1⟩, .literal "x"], ">p".toList) := by
  decide +kernel

theorem bracedSegments?_nil (run : String) : bracedSegments? run [] = none := by
  rw [bracedSegments?]

theorem bracedSegments?_close (run : String) (s : List Char) :
    bracedSegments? run ('}' :: s) = some ([.literal run], s) := by
  rw [bracedSegments?.eq_def]
  exact if_pos rfl

theorem bracedSegments?_escape (run : String) (d : Char) (s : List Char) :
    bracedSegments? run ('\\' :: d :: s) = bracedSegments? (run.push d) s := by
  rw [bracedSegments?.eq_def]
  simp

theorem bracedSegments?_char (run : String) (s : List Char) (close : c ≠ '}') (escape : c ≠ '\\')
    (number : c ≠ '$') : bracedSegments? run (c :: s) = bracedSegments? (run.push c) s := by
  rw [bracedSegments?.eq_def]
  simp only [close, escape, number, if_false]

/-- The pieces of a selector: `$` begins a token, anything else is a character. -/
def piecesOf : List Char → List Piece
  | [] => []
  | c :: s =>
    if c = '$' then .number (Numbering.read s).1 :: piecesOf (Numbering.read s).2
    else .char c :: piecesOf s
termination_by s => s.length
decreasing_by
  · exact Nat.lt_succ_of_le (Numbering.read_length_le s)
  · simp

theorem piecesOf_number (s : List Char) :
    piecesOf ('$' :: s) = .number (Numbering.read s).1 :: piecesOf (Numbering.read s).2 := by
  rw [piecesOf, if_pos rfl]

theorem piecesOf_char {c : Char} (s : List Char) (h : c ≠ '$') :
    piecesOf (c :: s) = .char c :: piecesOf s := by
  rw [piecesOf, if_neg h]

theorem piecesOf_run {run : List Char} (plain : ∀ c ∈ run, c != '$') (rest : List Char) :
    piecesOf (run ++ rest) = run.map .char ++ piecesOf rest := by
  induction run with
  | nil => rfl
  | cons c run ih =>
    obtain ⟨here, later⟩ := List.forall_mem_cons.mp plain
    rw [List.cons_append, piecesOf_char _ (bne_iff_ne.mp here), ih later]
    rfl

/-- Text without a sign is one literal. -/
theorem selectorSegments_run {run : List Char} (plain : ∀ c ∈ run, c != '$') :
    selectorSegments run = [.literal (String.ofList run)] := by
  fun_cases selectorSegments run with
  | case1 => rfl
  | case2 _ _ left => exact nomatch (List.dropWhile_eq_nil_iff.mpr plain).symm.trans left

/-- Text up to a sign is a literal, and the token that begins there stands behind it. -/
theorem selectorSegments_number {run : List Char} (plain : ∀ c ∈ run, c != '$') (s : List Char) :
    selectorSegments (run ++ '$' :: s) =
      .literal (String.ofList run) :: .numbering (Numbering.read s).1 ::
        selectorSegments (Numbering.read s).2 := by
  have stop : Stops (· != '$') ('$' :: s) := stops_cons.mpr rfl
  have literal := takeWhile_run plain stop
  have behind := dropWhile_run plain stop
  generalize run ++ '$' :: s = whole at literal behind
  fun_cases selectorSegments whole with
  | case1 none => exact nomatch behind.symm.trans none
  | case2 _ _ left =>
    obtain ⟨-, rfl⟩ := List.cons.inj (behind.symm.trans left)
    rw [literal]

/-- What is found in a selector spells out its pieces. -/
theorem pieces_selectorSegments (s : List Char) :
    (selectorSegments s).flatMap Segment.pieces = piecesOf s := by
  fun_induction selectorSegments s with
  | case1 s last =>
    have pieces := piecesOf_run (List.dropWhile_eq_nil_iff.mp last) []
    rw [List.append_nil, piecesOf, List.append_nil] at pieces
    rw [pieces, List.flatMap_singleton, Segment.pieces, String.toList_ofList]
  | case2 s c rest left ih =>
    have stop : Stops (· != '$') (c :: rest) := left ▸ stops_dropWhile (· != '$') s
    obtain rfl : c = '$' := bne_eq_false_iff_eq.mp (stop c rfl)
    have plain : ∀ c ∈ s.takeWhile (· != '$'), c != '$' := fun _ => List.mem_takeWhile_imp
    have pieces := piecesOf_run plain ('$' :: rest)
    rw [← left, List.takeWhile_append_dropWhile, left, piecesOf_number] at pieces
    rw [pieces, List.flatMap_cons, List.flatMap_cons, ih, Segment.pieces, Segment.pieces,
      String.toList_ofList]
    rfl

theorem ofSelector_eq (s : List Char) : ofSelector s = ⟨piecesOf s⟩ :=
  congrArg mk (pieces_selectorSegments s)

/-- The template of a text up to the brace that closes it; `before` holds the pieces that are read
already, last first. -/
def braced? (before : List Piece) : List Char → Option (Template × List Char)
  | [] => none
  | c :: s =>
    if c = '}' then some (⟨before.reverse⟩, s)
    else if c = '\\' then
      match s with
      | [] => none
      | d :: s => braced? (.char d :: before) s
    else if c = '$' then
      braced? (.number (Numbering.read s).1 :: before) (Numbering.read s).2
    else braced? (.char c :: before) s
termination_by s => s.length
decreasing_by
  · simp only [List.length_cons]; omega
  · exact Nat.lt_succ_of_le (Numbering.read_length_le s)
  · simp

theorem braced?_nil (before : List Piece) : braced? before [] = none := by
  rw [braced?]

theorem braced?_close (before : List Piece) (s : List Char) :
    braced? before ('}' :: s) = some (⟨before.reverse⟩, s) := by
  rw [braced?.eq_def]
  simp

theorem braced?_escape (before : List Piece) (d : Char) (s : List Char) :
    braced? before ('\\' :: d :: s) = braced? (.char d :: before) s := by
  rw [braced?.eq_def]
  simp

theorem braced?_number (before : List Piece) (s : List Char) :
    braced? before ('$' :: s) =
      braced? (.number (Numbering.read s).1 :: before) (Numbering.read s).2 := by
  rw [braced?.eq_def]
  simp

theorem braced?_char (before : List Piece) {c : Char} (s : List Char) (close : c ≠ '}')
    (escape : c ≠ '\\') (number : c ≠ '$') :
    braced? before (c :: s) = braced? (.char c :: before) s := by
  rw [braced?.eq_def]
  simp only [close, escape, number, if_false]

/-- What is found in a text spells out its pieces: those put in already, the run that is not put in
yet, and what is found behind it. -/
theorem map_bracedSegments? {before done : List Piece} {run : String}
    (spelt : before.reverse = done ++ run.toList.map .char) (s : List Char) :
    (bracedSegments? run s).map (fun found =>
      (Template.mk (done ++ found.1.flatMap Segment.pieces), found.2)) = braced? before s := by
  have further (d : Char) {before done : List Piece} {run : String}
      (spelt : before.reverse = done ++ run.toList.map .char) :
      (Piece.char d :: before).reverse = done ++ (run.push d).toList.map .char := by
    rw [List.reverse_cons, spelt, String.toList_push, List.map_append, List.append_assoc]
    rfl
  fun_induction braced? before s generalizing done run with
  | case1 before =>
    rw [bracedSegments?_nil]
    rfl
  | case2 before s =>
    rw [bracedSegments?_close, spelt, Option.map_some, List.flatMap_singleton]
    rfl
  | case3 before =>
    rw [bracedSegments?.eq_def]
    simp
  | case4 before d s close ih =>
    rw [bracedSegments?_escape]
    exact ih (further d spelt)
  | case5 before s close escape ih =>
    have put : (Piece.number (Numbering.read s).1 :: before).reverse =
        done ++ run.toList.map .char ++ [.number (Numbering.read s).1] ++ "".toList.map .char := by
      rw [List.reverse_cons, spelt]
      exact (List.append_nil _).symm
    rw [bracedSegments?_number, ← ih put, Option.map_map]
    congr 1
    funext found
    simp [Segment.pieces]
  | case6 before c s close escape number ih =>
    rw [bracedSegments?_char run s close escape number]
    exact ih (further c spelt)

theorem ofBraces?_eq (s : List Char) : ofBraces? s = braced? [] s := by
  have nothing : ([] : List Piece).reverse = [] ++ "".toList.map .char := rfl
  exact map_bracedSegments? nothing s

end Template

end Shorthand
