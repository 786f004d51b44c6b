import Mathlib.Data.List.Chain
import Shorthand.Template

/-! Segments in normal form: no run of characters is empty, and none stands right behind another
one. The segments of a template are so, and a list that is so is the segments of the template
that it spells out. So a template has one list of segments in normal form, and to know the
segments of a template it is enough to know some that are in normal form and spell it out. -/
namespace Shorthand

variable {segment : Segment} {segments : List Segment} {n : Numbering} {text : String}

def Segment.isLiteral : Segment → Bool
  | .literal _ => true
  | .numbering _ => false

namespace Segments

/-- The characters and tokens of the segments, one after the other. -/
def pieces (segments : List Segment) : List Piece := segments.flatMap Segment.pieces

/-- No run is empty, and none stands right behind another one. -/
structure IsCanonical (segments : List Segment) : Prop where
  filled : Segment.literal "" ∉ segments
  apart : segments.IsChain fun first next => ¬(first.isLiteral ∧ next.isLiteral)

/-- The segments may stand behind a run, since they do not go on with it. -/
def CanFollowRun (segments : List Segment) : Prop :=
  ∀ segment ∈ segments.head?, segment.isLiteral = false

theorem isCanonical_nil : IsCanonical [] := ⟨List.not_mem_nil, .nil⟩

theorem isCanonical_numbering :
    IsCanonical (.numbering n :: segments) ↔ IsCanonical segments := by
  constructor
  · rintro ⟨filled, apart⟩
    exact ⟨fun member => filled (List.mem_cons_of_mem _ member), apart.tail⟩
  · rintro ⟨filled, apart⟩
    refine ⟨fun member => ?_, apart.cons fun _ _ both => Bool.false_ne_true both.1⟩
    exact (List.mem_cons.mp member).elim nofun filled

theorem isCanonical_literal :
    IsCanonical (.literal text :: segments) ↔
      text ≠ "" ∧ CanFollowRun segments ∧ IsCanonical segments := by
  constructor
  · rintro ⟨filled, apart⟩
    obtain ⟨first, apart⟩ := List.isChain_cons.mp apart
    refine ⟨?_, fun next here => ?_, fun member => ?_, apart⟩
    · rintro rfl
      exact filled List.mem_cons_self
    · exact Bool.eq_false_iff.mpr fun literal => first next here ⟨rfl, literal⟩
    · exact filled (List.mem_cons_of_mem _ member)
  · rintro ⟨nonempty, follows, filled, apart⟩
    refine ⟨fun member => ?_, List.isChain_cons.mpr ⟨fun next here both => ?_, apart⟩⟩
    · obtain same | later := List.mem_cons.mp member
      · exact nonempty (Segment.literal.inj same).symm
      · exact filled later
    · rw [follows next here] at both
      exact absurd both.2 (by decide)

end Segments

namespace Template

open Segments

variable {t : Template} {run : List Char} {pieces : List Piece}

/-- The run that the first pieces are part of, and the segments behind it. -/
def firstRun (pieces : List Piece) : List Char × List Segment :=
  pieces.foldr segmentStep ([], [])

theorem segments_eq (t : Template) : t.segments = segmentStep.closeRun (firstRun t.pieces) := rfl

theorem closeRun_of_ne_nil (nonempty : run ≠ []) (segments : List Segment) :
    segmentStep.closeRun (run, segments) = .literal (String.ofList run) :: segments := by
  cases run with
  | nil => contradiction
  | cons c run => rfl

theorem pieces_closeRun (after : List Char × List Segment) :
    Segments.pieces (segmentStep.closeRun after) = after.1.map .char ++ Segments.pieces after.2 := by
  obtain ⟨run, segments⟩ := after
  cases run with
  | nil => rfl
  | cons c run =>
    rw [closeRun_of_ne_nil (List.cons_ne_nil c run), Segments.pieces, List.flatMap_cons,
      Segment.pieces, String.toList_ofList]
    rfl

theorem pieces_firstRun (pieces : List Piece) :
    (firstRun pieces).1.map .char ++ Segments.pieces (firstRun pieces).2 = pieces := by
  induction pieces with
  | nil => rfl
  | cons piece pieces ih =>
    cases piece with
    | char c => exact congrArg (Piece.char c :: ·) ih
    | number n =>
      change Piece.number n :: Segments.pieces (segmentStep.closeRun (firstRun pieces)) = _
      rw [pieces_closeRun, ih]

/-- The segments of a template spell it out. -/
theorem pieces_segments (t : Template) : Segments.pieces t.segments = t.pieces := by
  rw [segments_eq, pieces_closeRun, pieces_firstRun]

theorem isCanonical_closeRun {after : List Char × List Segment} (follows : CanFollowRun after.2)
    (canonical : IsCanonical after.2) : IsCanonical (segmentStep.closeRun after) := by
  obtain ⟨run, segments⟩ := after
  cases run with
  | nil => exact canonical
  | cons c run =>
    rw [closeRun_of_ne_nil (List.cons_ne_nil c run)]
    refine isCanonical_literal.mpr ⟨fun none => ?_, follows, canonical⟩
    exact List.cons_ne_nil c run (String.ofList_eq_empty_iff.mp none)

theorem isCanonical_firstRun (pieces : List Piece) :
    CanFollowRun (firstRun pieces).2 ∧ IsCanonical (firstRun pieces).2 := by
  induction pieces with
  | nil => exact ⟨nofun, isCanonical_nil⟩
  | cons piece pieces ih =>
    cases piece with
    | char c => exact ih
    | number n =>
      refine ⟨?_, isCanonical_numbering.mpr (isCanonical_closeRun ih.1 ih.2)⟩
      rintro _ ⟨⟩
      rfl

/-- The segments of a template are in normal form. -/
theorem isCanonical_segments (t : Template) : IsCanonical t.segments :=
  isCanonical_closeRun (isCanonical_firstRun t.pieces).1 (isCanonical_firstRun t.pieces).2

theorem firstRun_append (run : List Char) (pieces : List Piece) :
    firstRun (run.map .char ++ pieces) = (run ++ (firstRun pieces).1, (firstRun pieces).2) := by
  induction run with
  | nil => rfl
  | cons c run ih =>
    change segmentStep (.char c) (firstRun (run.map .char ++ pieces)) = _
    rw [ih]
    rfl

/-- A first run in normal form is as long as can be. -/
theorem firstRun_pieces (canonical : IsCanonical segments) :
    segmentStep.closeRun (firstRun (Segments.pieces segments)) = segments ∧
      (CanFollowRun segments → firstRun (Segments.pieces segments) = ([], segments)) := by
  induction segments with
  | nil => exact ⟨rfl, fun _ => rfl⟩
  | cons segment segments ih =>
    cases segment with
    | numbering n =>
      have behind := (ih (isCanonical_numbering.mp canonical)).1
      have token : firstRun (Segments.pieces (.numbering n :: segments)) =
          ([], .numbering n :: segments) :=
        congrArg (fun segments => ([], .numbering n :: segments)) behind
      exact ⟨congrArg segmentStep.closeRun token, fun _ => token⟩
    | literal text =>
      obtain ⟨nonempty, follows, canonical⟩ := isCanonical_literal.mp canonical
      have run : firstRun (Segments.pieces (.literal text :: segments)) = (text.toList, segments) := by
        refine (firstRun_append text.toList (Segments.pieces segments)).trans ?_
        rw [(ih canonical).2 follows, List.append_nil]
      refine ⟨?_, fun follows => nomatch follows _ rfl⟩
      rw [run, closeRun_of_ne_nil (mt String.toList_eq_nil_iff.mp nonempty), String.ofList_toList]

/-- Segments are those of a template exactly if they are in normal form and spell it out. -/
theorem segments_eq_iff :
    t.segments = segments ↔ IsCanonical segments ∧ Segments.pieces segments = t.pieces := by
  constructor
  · rintro rfl
    exact ⟨isCanonical_segments t, pieces_segments t⟩
  · rintro ⟨canonical, spelt⟩
    rw [segments_eq, ← spelt]
    exact (firstRun_pieces canonical).1

theorem segments_injective : Function.Injective Template.segments := by
  intro first second same
  have pieces : first.pieces = second.pieces := by
    rw [← pieces_segments first, same, pieces_segments second]
  exact congrArg Template.mk pieces

end Template

end Shorthand
