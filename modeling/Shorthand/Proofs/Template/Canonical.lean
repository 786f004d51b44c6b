import Shorthand.Abbreviation.Qualifier
import Shorthand.Proofs.Node.Merge
import Shorthand.Proofs.Template.Building

/-! Templates stay in normal form. Whatever is done to make a template, the same done segment by
segment leaves the segments of the template, and these are in normal form. So segments are equal
exactly if they spell out the same characters and tokens, a template has a text of its own
exactly if it has no token, and how a literal is cut before it is put in leaves no trace. -/
namespace Shorthand.Template

variable {t : Template}

/-- How a template comes about: from segments, from a text, or read off a selector or off a text
in braces, with segments put behind it and its tokens resolved. -/
inductive Recipe where
  | ofSegments (segments : List Segment)
  | ofText (text : String)
  | ofSelector (s : List Char)
  | ofBraces (s : List Char)
  | push (recipe : Recipe) (segment : Segment)
  | resolve (recipe : Recipe) (index limit : Nat)

namespace Recipe

/-- The template, unless a text in braces does not end. -/
def template? : Recipe → Option Template
  | .ofSegments segments => some (.ofSegments segments)
  | .ofText text => some (.ofText text)
  | .ofSelector s => some (.ofSelector s)
  | .ofBraces s => (Abbreviation.bracedText s).toOption.map Prod.fst
  | .push recipe segment => recipe.template?.map (·.push segment)
  | .resolve recipe index limit => recipe.template?.map (·.resolve index limit)

/-- What is put together where segments take the place of templates. -/
def segments? : Recipe → Option (List Segment)
  | .ofSegments segments => some (segments.foldl Segments.push [])
  | .ofText text => some (Segments.ofText text)
  | .ofSelector s => some (Segments.readSelector [] s)
  | .ofBraces s => (Segments.readBraced? [] s).map Prod.fst
  | .push recipe segment => recipe.segments?.map (Segments.push · segment)
  | .resolve recipe index limit =>
    recipe.segments?.map fun segments => Segments.ofText (Segments.toText index limit segments)

/-- Segment by segment the same comes about, whatever is done. -/
theorem segments?_eq (recipe : Recipe) :
    recipe.segments? = recipe.template?.map Template.segments := by
  induction recipe with
  | ofSegments segments => exact congrArg some (segments_ofSegments segments).symm
  | ofText text => exact congrArg some (segments_ofText text).symm
  | ofSelector s => exact congrArg some (segments_ofSelector s).symm
  | ofBraces s =>
    rw [segments?, template?, Abbreviation.bracedText, segments_ofBraces?]
    cases ofBraces? s <;> rfl
  | push recipe segment ih =>
    rw [segments?, template?, ih, Option.map_map, Option.map_map]
    congr 1
    funext t
    exact (segments_push t segment).symm
  | resolve recipe index limit ih =>
    rw [segments?, template?, ih, Option.map_map, Option.map_map]
    congr 1
    funext t
    exact (segments_resolve t index limit).symm

end Recipe

/-- However a template comes about, it has segments in normal form, and they are what comes about
segment by segment. Its text is known exactly if it has no token, and is then all that is shown of
it. A literal may be cut before it is put in. What comes about is the same segments exactly if it
is the same characters and tokens, so that classes repeat where their segments do. -/
theorem segments_stay_canonical {recipe : Recipe} (made : recipe.template? = some t) :
    (recipe.segments? = some t.segments ∧ Segments.IsCanonical t.segments) ∧
    (t.literal? = Segments.literal? t.segments ∧
      ∀ text, t.literal? = some text ↔ (∀ n, .numbering n ∉ t.segments) ∧ text = t.toText) ∧
    (∀ parts : List String,
      (parts.map Segment.literal).foldl push t = t.push (.literal (String.join parts)) ∧
      (parts.map Segment.literal).foldl Segments.push t.segments =
        Segments.push t.segments (.literal (String.join parts))) ∧
    (∀ (other : Recipe) (u : Template), other.template? = some u →
      (recipe.segments? = other.segments? ↔ t.pieces = u.pieces)) ∧
    ∀ base extra : List Template,
      (mergeClasses base extra).map segments = ((base ++ extra).map segments).eraseDups := by
  have held {recipe : Recipe} {t : Template} (made : recipe.template? = some t) :
      recipe.segments? = some t.segments := by
    rw [recipe.segments?_eq, made]
    rfl
  refine ⟨⟨held made, isCanonical_segments t⟩, ⟨literal?_eq t, fun _ => literal?_eq_some_iff_free⟩,
    fun parts => ?_, fun other u madeToo => ?_, fun base extra => ?_⟩
  · have cut := Segments.foldl_push_literal t.segments parts
    refine ⟨segments_injective ?_, cut⟩
    rw [segments_foldl_push, cut, segments_push]
  · rw [held made, held madeToo, Option.some_inj]
    constructor
    · intro same
      rw [segments_injective same]
    · intro same
      have whole : t = u := congrArg mk same
      rw [whole]
  · exact (eraseDups_map_of_injective segments_injective (base ++ extra)).symm

/-- A template that is put together in small parts. -/
def smallParts : Recipe :=
  .push (.push (.ofSegments [.literal "a", .literal "", .literal "b", .numbering ⟨2, true, 1⟩])
    (.literal "c")) (.literal "d")

/-- The same, read off a text in braces. -/
def oneText : Recipe := .ofBraces "a\\b$$cd\x7d".toList

theorem segments_stay_canonical_parts :
    ∃ t u, smallParts.template? = some t ∧ oneText.template? = some u ∧
      smallParts.segments? = some [.literal "ab", .numbering ⟨2, true, 1⟩, .literal "cd"] ∧
      smallParts.segments? = oneText.segments? ∧ t.literal? = none := by
  have read : oneText.template? = some (.ofSegments
      [.literal "ab", .numbering ⟨2, true, 1⟩, .literal "cd"]) := by
    decide +kernel
  have made : smallParts.template? = some (.ofSegments
      [.literal "a", .literal "b", .numbering ⟨2, true, 1⟩, .literal "c", .literal "d"]) := rfl
  obtain ⟨⟨built, -⟩, ⟨literal, -⟩, -, same, -⟩ := segments_stay_canonical made
  refine ⟨_, _, made, read, built.trans (by decide), (same oneText _ read).mpr (by decide), ?_⟩
  rw [literal]
  decide

end Shorthand.Template
