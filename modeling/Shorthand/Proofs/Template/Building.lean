import Shorthand.Proofs.Template.Segments

/-! Templates that are put together segment by segment. Whatever makes a template has its
counterpart on segments: one more segment goes behind others, a text takes the place of all, or
what a scanner finds is put in run by run and token by token. Each of them leaves segments in normal form and
does to the spelling what is done to the template, so in the end they are the segments of the
template. How a literal is cut before it is put in leaves no trace. -/
namespace Shorthand

variable {segments before : List Segment} {segment : Segment} {text : String}

namespace Segments

/-- One more segment at the end: an empty run is left out, and a run goes on with a run. -/
def push (segments : List Segment) : Segment → List Segment
  | .numbering n => segments ++ [.numbering n]
  | .literal text =>
    if text = "" then segments
    else
      match segments.getLast? with
      | some (.literal before) => segments.dropLast ++ [.literal (before ++ text)]
      | _ => segments ++ [.literal text]

def ofText (text : String) : List Segment := if text = "" then [] else [.literal text]

/-- What the segments stand for in copy `index` out of `limit`. -/
def toText (index limit : Nat) (segments : List Segment) : String :=
  String.join (segments.map fun
    | .literal text => text
    | .numbering n => String.ofList (n.digits index limit))

/-- The text of segments that are no more than a run. -/
def literal? : List Segment → Option String
  | [] => some ""
  | [.literal text] => some text
  | _ => none

/-- Reads a selector behind other segments. -/
def readSelector (before : List Segment) (s : List Char) : List Segment :=
  (Template.selectorSegments s).foldl push before

/-- Reads text up to the brace that closes it behind other segments. -/
def readBraced? (before : List Segment) (s : List Char) : Option (List Segment × List Char) :=
  (Template.bracedSegments? "" s).map fun found => (found.1.foldl push before, found.2)

section Push

/-- What one more segment does to the segments. -/
inductive Pushed : List Segment → Segment → List Segment → Prop
  | empty (segments : List Segment) : Pushed segments (.literal "") segments
  | run (front : List Segment) (first text : String) (nonempty : text ≠ "") :
      Pushed (front ++ [.literal first]) (.literal text) (front ++ [.literal (first ++ text)])
  | apart (segments : List Segment) (segment : Segment) (filled : segment ≠ .literal "")
      (apart : ∀ last ∈ segments.getLast?, ¬(last.isLiteral ∧ segment.isLiteral)) :
      Pushed segments segment (segments ++ [segment])

theorem push_empty (segments : List Segment) : push segments (.literal "") = segments := by
  rw [push, if_pos rfl]

theorem push_run (front : List Segment) (first : String) (nonempty : text ≠ "") :
    push (front ++ [.literal first]) (.literal text) = front ++ [.literal (first ++ text)] := by
  rw [push, if_neg nonempty, List.getLast?_concat]
  exact congrArg (· ++ _) List.dropLast_concat

theorem push_apart (nonempty : text ≠ "")
    (apart : ∀ last ∈ segments.getLast?, last.isLiteral = false) :
    push segments (.literal text) = segments ++ [.literal text] := by
  rw [push, if_neg nonempty]
  split
  · next last => exact nomatch apart _ last
  · rfl

theorem endsInRun_or (segments : List Segment) :
    (∃ front first, segments = front ++ [.literal first]) ∨
      ∀ last ∈ segments.getLast?, last.isLiteral = false := by
  cases last : segments.getLast? with
  | none => exact .inr nofun
  | some segment =>
    cases segment with
    | literal first =>
      obtain ⟨front, rfl⟩ := List.getLast?_eq_some_iff.mp last
      exact .inl ⟨front, first, rfl⟩
    | numbering n =>
      refine .inr ?_
      rintro _ ⟨⟩
      rfl

theorem pushed_push (segments : List Segment) (segment : Segment) :
    Pushed segments segment (push segments segment) := by
  cases segment with
  | numbering n => exact .apart segments _ nofun fun _ _ both => Bool.false_ne_true both.2
  | literal text =>
    by_cases empty : text = ""
    · subst empty
      rw [push_empty]
      exact .empty segments
    · obtain ⟨front, first, rfl⟩ | apart := endsInRun_or segments
      · rw [push_run front first empty]
        exact .run front first text empty
      · rw [push_apart empty apart]
        refine .apart segments _ (fun same => empty (Segment.literal.inj same)) ?_
        exact fun last here both => Bool.false_ne_true ((apart last here).symm.trans both.1)

theorem pieces_concat (segments : List Segment) (segment : Segment) :
    pieces (segments ++ [segment]) = pieces segments ++ segment.pieces := by
  rw [pieces, List.flatMap_append, List.flatMap_singleton]
  rfl

theorem isCanonical_concat :
    IsCanonical (segments ++ [segment]) ↔ IsCanonical segments ∧ segment ≠ .literal "" ∧
      ∀ last ∈ segments.getLast?, ¬(last.isLiteral ∧ segment.isLiteral) := by
  constructor
  · rintro ⟨filled, apart⟩
    obtain ⟨front, -, apart⟩ := List.isChain_append.mp apart
    refine ⟨⟨fun member => filled (List.mem_append_left _ member), front⟩, ?_, fun last here => ?_⟩
    · rintro rfl
      exact filled List.mem_concat_self
    · exact apart last here segment rfl
  · rintro ⟨⟨filled, front⟩, nonempty, apart⟩
    refine ⟨fun member => ?_, List.isChain_append.mpr ⟨front, .singleton _, ?_⟩⟩
    · obtain inside | last := List.mem_append.mp member
      · exact filled inside
      · exact nonempty (List.mem_singleton.mp last).symm
    · rintro last here _ ⟨⟩
      exact apart last here

theorem Pushed.pieces {after : List Segment} (pushed : Pushed segments segment after) :
    pieces after = Segments.pieces segments ++ segment.pieces := by
  cases pushed with
  | empty => exact (List.append_nil _).symm
  | run front first text nonempty =>
    rw [pieces_concat, pieces_concat, List.append_assoc]
    simp only [Segment.pieces, String.toList_append, List.map_append]
  | apart => exact pieces_concat _ _

theorem Pushed.isCanonical {after : List Segment} (pushed : Pushed segments segment after)
    (canonical : IsCanonical segments) : IsCanonical after := by
  cases pushed with
  | empty => exact canonical
  | run front first text nonempty =>
    obtain ⟨canonical, -, apart⟩ := isCanonical_concat.mp canonical
    refine isCanonical_concat.mpr ⟨canonical, fun empty => nonempty ?_, apart⟩
    exact (String.append_eq_empty_iff.mp (Segment.literal.inj empty)).2
  | apart _ _ filled apart => exact isCanonical_concat.mpr ⟨canonical, filled, apart⟩

theorem pieces_push (segments : List Segment) (segment : Segment) :
    pieces (push segments segment) = pieces segments ++ segment.pieces :=
  (pushed_push segments segment).pieces

theorem IsCanonical.push (canonical : IsCanonical segments) (segment : Segment) :
    IsCanonical (push segments segment) :=
  (pushed_push segments segment).isCanonical canonical

/-- Two runs put in one after the other are one. -/
theorem push_push (segments : List Segment) (first second : String) :
    push (push segments (.literal first)) (.literal second) =
      push segments (.literal (first ++ second)) := by
  by_cases none : first = ""
  · rw [none, push_empty, String.empty_append]
  by_cases done : second = ""
  · rw [done, push_empty, String.append_empty]
  have filled : first ++ second ≠ "" := fun empty => none (String.append_eq_empty_iff.mp empty).1
  obtain ⟨front, run, rfl⟩ | apart := endsInRun_or segments
  · rw [push_run front run none, push_run front _ done, push_run front run filled,
      String.append_assoc]
  · rw [push_apart none apart, push_run segments first done, push_apart filled apart]

/-- However a literal is cut into parts, the same comes about when they are put in. -/
theorem foldl_push_literal (segments : List Segment) (parts : List String) :
    (parts.map Segment.literal).foldl push segments =
      push segments (.literal (String.join parts)) := by
  induction parts generalizing segments with
  | nil => exact (push_empty segments).symm
  | cons part parts ih => rw [List.map_cons, List.foldl_cons, ih, push_push, String.join_cons]

end Push

end Segments

namespace Template

variable {t : Template}

theorem segments_push (t : Template) (segment : Segment) :
    (t.push segment).segments = Segments.push t.segments segment := by
  refine segments_eq_iff.mpr ⟨(isCanonical_segments t).push segment, ?_⟩
  rw [Segments.pieces_push, pieces_segments]
  rfl

theorem segments_foldl_push (t : Template) (segments : List Segment) :
    (segments.foldl push t).segments = segments.foldl Segments.push t.segments := by
  induction segments generalizing t with
  | nil => rfl
  | cons segment segments ih => rw [List.foldl_cons, List.foldl_cons, ih, segments_push]

theorem foldl_push (t : Template) (segments : List Segment) :
    segments.foldl push t = ⟨t.pieces ++ segments.flatMap Segment.pieces⟩ := by
  induction segments generalizing t with
  | nil => exact congrArg mk (List.append_nil _).symm
  | cons segment segments ih =>
    rw [List.foldl_cons, ih, List.flatMap_cons, ← List.append_assoc]
    rfl

theorem segments_ofSegments (segments : List Segment) :
    (ofSegments segments).segments = segments.foldl Segments.push [] := by
  rw [← show empty.segments = [] from rfl, ← segments_foldl_push, foldl_push]
  rfl

theorem segments_ofText (text : String) : (ofText text).segments = Segments.ofText text := by
  refine segments_eq_iff.mpr ?_
  unfold Segments.ofText
  split
  · next empty =>
    subst empty
    exact ⟨Segments.isCanonical_nil, rfl⟩
  · next filled =>
    refine ⟨Segments.isCanonical_literal.mpr ⟨filled, nofun, Segments.isCanonical_nil⟩, ?_⟩
    exact List.flatMap_singleton _ _

theorem ofList_chars (t : Template) (index limit : Nat) :
    String.ofList (t.chars index limit) = Segments.toText index limit t.segments := by
  rw [chars, ← pieces_segments t, Segments.pieces, List.flatMap_assoc]
  refine String.toList_inj.mp ?_
  rw [String.toList_ofList, Segments.toText, String.toList_join, List.flatMap_map]
  congr 1
  funext segment
  cases segment with
  | literal text => simp [Segment.pieces, Piece.chars, List.flatMap_map]
  | numbering n => simp [Segment.pieces, Piece.chars]

theorem segments_resolve (t : Template) (index limit : Nat) :
    (t.resolve index limit).segments =
      Segments.ofText (Segments.toText index limit t.segments) := by
  rw [← ofList_chars, ← segments_ofText, ofText, String.toList_ofList]
  rfl

theorem segments_ofSelector (s : List Char) :
    (ofSelector s).segments = Segments.readSelector [] s :=
  segments_ofSegments (selectorSegments s)

theorem segments_ofBraces? (s : List Char) :
    Segments.readBraced? [] s = (ofBraces? s).map fun (t, rest) => (t.segments, rest) := by
  rw [Segments.readBraced?, ofBraces?, Option.map_map]
  congr 1
  funext found
  exact congrArg (·, found.2) (segments_ofSegments found.1).symm

theorem mapM_char?_eq_some {pieces : List Piece} {run : List Char} :
    pieces.mapM Piece.char? = some run ↔ pieces = run.map .char := by
  induction pieces generalizing run with
  | nil => cases run <;> simp
  | cons piece pieces ih =>
    rw [List.mapM_cons]
    cases piece with
    | number n => cases run <;> simp [Piece.char?]
    | char c => cases run <;> simp [Piece.char?, Option.bind_eq_some_iff, ih, and_comm]

/-- A template whose text is known is no more than that text. -/
theorem literal?_eq_some_iff : t.literal? = some text ↔ t = ofText text := by
  rw [literal?, Option.map_eq_some_iff]
  constructor
  · rintro ⟨run, pieces, rfl⟩
    rw [ofText, String.toList_ofList]
    exact congrArg mk (mapM_char?_eq_some.mp pieces)
  · rintro rfl
    exact ⟨text.toList, mapM_char?_eq_some.mpr rfl, String.ofList_toList⟩

end Template

namespace Segments

/-- Segments in normal form without a token are those of a text. -/
theorem IsCanonical.eq_ofText (canonical : IsCanonical segments)
    (free : ∀ n, .numbering n ∉ segments) : ∃ text, segments = ofText text := by
  match segments with
  | [] => exact ⟨"", rfl⟩
  | .numbering n :: _ => exact absurd List.mem_cons_self (free n)
  | [.literal text] =>
    exact ⟨text, (if_neg (isCanonical_literal.mp canonical).1).symm⟩
  | .literal _ :: .numbering n :: _ =>
    exact absurd (List.mem_cons_of_mem _ List.mem_cons_self) (free n)
  | .literal _ :: .literal _ :: _ =>
    exact nomatch (isCanonical_literal.mp canonical).2.1 _ rfl

theorem numbering_not_mem_ofText (n : Numbering) (text : String) : .numbering n ∉ ofText text := by
  unfold ofText
  split <;> simp

theorem toText_ofText (index limit : Nat) (text : String) :
    toText index limit (ofText text) = text := by
  unfold ofText
  split
  · next empty => exact empty.symm
  · simp [toText]

theorem literal?_eq_some_iff (canonical : IsCanonical segments) :
    literal? segments = some text ↔ segments = ofText text := by
  constructor
  · intro whole
    unfold literal? at whole
    split at whole
    · exact (if_pos (Option.some.inj whole).symm).symm
    · obtain rfl := Option.some.inj whole
      exact (if_neg (isCanonical_literal.mp canonical).1).symm
    · contradiction
  · rintro rfl
    unfold ofText
    split
    · next empty => exact congrArg some empty.symm
    · rfl

end Segments

namespace Template

variable {t : Template}

theorem eq_ofText_iff : t = ofText text ↔ t.segments = Segments.ofText text := by
  rw [← segments_ofText]
  exact segments_injective.eq_iff.symm

theorem literal?_eq (t : Template) : t.literal? = Segments.literal? t.segments := by
  refine Option.ext fun text => ?_
  rw [literal?_eq_some_iff, eq_ofText_iff,
    Segments.literal?_eq_some_iff (isCanonical_segments t)]

theorem literal?_eq_some_iff_free :
    t.literal? = some text ↔ (∀ n, .numbering n ∉ t.segments) ∧ text = t.toText := by
  have shown : t.toText = Segments.toText 0 1 t.segments := ofList_chars t 0 1
  rw [literal?_eq_some_iff, eq_ofText_iff, shown]
  constructor
  · intro whole
    rw [whole, Segments.toText_ofText]
    exact ⟨fun n => Segments.numbering_not_mem_ofText n text, rfl⟩
  · rintro ⟨free, rfl⟩
    obtain ⟨text, whole⟩ := (isCanonical_segments t).eq_ofText free
    rw [whole, Segments.toText_ofText]

end Template

end Shorthand
