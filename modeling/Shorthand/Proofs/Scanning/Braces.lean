import Shorthand.Node.Copies
import Shorthand.Proofs.Scanning.Locality
import Shorthand.Proofs.Template.Building

/-! Text and selectors. Inside braces a backslash and a closing brace have a meaning of their own.
Text without them is walked through from character to character, where a selector is cut at its
signs, and yet the same literals and tokens are found in the same order. So what is written the
same in the name, id, class, attribute value and text of a tag is the same there,
and a numbering token in it counts the same. -/
namespace Shorthand

variable {s rest key : List Char}

/-- Text that is closed where it is written as closed: no character of it is escaped, and none
closes it. -/
def IsPlainText (s : List Char) : Prop := ∀ c ∈ s, c ≠ '\\' ∧ c ≠ '}'

namespace Template

theorem push_ofList (run : List Char) (c : Char) :
    (String.ofList run).push c = String.ofList (run ++ [c]) := by
  rw [← String.toList_inj, String.toList_push, String.toList_ofList, String.toList_ofList]

/-- The walk through text in braces finds what is cut out of a selector, literal by literal and
token by token. None of the characters that wait in the run begins a token. -/
theorem bracedSegments?_plain (plain : IsPlainText s) {run : List Char}
    (waiting : ∀ c ∈ run, c != '$') (rest : List Char) :
    bracedSegments? (String.ofList run) (s ++ '}' :: rest) =
      some (selectorSegments (run ++ s), rest) := by
  -- the recursion goes from token to token, as the selector is cut
  fun_induction piecesOf s generalizing run with
  | case1 =>
    rw [List.nil_append, bracedSegments?_close, List.append_nil, selectorSegments_run waiting]
  | case2 s ih =>
    have left : IsPlainText (Numbering.read s).2 := fun c member =>
      plain c (List.mem_cons_of_mem _ ((Numbering.read_suffix s).subset member))
    have token : Numbering.read (s ++ '}' :: rest) =
        ((Numbering.read s).1, (Numbering.read s).2 ++ '}' :: rest) :=
      Numbering.read_append fun _ => stops_cons.mpr (by decide +kernel)
    have none : ∀ c ∈ ([] : List Char), c != '$' := List.forall_mem_nil _
    have behind := ih left none
    rw [List.nil_append] at behind
    rw [List.cons_append, bracedSegments?_number, token, selectorSegments_number waiting]
    exact congrArg (Option.map _) behind
  | case3 c s number ih =>
    obtain ⟨escape, close⟩ := plain c List.mem_cons_self
    have left : IsPlainText s := fun d member => plain d (List.mem_cons_of_mem _ member)
    have longer : ∀ d ∈ run ++ [c], d != '$' :=
      List.forall_mem_append.mpr ⟨waiting, List.forall_mem_singleton.mpr (bne_iff_ne.mpr number)⟩
    rw [List.cons_append, bracedSegments?_char _ _ close escape number, push_ofList,
      ih left longer, List.append_assoc]
    rfl

end Template

namespace Abbreviation

/-- What follows the name of a tag that has `s` for its id, its class, the value of its attribute
`key` and its text. -/
def uniformBody (key s : List Char) : List Char :=
  '#' :: (s ++ '.' :: (s ++ '[' :: (key ++ '=' :: '"' :: (s ++ '"' :: ']' :: '{' :: (s ++ ['}'])))))

/-- The tag with `t` in all its places. -/
def uniformTag (key : List Char) (t : Template) : Tag :=
  { name := t, id := t, classes := [t], properties := [(String.ofList key, t)], text := t }

theorem bracedText_plain (plain : IsPlainText s) (rest : List Char) :
    bracedText (s ++ '}' :: rest) = .ok (.ofSelector s, rest) := by
  have found := Template.bracedSegments?_plain plain (List.forall_mem_nil _) rest
  rw [bracedText, Template.ofBraces?, show "" = String.ofList [] from rfl, found]
  rfl

theorem attributes_quoted (named : key ≠ []) (keyChars : ∀ c ∈ key, isKeyChar c)
    (closed : '"' ∉ s) (rest : List Char) :
    attributes (key ++ '=' :: '"' :: (s ++ '"' :: ']' :: rest)) =
      .ok ([(String.ofList key, .ofSelector s)], rest) := by
  refine attributes_eq_ok.mpr ⟨[(key, .quoted s)], ?_, rfl⟩
  rw [attributeList_quoted [] named keyChars closed]
  exact attributeList_close _ rfl

theorem tagBody_uniformBody (nonempty : s ≠ []) (chars : ∀ c ∈ s, isIdentifierChar c)
    (named : key ≠ []) (keyChars : ∀ c ∈ key, isKeyChar c) (rest : List Char) :
    tagBody (.ofSelector s) true (uniformBody key s ++ rest) =
      .ok (uniformTag key (.ofSelector s), rest) := by
  have excludes {c : Char} (other : isIdentifierChar c = false) : c ∉ s := fun member =>
    Bool.false_ne_true (other.symm.trans (chars c member))
  have plain : IsPlainText s := fun c member =>
    ⟨fun same => excludes (by decide) (same ▸ member),
      fun same => excludes (by decide) (same ▸ member)⟩
  have found : qualifiers [] (uniformBody key s ++ rest) =
      .ok ([.id (.ofSelector s), .className (.ofSelector s),
          .attributes [(String.ofList key, .ofSelector s)]],
        '{' :: (s ++ '}' :: rest)) := by
    simp only [uniformBody, List.cons_append, List.append_assoc, List.nil_append]
    rw [qualifiers_id [] (identifier_run nonempty chars (stops_cons.mpr (by decide))),
      qualifiers_className _ (identifier_run nonempty chars (stops_cons.mpr (by decide))),
      qualifiers_attributes _ (attributes_quoted named keyChars (excludes (by decide)) _),
      qualifiers_end _ (by simp)]
    rfl
  refine tagBody_eq_ok.mpr ⟨_, _, some (.ofSelector s), found, ?_, rfl⟩
  rw [optionalText, bracedText_plain plain rest]
  rfl

/-- Plain text in braces is what a selector of the same characters is: the scanners find the same
literals and tokens in it, and these are put together to the same segments. So a tag that is
written with one and the same row of characters as its name, id, class, attribute value and text
has one and the same template in all five places, and so has each copy of it. -/
theorem plain_text_agrees (plain : IsPlainText s) (rest : List Char) :
    Template.bracedSegments? "" (s ++ '}' :: rest) = some (Template.selectorSegments s, rest) ∧
    Segments.readBraced? [] (s ++ '}' :: rest) = some (Segments.readSelector [] s, rest) ∧
    bracedText (s ++ '}' :: rest) = .ok (.ofSelector s, rest) ∧
    (s ≠ [] → (∀ c ∈ s, isNameChar c ∧ isIdentifierChar c) →
      ∀ key ≠ [], (∀ c ∈ key, isKeyChar c) →
        tagName (s ++ (uniformBody key s ++ rest)) = (s, true, uniformBody key s ++ rest) ∧
        tagBody (.ofSelector s) true (uniformBody key s ++ rest) =
          .ok (uniformTag key (.ofSelector s), rest) ∧
        ∀ index count, (uniformTag key (.ofSelector s)).instantiate index count =
          uniformTag key ((Template.ofSelector s).resolve index count)) := by
  have found := Template.bracedSegments?_plain plain (List.forall_mem_nil _) rest
  refine ⟨found, congrArg (Option.map _) found, bracedText_plain plain rest,
    fun nonempty chars key named keyChars => ⟨?_,
      tagBody_uniformBody nonempty (fun c member => (chars c member).2) named keyChars rest,
      fun _ _ => rfl⟩⟩
  have name : ∀ c ∈ s, isNameChar c := fun c member => (chars c member).1
  have stop : Stops isNameChar (uniformBody key s ++ rest) := stops_cons.mpr (by decide)
  have left : (s ++ (uniformBody key s ++ rest)).dropWhile isNameChar = uniformBody key s ++ rest :=
    dropWhile_run name stop
  rw [tagName_plain (by rw [left]; simp [uniformBody]), left, takeWhile_run name stop]

/-- In the second of three copies that count down to 4, all five places show 05. -/
theorem plain_text_agrees_five :
    ∃ tag, tagBody (.ofSelector "a$$@-4".toList) true
          ("#a$$@-4.a$$@-4[k=\"a$$@-4\"]\x7ba$$@-4\x7d".toList ++ ">b".toList) =
        .ok (tag, ">b".toList) ∧
      tag.instantiate 1 3 = uniformTag ['k'] (.ofText "a05") := by
  have plain : IsPlainText "a$$@-4".toList := forall_mem_of_all (by decide)
  have nonempty : "a$$@-4".toList ≠ [] := by decide
  have chars : ∀ c ∈ "a$$@-4".toList, isNameChar c ∧ isIdentifierChar c :=
    forall_mem_of_all (by decide)
  have token : Numbering.read "$@-4".toList = (⟨2, false, 4⟩, []) := by decide +kernel
  have template : Template.ofSelector "a$$@-4".toList = ⟨[.char 'a', .number ⟨2, false, 4⟩]⟩ := by
    have number := Template.piecesOf_number "$@-4".toList
    rw [token, Template.piecesOf] at number
    have pieces := (Template.piecesOf_char _ (by decide)).trans (congrArg (Piece.char 'a' :: ·) number)
    exact (Template.ofSelector_eq _).trans (congrArg Template.mk pieces)
  obtain ⟨-, -, -, places⟩ := plain_text_agrees plain ">b".toList
  obtain ⟨-, read, copies⟩ :=
    places nonempty chars ['k'] (by decide) (forall_mem_of_all (by decide))
  refine ⟨_, read, (copies 1 3).trans (congrArg (uniformTag ['k']) ?_)⟩
  rw [template]
  decide

end Abbreviation

end Shorthand
