import Shorthand.Proofs.Style.Arguments
import Shorthand.Proofs.Style.Token
import Shorthand.Proofs.Text.Trim
import Shorthand.Style.Declaration
import Shorthand.Tables.Builtin

/-! What becomes of the `+` that a token keeps. The key reaches to the first blank, `#` or
digit, be there a `+` on the way or not. So the `+` separates arguments exactly where the
piece in front of it carries an argument already and does not end in a word; else it is
part of the key, or of the word. -/
namespace Shorthand.Style

variable {tables : Tables} {s b v piece next token : List Char}

/-- What a piece at the front of a token holds behind the vendors. -/
def bodyOf (piece : List Char) : List Char := (vendorPart (trimStart piece)).2

/-- An argument begins in the piece: behind the vendors stands a blank, a `#` or a digit. -/
def carriesArgument (piece : List Char) : Bool := (bodyOf piece).any (!isKeyChar ·)

/-- The text of the arguments that begin in the piece. -/
def argumentText (piece : List Char) : List Char := (keyPart (bodyOf piece)).2

/-- What a piece at the end of a token holds in front of blanks and the mark of importance. -/
def endOf (piece : List Char) : List Char := (importantPart (trimEnd piece)).1

section Parts

theorem vendorPart_of_ne {c : Char} (plain : c ≠ '-') (s : List Char) :
    vendorPart (c :: s) = (.none, c :: s) := by
  simp [vendorPart, plain]

theorem vendorPart_plus (s v : List Char) :
    vendorPart (s ++ '+' :: v) = withRest ('+' :: v) (vendorPart s) := by
  have letter : isVendorLetter '+' = false := by decide
  cases s with
  | nil => rfl
  | cons c s =>
    by_cases sign : c = '-'
    · subst sign
      simp only [List.cons_append, vendorPart, takeWhile_before letter, dropWhile_before letter]
      cases s.takeWhile isVendorLetter with
      | nil => rfl
      | cons c letters =>
        cases s.dropWhile isVendorLetter with
        | nil => rfl
        | cons d rest =>
          by_cases close : d = '-'
          · subst close
            rfl
          · simp [close, withRest]
    · rw [List.cons_append, vendorPart_of_ne sign, vendorPart_of_ne sign]
      rfl

theorem dropLast?_append_cons {c d : Char} (other : d ≠ c) (s v : List Char) :
    dropLast? c (s ++ d :: v) = (dropLast? c v).map (s ++ d :: ·) := by
  unfold dropLast?
  cases v with
  | nil => simp [other]
  | cons e v =>
    have last : (s ++ d :: e :: v).getLast? = (e :: v).getLast? :=
      getLast?_eq_of_suffix ⟨s ++ [d], by simp⟩ (List.cons_ne_nil e v)
    rw [last]
    split
    · simp
    · rfl

theorem importantPart_plus (s v : List Char) :
    (importantPart (s ++ '+' :: v)).1 = s ++ '+' :: (importantPart v).1 := by
  unfold importantPart
  rw [dropLast?_append_cons (by decide)]
  cases dropLast? '!' v <;> rfl

/-- The key is what is made of key characters, but for a sign or point that is handed over. -/
theorem keyPart_eq (b : List Char) :
    keyPart b = (b.takeWhile isKeyChar, b.dropWhile isKeyChar) ∨
      ∃ key mark, (mark = '-' ∨ mark = '.') ∧ b.takeWhile isKeyChar = key ++ [mark] ∧
        keyPart b = (key, mark :: b.dropWhile isKeyChar) := by
  unfold keyPart
  dsimp only
  split
  · next mark c rest last args =>
    split
    · next moved =>
      refine .inr ⟨_, mark, moved.1, (List.dropLast_append_getLast? mark last).symm, rfl⟩
    · exact .inl rfl
  · exact .inl rfl

/-- Key and arguments are all of the body. -/
theorem keyPart_append (b : List Char) : (keyPart b).1 ++ (keyPart b).2 = b := by
  obtain same | ⟨key, mark, -, split, same⟩ := keyPart_eq b
  · rw [same, List.takeWhile_append_dropWhile]
  · rw [same]
    calc key ++ mark :: b.dropWhile isKeyChar
        = (key ++ [mark]) ++ b.dropWhile isKeyChar := by simp
      _ = b := by rw [← split, List.takeWhile_append_dropWhile]

/-- In a body without arguments the key goes on behind the `+`. -/
theorem plus_mem_keyPart (key : ∀ c ∈ b, isKeyChar c) (v : List Char) :
    '+' ∈ (keyPart (b ++ '+' :: v)).1 := by
  have whole : (b ++ '+' :: v).takeWhile isKeyChar = b ++ '+' :: v.takeWhile isKeyChar := by
    rw [List.takeWhile_append_of_pos key, List.takeWhile_cons, if_pos (by decide)]
  have member : '+' ∈ (b ++ '+' :: v).takeWhile isKeyChar := by simp [whole]
  obtain same | ⟨front, mark, sign, split, same⟩ := keyPart_eq (b ++ '+' :: v)
  · rwa [same]
  · rw [split, List.mem_append, List.mem_singleton] at member
    rw [same]
    refine member.resolve_right fun plus => ?_
    rw [← plus] at sign
    exact absurd sign (by decide)

/-- In a body with an argument the `+` stays behind the key. -/
theorem keyPart_plus (argument : b.any (!isKeyChar ·)) (v : List Char) :
    keyPart (b ++ '+' :: v) = withRest ('+' :: v) (keyPart b) := by
  have ends : b.dropWhile isKeyChar ≠ [] := fun none => by
    obtain ⟨c, member, other⟩ := List.any_eq_true.mp argument
    rw [List.dropWhile_eq_nil_iff.mp none c member] at other
    contradiction
  unfold keyPart
  dsimp only
  rw [takeWhile_append_of_ends ends, dropWhile_append_of_ends ends]
  cases args : b.dropWhile isKeyChar with
  | nil => exact absurd args ends
  | cons c rest =>
    cases (b.takeWhile isKeyChar).getLast? with
    | none => rfl
    | some mark =>
      dsimp only [List.cons_append]
      split <;> rfl

end Parts

section Declaration

theorem bodyOf_token (piece next : List Char) :
    (vendorPart (importantPart (trim (piece ++ '+' :: next))).1).2 =
      bodyOf piece ++ '+' :: endOf next := by
  rw [trim_append_cons (by decide), importantPart_plus, vendorPart_plus]
  rfl

theorem key_plus (tables : Tables) (piece next : List Char) :
    (declaration tables (piece ++ '+' :: next)).key.toList =
      (keyPart (bodyOf piece ++ '+' :: endOf next)).1 := by
  rw [← bodyOf_token]
  exact String.toList_ofList

theorem args_plus (tables : Tables) (piece next : List Char) :
    (declaration tables (piece ++ '+' :: next)).args =
      arguments tables (keyPart (bodyOf piece ++ '+' :: endOf next)).2 := by
  rw [← bodyOf_token]
  rfl

theorem vendorPart_suffix (s : List Char) : (vendorPart s).2 <:+ s := by
  unfold vendorPart
  split
  · next s =>
    have inner : s.dropWhile isVendorLetter <:+ '-' :: s :=
      (List.dropWhile_suffix _).trans (List.suffix_cons '-' s)
    split
    · next rest _ close => exact (List.suffix_cons '-' rest).trans (close ▸ inner)
    · exact List.suffix_cons '-' s
  · exact List.suffix_rfl

theorem bodyOf_suffix (piece : List Char) : bodyOf piece <:+ piece :=
  (vendorPart_suffix _).trans (List.dropWhile_suffix _)

theorem importantPart_subset (s : List Char) : (importantPart s).1 ⊆ s := by
  unfold importantPart dropLast?
  split
  · next body found =>
    split at found
    · obtain rfl := Option.some.inj found
      exact List.dropLast_subset s
    · contradiction
  · exact List.Subset.refl s

/-- A key is made of characters of its token. -/
theorem key_subset (tables : Tables) (token : List Char) :
    (declaration tables token).key.toList ⊆ token := by
  have body : (vendorPart (importantPart (trim token)).1).2 ⊆ token :=
    List.Subset.trans (vendorPart_suffix _).subset
      (List.Subset.trans (importantPart_subset _) (trim_subset token))
  have key : (declaration tables token).key.toList =
      (keyPart (vendorPart (importantPart (trim token)).1).2).1 := String.toList_ofList
  rw [key]
  refine List.Subset.trans ?_ body
  have whole := keyPart_append (vendorPart (importantPart (trim token)).1).2
  intro c member
  exact whole ▸ List.mem_append_left _ member

/-- The `+` is part of the key unless an argument begins in front of it. -/
theorem plus_mem_key_iff (clean : '+' ∉ piece) (next : List Char) :
    '+' ∈ (declaration tables (piece ++ '+' :: next)).key.toList ↔
      carriesArgument piece = false := by
  rw [key_plus]
  cases carries : carriesArgument piece with
  | false =>
    refine iff_of_true (plus_mem_keyPart (fun c member => ?_) _) rfl
    by_contra other
    exact List.any_eq_false.mp carries c member (by simp [other])
  | true =>
    rw [keyPart_plus carries]
    refine iff_of_false (fun member => clean ?_) Bool.noConfusion
    have front : '+' ∈ bodyOf piece := keyPart_append (bodyOf piece) ▸ List.mem_append_left _ member
    exact (bodyOf_suffix piece).subset front

/-- The key does not hold the `+`, and the arguments are those in front and those behind. -/
def Separates (tables : Tables) (piece next : List Char) : Prop :=
  '+' ∉ (declaration tables (piece ++ '+' :: next)).key.toList ∧
    (declaration tables (piece ++ '+' :: next)).args =
      arguments tables (argumentText piece) ++ arguments tables (endOf next)

theorem separates_iff (clean : '+' ∉ piece) (suffixes : SuffixesAvoid '+' tables.preferences)
    (next : List Char) :
    Separates tables piece next ↔
      carriesArgument piece ∧ endsInWord tables (argumentText piece) = false := by
  have text : '+' ∉ argumentText piece := fun member => clean <| (bodyOf_suffix piece).subset <|
    keyPart_append (bodyOf piece) ▸ List.mem_append_right _ member
  rw [Separates, plus_mem_key_iff clean, Bool.not_eq_false]
  refine and_congr_right fun carries => ?_
  have args : (declaration tables (piece ++ '+' :: next)).args =
      arguments tables (argumentText piece ++ '+' :: endOf next) := by
    rw [args_plus, keyPart_plus carries]
    rfl
  rw [args]
  constructor
  · intro separated
    refine Bool.eq_false_iff.mpr fun reaches => ?_
    obtain ⟨first, word, front, read⟩ :=
      arguments_of_endsInWord (by decide) (by decide) suffixes text reaches (endOf next)
    rw [read, front, List.append_assoc, List.append_cancel_left_eq,
      List.singleton_append] at separated
    have longer := Argument.word.inj (List.cons.inj separated).1
    simpa using congrArg String.length longer
  · exact fun ends => arguments_append (by decide) suffixes (fun _ => ⟨text, ends⟩) _

end Declaration

/-- The key of a token has no `+` exactly if the piece in front of the `+`, if there is one,
carries an argument. Where no suffix of a color holds a `+` either, the `+` separates the
arguments around it exactly if, besides, the piece does not end in a word. -/
theorem plus_separates_iff (tables : Tables) (member : token ∈ tokens s) :
    ('+' ∉ (declaration tables token).key.toList ↔
      ∀ piece next, token = piece ++ '+' :: next → carriesArgument piece) ∧
    (SuffixesAvoid '+' tables.preferences →
      ∀ piece next, token = piece ++ '+' :: next →
        (Separates tables piece next ↔
          carriesArgument piece ∧ endsInWord tables (argumentText piece) = false)) := by
  refine ⟨⟨?_, ?_⟩, ?_⟩
  · rintro clear piece next rfl
    have clean := (plus_not_mem_of_mem_tokens member).1
    rwa [plus_mem_key_iff clean, Bool.not_eq_false] at clear
  · intro carries inKey
    obtain ⟨piece, next, rfl⟩ := List.append_of_mem (key_subset tables token inKey)
    have clean := (plus_not_mem_of_mem_tokens member).1
    rw [plus_mem_key_iff clean, carries piece next rfl] at inKey
    contradiction
  · rintro suffixes piece next rfl
    exact separates_iff (plus_not_mem_of_mem_tokens member).1 suffixes next

/-- A border with a width and a color, behind which another declaration begins. -/
theorem plus_separates_border :
    "bd1+#000".toList ∈ tokens "bd1+#000+m5".toList ∧
      carriesArgument "bd1".toList ∧ SuffixesAvoid '+' Tables.builtin.preferences ∧
      '+' ∉ (declaration Tables.builtin "bd1+#000".toList).key.toList ∧
      (declaration Tables.builtin "bd1+#000".toList).args =
        [.numeric "1" "px" true, .color "000000" false none] := by
  have member : "bd1+#000".toList ∈ tokens "bd1+#000+m5".toList := by decide
  have suffixes : SuffixesAvoid '+' Tables.builtin.preferences := by
    simp [SuffixesAvoid, Tables.builtin, Table.keys]
  have read := (plus_separates_iff Tables.builtin member).2 suffixes "bd1".toList "#000".toList rfl
  obtain ⟨key, args⟩ := read.mpr ⟨by decide, by cbv⟩
  exact ⟨member, by decide, suffixes, key, args.trans (by cbv)⟩

/-- No argument begins in front of a `+` before a negative number, so it is part of the key. -/
theorem sign_leaves_plus_in_key :
    tokens "trf+-1".toList = ["trf+-1".toList] ∧
      (declaration Tables.builtin "trf+-1".toList).key = "trf+" := by
  decide

end Shorthand.Style
