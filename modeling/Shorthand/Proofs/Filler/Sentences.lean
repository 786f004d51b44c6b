import Mathlib
import Shorthand.Filler.Text
import Shorthand.Proofs.Scanning.Span
import Shorthand.Proofs.Text.Lines
import Shorthand.Text.Blank

/-! The form of filler text, whatever the source, which only has to keep the bounds that it is
given. So a sentence has at most thirty words, and falls short of five only as the last one, where
no more are owed. Its words are those of the corpus from some place on, but for the capital letter of
the first and the mark of the last. -/
namespace Shorthand

section Words

/-- The words of a text: its runs of characters between blanks. -/
def wordsOf (text : String) : List String :=
  ((text.toList.splitOnP isBlank).filter (· ≠ [])).map String.ofList

/-- A word as it may stand between blanks. -/
def IsSolid (word : String) : Prop := word.toList ≠ [] ∧ ∀ c ∈ word.toList, isBlank c = false

/-- Words with single blanks between them are the words of the text. -/
theorem wordsOf_intercalate {words : List String} (solid : ∀ word ∈ words, IsSolid word) :
    wordsOf (" ".intercalate words) = words := by
  have split : ∀ words : List String, words ≠ [] → (∀ word ∈ words, IsSolid word) →
      (" ".intercalate words).toList.splitOnP isBlank = words.map String.toList := by
    intro words nonempty solid
    induction words with
    | nil => contradiction
    | cons word rest ih =>
      obtain ⟨first, later⟩ := List.forall_mem_cons.mp solid
      cases rest with
      | nil => simpa using List.splitOnP_eq_singleton first.2
      | cons next rest =>
        have joined : (" ".intercalate (word :: next :: rest)).toList =
            word.toList ++ ' ' :: (" ".intercalate (next :: rest)).toList := by
          rw [String.intercalate_cons_cons]
          simp
        rw [joined, List.splitOnP_append_cons_of_forall_mem first.2 _ (by decide),
          ih (by simp) later]
        rfl
  cases words with
  | nil => rfl
  | cons word rest =>
    have filled : ((word :: rest).map String.toList).filter (· ≠ []) =
        (word :: rest).map String.toList :=
      List.filter_eq_self.mpr fun letters member => by
        obtain ⟨word, here, rfl⟩ := List.mem_map.mp member
        exact decide_eq_true (solid word here).1
    rw [wordsOf, split _ (by simp) solid, filled, List.map_map]
    exact List.map_id'' (fun word => String.ofList_toList) _

end Words

namespace Filler

section Corpus

variable {word : String} {mark : Char} {letters marks : List Char}

def alphabet : List Char := "abcdefghijklmnopqrstuvwxyz".toList

def terminators : List Char := ['.', '!', '?']

/-- What stands in front of the marks of a word. -/
def stem (word : String) : List Char := word.toList.takeWhile (!isMark ·)

/-- Small letters, and then perhaps marks. -/
structure IsEntry (word : String) : Prop where
  filled : stem word ≠ []
  letters : ∀ c ∈ stem word, c ∈ alphabet
  marks : ∃ marks, word.toList = stem word ++ marks ∧ ∀ c ∈ marks, isMark c

theorem isEntry_corpus {i : Nat} (inside : i < 198) : IsEntry corpus[i] := by
  have checked : corpus.toList.all (fun word => !(stem word).isEmpty &&
      (stem word).all (alphabet.contains ·) &&
        (word.toList.dropWhile (!isMark ·)).all isMark) := by decide +kernel
  have entry := List.all_eq_true.mp checked corpus[i] (by simp)
  simp only [Bool.and_eq_true, Bool.not_eq_true', List.isEmpty_eq_false_iff, List.all_eq_true,
    List.contains_iff_mem] at entry
  obtain ⟨⟨filled, letters⟩, marks⟩ := entry
  exact ⟨filled, letters, _, List.takeWhile_append_dropWhile.symm, marks⟩

/-- A letter of a word, small or capital. -/
structure IsLetter (c : Char) : Prop where
  alpha : c.isAlpha
  unmarked : isMark c = false
  solid : isBlank c = false

theorem alphabet_spec : ∀ c ∈ alphabet, IsLetter c ∧ IsLetter c.toUpper ∧ c.toUpper.isUpper := by
  have checked : ∀ c ∈ alphabet, (c.isAlpha ∧ isMark c = false ∧ isBlank c = false) ∧
      (c.toUpper.isAlpha ∧ isMark c.toUpper = false ∧ isBlank c.toUpper = false) ∧
        c.toUpper.isUpper := forall_mem_of_all (by decide)
  intro c member
  obtain ⟨⟨alpha, unmarked, solid⟩, ⟨alpha', unmarked', solid'⟩, upper⟩ := checked c member
  exact ⟨⟨alpha, unmarked, solid⟩, ⟨alpha', unmarked', solid'⟩, upper⟩

theorem isBlank_of_isMark {c : Char} (closes : isMark c) : isBlank c = false := by
  simp only [isMark, Bool.or_eq_true, beq_iff_eq] at closes
  obtain ((rfl | rfl) | rfl) | rfl := closes <;> decide

theorem terminators_spec : ∀ mark ∈ terminators, isMark mark := forall_mem_of_all (by decide)

theorem toList_capitalize (word : String) :
    (capitalize word).toList = word.toList.modifyHead Char.toUpper := by
  unfold capitalize
  split
  · next empty => rw [empty]; rfl
  · next c rest letters => rw [letters, String.toList_ofList]; rfl

theorem toList_closeWord (text : word.toList = letters ++ marks) (closing : ∀ c ∈ marks, isMark c)
    (open' : ∀ c ∈ letters, isMark c = false) (mark : Char) :
    (closeWord mark word).toList = letters ++ [mark] := by
  have stop : Stops isMark letters.reverse := fun c last =>
    open' c (List.mem_reverse.mp (List.mem_of_head? last))
  rw [closeWord, String.toList_ofList, text, List.reverse_append,
    dropWhile_run (fun c member => closing c (List.mem_reverse.mp member)) stop,
    List.reverse_reverse]

theorem modifyHead_append {f : Char → Char} (filled : letters ≠ []) (marks : List Char) :
    (letters ++ marks).modifyHead f = letters.modifyHead f ++ marks := by
  cases letters with
  | nil => contradiction
  | cons c letters => rfl

theorem IsEntry.small (entry : IsEntry word) : ∀ c ∈ stem word, IsLetter c := fun c member =>
  (alphabet_spec c (entry.letters c member)).1

theorem IsEntry.capital (entry : IsEntry word) :
    ∀ c ∈ (stem word).modifyHead Char.toUpper, IsLetter c := by
  have small := entry.small
  have raised : ∀ c ∈ stem word, IsLetter c.toUpper := fun c member =>
    (alphabet_spec c (entry.letters c member)).2.1
  generalize stem word = letters at small raised ⊢
  cases letters with
  | nil => exact small
  | cons c letters =>
    obtain ⟨-, rest⟩ := List.forall_mem_cons.mp small
    exact List.forall_mem_cons.mpr ⟨raised c List.mem_cons_self, rest⟩

end Corpus

section Place

variable {word : String} {mark : Char} {length i : Nat}

/-- A word of the corpus at some place of a sentence: a capital letter begins the first, and a
mark takes the place of all marks at the end of the last. -/
def inPlace (mark : Char) (length i : Nat) (word : String) : List Char :=
  let letters := if i + 1 = length then stem word ++ [mark] else word.toList
  if i = 0 then letters.modifyHead Char.toUpper else letters

theorem toList_inPlace (entry : IsEntry word) (mark : Char) (length i : Nat) :
    (let word := if i = 0 then capitalize word else word
      if i + 1 = length then closeWord mark word else word).toList =
        inPlace mark length i word := by
  obtain ⟨marks, text, closing⟩ := entry.marks
  have small := fun c member => (entry.small c member).unmarked
  have capital := fun c member => (entry.capital c member).unmarked
  have raised : (capitalize word).toList = (stem word).modifyHead Char.toUpper ++ marks := by
    rw [toList_capitalize, text, modifyHead_append entry.filled]
  unfold inPlace
  dsimp only
  by_cases first : i = 0 <;> by_cases last : i + 1 = length
  · rw [if_pos last, if_pos last, if_pos first, if_pos first,
      toList_closeWord raised closing capital, modifyHead_append entry.filled]
  · rw [if_neg last, if_neg last, if_pos first, if_pos first, toList_capitalize]
  · rw [if_pos last, if_pos last, if_neg first, if_neg first, toList_closeWord text closing small]
  · rw [if_neg last, if_neg last, if_neg first, if_neg first]

/-- Letters, the first perhaps a capital, and marks behind them. -/
theorem inPlace_eq (entry : IsEntry word) (terminates : mark ∈ terminators) (length i : Nat) :
    ∃ letters marks, inPlace mark length i word = letters ++ marks ∧
      letters = (if i = 0 then (stem word).modifyHead Char.toUpper else stem word) ∧
      (∀ c ∈ letters, IsLetter c) ∧ (∀ c ∈ marks, isMark c) ∧
      (i + 1 = length → marks = [mark]) := by
  obtain ⟨marks, text, closing⟩ := entry.marks
  have letters :
      ∀ c ∈ (if i = 0 then (stem word).modifyHead Char.toUpper else stem word), IsLetter c := by
    split
    · exact entry.capital
    · exact entry.small
  have joined : ∀ marks, (if i = 0 then (stem word ++ marks).modifyHead Char.toUpper
      else stem word ++ marks) =
        (if i = 0 then (stem word).modifyHead Char.toUpper else stem word) ++ marks := by
    intro marks
    split
    · exact modifyHead_append entry.filled marks
    · rfl
  unfold inPlace
  dsimp only
  by_cases last : i + 1 = length
  · refine ⟨_, [mark], ?_, rfl, letters,
      List.forall_mem_singleton.mpr (terminators_spec mark terminates), fun _ => rfl⟩
    rw [if_pos last, joined]
  · refine ⟨_, marks, ?_, rfl, letters, closing, fun same => absurd same last⟩
    rw [if_neg last, text, joined]

theorem inPlace_solid (entry : IsEntry word) (terminates : mark ∈ terminators) (length i : Nat) :
    inPlace mark length i word ≠ [] ∧ ∀ c ∈ inPlace mark length i word, isBlank c = false := by
  obtain ⟨letters, marks, text, same, letter, closing, -⟩ := inPlace_eq entry terminates length i
  rw [text]
  refine ⟨?_, List.forall_mem_append.mpr
    ⟨fun c member => (letter c member).solid, fun c member => isBlank_of_isMark (closing c member)⟩⟩
  have filled := entry.filled
  rw [same]
  split <;> simp [filled]

theorem inPlace_zero (entry : IsEntry word) (terminates : mark ∈ terminators) (length : Nat) :
    ∃ c rest, inPlace mark length 0 word = c :: rest ∧ c.isUpper := by
  obtain ⟨_, marks, text, rfl, -⟩ := inPlace_eq entry terminates length 0
  obtain ⟨c, rest, letters⟩ := List.exists_cons_of_ne_nil entry.filled
  have small : c ∈ alphabet := entry.letters c (letters ▸ List.mem_cons_self)
  refine ⟨c.toUpper, rest ++ marks, ?_, (alphabet_spec c small).2.2⟩
  rw [text, if_pos rfl, letters]
  rfl

theorem inPlace_last (entry : IsEntry word) (terminates : mark ∈ terminators) (i : Nat) :
    ∃ letters, inPlace mark (i + 1) i word = letters ++ [mark] ∧ ∀ c ∈ letters, c.isAlpha := by
  obtain ⟨letters, marks, text, -, letter, -, last⟩ := inPlace_eq entry terminates (i + 1) i
  obtain rfl := last rfl
  exact ⟨letters, text, fun c member => (letter c member).alpha⟩

end Place

section Sentence

variable {words : List String} {mark : Char} {start length i : Nat}

theorem length_capitalizeFirst (words : List String) :
    (capitalizeFirst words).length = words.length := by
  cases words <;> rfl

theorem length_closeLast (mark : Char) (words : List String) :
    (closeLast mark words).length = words.length := by
  fun_induction closeLast mark words with
  | case1 => rfl
  | case2 => rfl
  | case3 word next rest ih => rw [List.length_cons, ih]; rfl

theorem getElem?_capitalizeFirst (words : List String) (i : Nat) :
    (capitalizeFirst words)[i]? =
      words[i]?.map fun word => if i = 0 then capitalize word else word := by
  cases words with
  | nil => rfl
  | cons word rest => cases i <;> simp [capitalizeFirst]

theorem getElem?_closeLast (mark : Char) (words : List String) (i : Nat) :
    (closeLast mark words)[i]? =
      words[i]?.map fun word => if i + 1 = words.length then closeWord mark word else word := by
  fun_induction closeLast mark words generalizing i with
  | case1 => rfl
  | case2 => cases i <;> simp
  | case3 word next rest ih =>
    cases i with
    | zero => simp
    | succ i => simpa using ih i

theorem closingMark_mem (choice : Nat) : closingMark choice ∈ terminators := by
  unfold closingMark
  split <;> decide

/-- Words of the corpus one after the other, in the form of a sentence. -/
structure IsSentence (words : List String) : Prop where
  corpus : ∃ start, ∃ mark ∈ terminators, ∀ i (inside : i < words.length),
    words[i].toList = inPlace mark words.length i corpus[(start + i) % 198]
  capital : ∃ c rest, words.head?.map String.toList = some (c :: rest) ∧ c.isUpper
  closed : ∃ letters, ∃ mark ∈ terminators,
    words.getLast?.map String.toList = some (letters ++ [mark]) ∧ ∀ c ∈ letters, c.isAlpha

theorem IsSentence.solid (form : IsSentence words) : ∀ word ∈ words, IsSolid word := by
  obtain ⟨start, mark, terminates, corpus⟩ := form.corpus
  intro word member
  obtain ⟨i, inside, rfl⟩ := List.getElem_of_mem member
  rw [IsSolid, corpus i inside]
  exact inPlace_solid (isEntry_corpus _) terminates words.length i

theorem getElem_sentence (start length : Nat) (mark : Char)
    (inside : i < (closeLast mark (capitalizeFirst (wordsFrom start length))).length) :
    (closeLast mark (capitalizeFirst (wordsFrom start length)))[i].toList =
      inPlace mark length i corpus[(start + i) % 198] := by
  have count : (wordsFrom start length).length = length := by simp [wordsFrom]
  have bound : i < length := by
    rwa [length_closeLast, length_capitalizeFirst, count] at inside
  have taken : (wordsFrom start length)[i]? = some corpus[(start + i) % 198] := by
    simp [wordsFrom, bound]
  have made := getElem?_closeLast mark (capitalizeFirst (wordsFrom start length)) i
  rw [getElem?_capitalizeFirst, taken, length_capitalizeFirst, count,
    List.getElem?_eq_getElem inside] at made
  rw [Option.some.inj made]
  exact toList_inPlace (isEntry_corpus _) mark length i

theorem isSentence_of_corpus (filled : words ≠ []) (terminates : mark ∈ terminators)
    (corpus : ∀ i (inside : i < words.length),
      words[i].toList = inPlace mark words.length i corpus[(start + i) % 198]) :
    IsSentence words := by
  have positive := List.length_pos_iff.mpr filled
  refine ⟨⟨start, mark, terminates, corpus⟩, ?_, ?_⟩
  · obtain ⟨c, rest, text, upper⟩ := inPlace_zero
      (isEntry_corpus (Nat.mod_lt (start + 0) (by decide))) terminates words.length
    refine ⟨c, rest, ?_, upper⟩
    rw [List.head?_eq_getElem?, List.getElem?_eq_getElem positive, Option.map_some,
      corpus 0 positive, text]
  · obtain ⟨last, count⟩ : ∃ last, words.length = last + 1 := ⟨words.length - 1, by omega⟩
    obtain ⟨letters, text, alpha⟩ := inPlace_last
      (isEntry_corpus (Nat.mod_lt (start + last) (by decide))) terminates last
    refine ⟨letters, mark, terminates, ?_, alpha⟩
    have inside : last < words.length := by omega
    rw [List.getLast?_eq_getElem?, count, Nat.add_sub_cancel, List.getElem?_eq_getElem inside,
      Option.map_some, corpus last inside, count, text]

variable {σ : Type} [Source σ]

/-- A sentence of so many words is written, whatever is drawn for it. -/
theorem sentence_spec (positive : 0 < length) (s : σ) :
    ∃ words, (sentence length s).1 = " ".intercalate words ∧ words.length = length ∧
      IsSentence words := by
  let start := (Source.choose .long 0 197 s).1
  let mark := closingMark (Source.choose .short 0 3 (Source.choose .long 0 197 s).2).1
  let words := closeLast mark (capitalizeFirst (wordsFrom start length))
  have count : words.length = length := by
    simp [words, length_closeLast, length_capitalizeFirst, wordsFrom]
  have filled : words ≠ [] := List.length_pos_iff.mp (count ▸ positive)
  have terminates : mark ∈ terminators := closingMark_mem _
  have places : ∀ i (inside : i < words.length),
      words[i].toList = inPlace mark words.length i corpus[(start + i) % 198] := by
    intro i inside
    rw [count]
    exact getElem_sentence start length mark inside
  exact ⟨words, rfl, count, isSentence_of_corpus filled terminates places⟩

end Sentence

section Text

variable {σ : Type} [Source σ] {owed : Nat} {group : List String} {groups : List (List String)}

/-- Sentences for so many words: all have five words at least and thirty at most, but for the
last, which may be shorter. -/
structure Covers (owed : Nat) (groups : List (List String)) : Prop where
  total : (groups.map List.length).sum = owed
  full : ∀ group ∈ groups.dropLast, minSentence ≤ group.length ∧ group.length ≤ maxSentence
  last : ∀ group ∈ groups.getLast?, 1 ≤ group.length ∧ group.length ≤ maxSentence
  form : ∀ group ∈ groups, IsSentence group

theorem Covers.nil : Covers 0 [] :=
  ⟨rfl, List.forall_mem_nil _, fun _ last => (nomatch last), List.forall_mem_nil _⟩

/-- A sentence is cut only where nothing is owed behind it. -/
theorem Covers.cons {drawn : Nat} (sentence : IsSentence group) (least : minSentence ≤ drawn)
    (most : drawn ≤ maxSentence) (owes : 0 < owed) (cut : group.length = min drawn owed)
    (covers : Covers (owed - group.length) groups) : Covers owed (group :: groups) := by
  have range : 1 ≤ group.length ∧ group.length ≤ maxSentence := by
    simp only [minSentence] at least
    omega
  refine ⟨?_, ?_, ?_, List.forall_mem_cons.mpr ⟨sentence, covers.form⟩⟩
  · rw [List.map_cons, List.sum_cons, covers.total]
    omega
  · cases groups with
    | nil => exact List.forall_mem_nil _
    | cons next rest =>
      have more : 0 < owed - group.length := by
        have filled := covers.total
        obtain ⟨_, _, first, -⟩ := (covers.form next List.mem_cons_self).capital
        have nonempty : next ≠ [] := by
          rintro rfl
          contradiction
        have := List.length_pos_iff.mpr nonempty
        rw [List.map_cons, List.sum_cons] at filled
        omega
      rw [List.dropLast_cons_of_ne_nil (List.cons_ne_nil next rest)]
      refine List.forall_mem_cons.mpr ⟨⟨?_, range.2⟩, covers.full⟩
      omega
  · cases groups with
    | nil =>
      rintro _ ⟨⟩
      exact range
    | cons next rest => exact covers.last

/-- The sentences that are written for the words still owed. -/
theorem sentences_spec (before : List String) (owed : Nat) (s : σ) :
    ∃ groups : List (List String), Covers owed groups ∧
      (sentences before owed s).1 = before.reverse ++ groups.map (" ".intercalate ·) := by
  induction owed using Nat.strongRecOn generalizing before s with
  | ind owed ih =>
    rw [sentences]
    split
    · next none =>
      rw [none]
      exact ⟨[], .nil, (List.append_nil _).symm⟩
    · next some =>
      obtain ⟨drawn, least, most, taken⟩ := sentenceLength_spec owed s
      have positive : 0 < (sentenceLength owed s).1 := by
        simp only [minSentence] at least
        omega
      obtain ⟨words, text, count, sentence⟩ :=
        sentence_spec positive (sentenceLength owed s).2
      generalize sentenceLength owed s = length at *
      obtain ⟨groups, covers, rest⟩ := ih (owed - length.1) (by omega)
        ((Filler.sentence length.1 length.2).1 :: before) (Filler.sentence length.1 length.2).2
      rw [← count] at covers
      refine ⟨words :: groups, .cons sentence least most (Nat.pos_of_ne_zero some)
        (count.trans taken) covers, ?_⟩
      refine rest.trans ?_
      rw [text, List.reverse_cons, List.map_cons, List.append_assoc, List.singleton_append]

/-- The words of filler text are those of its sentences, as many as are asked for. -/
theorem wordsOf_text (count : Nat) (s : σ) :
    ∃ groups, Covers count groups ∧
      (text count s).1 = " ".intercalate (groups.map (" ".intercalate ·)) ∧
      wordsOf (text count s).1 = groups.flatten ∧ groups.flatten.length = count := by
  obtain ⟨groups, covers, written⟩ := sentences_spec [] count s
  have joined : (text count s).1 = " ".intercalate (groups.map (" ".intercalate ·)) :=
    congrArg (" ".intercalate ·) written
  have nonempty : [] ∉ groups := fun member => by
    obtain ⟨_, _, first, -⟩ := (covers.form [] member).capital
    contradiction
  refine ⟨groups, covers, joined, ?_, by rw [List.length_flatten, covers.total]⟩
  rw [joined, intercalate_flatten nonempty]
  refine wordsOf_intercalate fun word member => ?_
  obtain ⟨group, here, member⟩ := List.mem_flatten.mp member
  exact (covers.form group here).solid word member

end Text

/-- Filler text of so many words is sentences with single blanks between them, whatever is
drawn. Their lengths add up to the words that are asked for; each has five to thirty words, but
the last may have fewer; a sentence is words of the corpus one after the other, from the top
again behind its end, where the first begins with a capital letter and the last ends in a full
stop, an exclamation or a question mark, and in no other mark. So the text, split at blanks, has
the words of its sentences, as many as are asked for. -/
theorem text_of_sentences {σ : Type} [Source σ] (count : Nat) (s : σ) :
    ∃ sentences : List (List String),
      (text count s).1 = " ".intercalate (sentences.map (" ".intercalate ·)) ∧
      (sentences.map List.length).sum = count ∧
      (∀ sentence ∈ sentences.dropLast, 5 ≤ sentence.length ∧ sentence.length ≤ 30) ∧
      (∀ sentence ∈ sentences.getLast?, 1 ≤ sentence.length ∧ sentence.length ≤ 30) ∧
      (∀ sentence ∈ sentences, IsSentence sentence) ∧
      wordsOf (text count s).1 = sentences.flatten ∧ (wordsOf (text count s).1).length = count := by
  obtain ⟨groups, covers, joined, words, total⟩ := wordsOf_text count s
  refine ⟨groups, joined, covers.total, covers.full, covers.last, covers.form, words, ?_⟩
  rw [words, total]

/-- Seven words from a recording that has run out: a shortest sentence, and one that is cut. -/
theorem text_of_sentences_seven :
    (text 7 (⟨[]⟩ : Recording)).1 = "Lorem ipsum dolor sit amet! Lorem ipsum!" ∧
      (wordsOf (text 7 (⟨[]⟩ : Recording)).1).length = 7 := by
  obtain ⟨_, -, -, -, -, -, -, count⟩ := text_of_sentences 7 (⟨[]⟩ : Recording)
  refine ⟨?_, count⟩
  have drawn : ∀ owed, sentenceLength owed (⟨[]⟩ : Recording) = (min 5 owed, ⟨[]⟩) := fun owed => by
    rw [sentenceLength, Recording.choose_nil]
    rfl
  have written : ∀ length, sentence length (⟨[]⟩ : Recording) =
      (" ".intercalate (closeLast '!' (capitalizeFirst (wordsFrom 0 length))), ⟨[]⟩) := fun length => by
    simp only [sentence, Recording.choose_nil]
    rfl
  rw [text, sentences, sentences, sentences]
  simp only [drawn, written]
  decide +kernel

end Filler

end Shorthand
