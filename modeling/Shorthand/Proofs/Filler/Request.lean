import Mathlib
import Shorthand.Proofs.Filler.Sentences
import Shorthand.Proofs.Grammar.Composition
import Shorthand.Proofs.Markup.Attributes
import Shorthand.Proofs.Markup.Literals
import Shorthand.Proofs.Style.Argument
import Shorthand.Proofs.Suffix.Walk
import Shorthand.Proofs.Text.Trim

/-! A request for filler text on its own. The count behind the name is read as a machine word
and held against the limit when the tree is filled. A count beyond all machine words is read as
if it were left out, so that the limit is held against the count that stands for none. -/
namespace Shorthand

section Reading

variable {digits : List Char}

/-- The count that the digits behind the name of a marker stand for. -/
def requestedWords (digits : List Char) : Nat :=
  (readWord? digits).getD Abbreviation.defaultFillerWords

theorem requestedWords_of_word (filled : digits ≠ []) (decimal : ∀ c ∈ digits, c.isDigit)
    (fits : decimalValue digits ≤ wordMax) : requestedWords digits = decimalValue digits := by
  rw [requestedWords, readWord?, if_pos ⟨filled, List.all_eq_true.mpr decimal, fits⟩]
  rfl

theorem requestedWords_of_beyond (beyond : wordMax < decimalValue digits) :
    requestedWords digits = Abbreviation.defaultFillerWords := by
  rw [requestedWords, readWord?, if_neg fun word => absurd word.2.2 (Nat.not_le.mpr beyond)]
  rfl

/-- The name of a marker with the digits behind it. -/
def request (digits : List Char) : List Char := "lorem".toList ++ digits

theorem isAlphanum_request (decimal : ∀ c ∈ digits, c.isDigit) :
    ∀ c ∈ request digits, c.isAlphanum :=
  List.forall_mem_append.mpr ⟨forall_mem_of_all (by decide), fun c member => by
    rw [Char.isAlphanum, decimal c member, Bool.or_true]⟩

/-- There are no blanks around a request. -/
theorem trimmed_request (decimal : ∀ c ∈ digits, c.isDigit) :
    trimmed (String.ofList (request digits)) = String.ofList (request digits) := by
  have solid : ∀ c ∈ request digits, isBlank c = false := by
    intro c member
    have visible := isAlphanum_request decimal c member
    simp [Char.isAlphanum, Char.isAlpha, Char.isUpper, Char.isLower, Char.isDigit,
      UInt32.le_iff_toNat_le] at visible
    exact Style.isBlank_visible ⟨by omega, by omega⟩
  have kept : trim (request digits) = request digits :=
    trim_eq_self (fun c here => solid c (List.mem_of_mem_head? here))
      fun c here => solid c (List.mem_of_mem_getLast? here)
  rw [trimmed, String.toList_ofList, kept]

namespace Abbreviation

theorem fillerWords?_request (decimal : ∀ c ∈ digits, c.isDigit) :
    fillerWords? (request digits) = some (requestedWords digits) :=
  if_pos (List.all_eq_true.mpr decimal)

theorem tagName_request (decimal : ∀ c ∈ digits, c.isDigit) :
    tagName (request digits) = (request digits, true, []) := by
  have chars : ∀ c ∈ request digits, isNameChar c :=
    fun c member => by simp [isNameChar, isAlphanum_request decimal c member]
  have rest : (request digits).dropWhile isNameChar = [] := List.dropWhile_eq_nil_iff.mpr chars
  have noSlash : ((request digits).dropWhile isNameChar).head? ≠ some '/' := by simp [rest]
  rw [tagName_plain noSlash, List.takeWhile_eq_self_iff.mpr chars, rest]

theorem run_atom_request (decimal : ∀ c ∈ digits, c.isDigit) (expression : Reader)
    (memory : Memory) :
    (atom expression (request digits)).run [] memory =
      (memory, .ok (.filler (requestedWords digits), [])) := by
  have body : tagBody (.ofSelector (request digits)) true [] =
      .ok (tagOf (.ofSelector (request digits)) true [] none, []) :=
    tagBody_eq_ok.mpr ⟨[], [], none, qualifiers_end [] nofun, rfl, rfl⟩
  have named : (namedTag expression (request digits)).run [] memory =
      (memory, .ok (.filler (requestedWords digits), [])) := by
    rw [run_namedTag, tagName_request decimal]
    refine ⟨_, body, ?_⟩
    rw [namedNode, fillerWords?_request decimal]
    rfl
  exact (congrArg (Inquiry.run · [] memory) (atom_named (by decide) _)).trans named

/-- A request is read as a marker, where any expression may be read. -/
theorem read_request (decimal : ∀ c ∈ digits, c.isDigit) {limits : Limits}
    (room : 1 ≤ limits.maxDepth) (aliases : AliasTable) :
    read limits aliases (String.ofList (request digits)) =
      (aliases, .ok (.filler (requestedWords digits))) := by
  obtain ⟨depth, levels⟩ := Nat.exists_eq_add_of_le' room
  have bar : '|' ∉ request digits := fun member =>
    absurd (isAlphanum_request decimal _ member) (by decide)
  have ran : (complete (chain limits (expression limits depth)) (request digits)).run []
      { aliases } = ({ aliases }, .ok (.filler (requestedWords digits))) :=
    run_complete_operand (.ok (.filler (requestedWords digits)))
      (run_operand_plain (run_atom_request decimal (expression limits depth) { aliases })
        (repeatCount_none nofun) nofun)
  have whole : (complete (expression limits limits.maxDepth) (request digits)).run []
      { aliases } = ({ aliases }, .ok (.filler (requestedWords digits))) := by
    rw [levels]
    exact ran
  rw [read, String.toList_ofList, splitFilters_of_bar_not_mem bar]
  dsimp only
  rw [whole]
  rfl

end Abbreviation

end Reading

section Expansion

variable {expander : Expander} {dialect : Dialect} {digits : List Char} {limits : Limits}
  {count : Nat} {result : Except Failure String}

/-- Whatever the document, the built-in tables have one renderer for it. -/
theorem Markup.defaultChain_builtin {tables : Tables} (builtin : tables.IsBuiltin)
    (options : RenderOptions) : ∃ dialect, defaultChain tables options = [.render dialect] := by
  obtain ⟨aliases, rfl⟩ := builtin
  have single : ∀ entry ∈ Tables.builtinFilters, entry.2 = ["haml"] ∨ entry.2 = ["hic"] := by
    decide
  have filters : ({ Tables.builtin with aliases } : Tables).defaultFilters = Tables.builtinFilters :=
    rfl
  rw [defaultChain, filters]
  cases found : options.extension.bind Tables.builtinFilters.get? with
  | none => exact ⟨options.dialect, rfl⟩
  | some names =>
    obtain ⟨extension, -, held⟩ := Option.bind_eq_some_iff.mp found
    obtain haml | hiccup := single _ (Table.mem_of_get? held)
    · dsimp only at haml
      rw [haml]
      exact ⟨.haml, rfl⟩
    · dsimp only at hiccup
      rw [hiccup]
      exact ⟨.hiccup, rfl⟩

/-- A request for so many words gives a text of so many words, or the failure of the limit. -/
structure IsHonoured (limits : Limits) (dialect : Dialect) (count : Nat)
    (result : Except Failure String) : Prop where
  given : count ≤ limits.maxFillerWords →
    ∃ text, result = .ok (dialect.writeText text) ∧ (wordsOf text).length = count
  refused : limits.maxFillerWords < count →
    result = .error (.exceeded .fillerWords limits.maxFillerWords)

theorem toText_ofText (text : String) : (Template.ofText text).toText = text := by
  have chars : (Template.ofText text).chars 0 1 = text.toList := by
    simp [Template.chars, Template.ofText, Template.ofChars, List.flatMap_map, Piece.chars]
  rw [Template.toText, chars, String.ofList_toList]

/-- A marker that is all of an abbreviation is honoured. -/
theorem isHonoured_filler {abbreviation : String} {words : Nat} {options : RenderOptions}
    (read : expander.read (trimmed abbreviation) = (.ok (.filler words), expander))
    (chain : Markup.defaultChain expander.tables options = [.render dialect]) :
    IsHonoured expander.limits dialect words (expander.expandMarkup abbreviation options).1 := by
  have chosen : expander.chainFor options (.filler words) = .ok ([.render dialect], .filler words) :=
    congrArg (fun filters => Except.ok (filters, Node.filler words)) chain
  rw [Expander.expandMarkup, read]
  dsimp only
  rw [chosen]
  dsimp only
  rw [Expander.fill]
  constructor
  · intro fits
    rw [if_neg (Nat.not_lt.mpr fits)]
    obtain ⟨_, -, -, found, total⟩ := Filler.wordsOf_text words expander.source
    refine ⟨(Filler.text words expander.source).1, ?_, found ▸ total⟩
    exact congrArg (Except.ok ∘ dialect.writeText) (toText_ofText _)
  · intro beyond
    rw [if_pos beyond]

theorem writeText_injective (dialect : Dialect) : Function.Injective dialect.writeText := by
  intro first second same
  cases dialect with
  | hiccup =>
    have read := congrArg Hiccup.literals same
    rw [Dialect.writeText, Dialect.writeText, Hiccup.literals_quote, Hiccup.literals_quote] at read
    simpa using read
  | html | commentedHtml | haml => exact same

/-- What honours a request honours one for more words just if either is refused. -/
theorem IsHonoured.iff_of_lt {more : Nat} (honoured : IsHonoured limits dialect count result)
    (less : count < more) :
    IsHonoured limits dialect more result ↔ limits.maxFillerWords < count := by
  constructor
  · intro other
    by_contra within
    obtain ⟨text, done, words⟩ := honoured.given (Nat.not_lt.mp within)
    rcases Nat.lt_or_ge limits.maxFillerWords more with beyond | fits
    · rw [other.refused beyond] at done
      contradiction
    · obtain ⟨text', done', words'⟩ := other.given fits
      obtain rfl := writeText_injective dialect (Except.ok.inj (done.symm.trans done'))
      omega
  · intro beyond
    exact ⟨fun fits => absurd fits (by omega), fun _ => honoured.refused beyond⟩

/-- What is read for the count is honoured. -/
theorem isHonoured_request (builtin : expander.tables.IsBuiltin)
    (room : 1 ≤ expander.limits.maxDepth) (decimal : ∀ c ∈ digits, c.isDigit)
    (options : RenderOptions) :
    ∃ dialect, Markup.defaultChain expander.tables options = [.render dialect] ∧
      IsHonoured expander.limits dialect (requestedWords digits)
        (expander.expandMarkup (String.ofList (request digits)) options).1 := by
  obtain ⟨dialect, chain⟩ := Markup.defaultChain_builtin builtin options
  have read : expander.read (trimmed (String.ofList (request digits))) =
      (.ok (.filler (requestedWords digits)), expander) := by
    rw [trimmed_request decimal, Expander.read, Abbreviation.read_request decimal room]
  exact ⟨dialect, chain, isHonoured_filler read chain⟩

/-- A request gives the words it asks for or is refused, as long as its count is a machine word
or the limit is below the count that stands for none. A count beyond all machine words is taken
for none: the text has thirty words, or these are what is refused. -/
theorem request_honoured_iff {digits : String} (builtin : expander.tables.IsBuiltin)
    (room : 1 ≤ expander.limits.maxDepth) (filled : digits ≠ "")
    (decimal : ∀ c ∈ digits.toList, c.isDigit) (options : RenderOptions) :
    let count := decimalValue digits.toList
    let result := (expander.expandMarkup ("lorem" ++ digits) options).1
    ∃ dialect, Markup.defaultChain expander.tables options = [.render dialect] ∧
      (IsHonoured expander.limits dialect count result ↔
        count ≤ wordMax ∨ expander.limits.maxFillerWords < 30) ∧
      (wordMax < count → IsHonoured expander.limits dialect 30 result) := by
  intro count result
  obtain ⟨dialect, chain, honoured⟩ := isHonoured_request builtin room decimal options
  have spelt : String.ofList (request digits.toList) = "lorem" ++ digits := by
    rw [request, String.ofList_append, String.ofList_toList, String.ofList_toList]
  rw [spelt] at honoured
  refine ⟨dialect, chain, ?_⟩
  rcases Nat.lt_or_ge wordMax count with beyond | fits
  · rw [requestedWords_of_beyond beyond] at honoured
    have less : 30 < count := Nat.lt_trans (by decide) beyond
    refine ⟨?_, fun _ => honoured⟩
    rw [or_iff_right (Nat.not_le.mpr beyond)]
    exact honoured.iff_of_lt less
  · have nonempty : digits.toList ≠ [] := mt String.toList_eq_nil_iff.mp filled
    rw [requestedWords_of_word nonempty decimal fits] at honoured
    exact ⟨iff_of_true honoured (.inl fits), fun beyond => absurd fits (Nat.not_le.mpr beyond)⟩

/-- Seven words, and a count with a zero in front of it. -/
theorem request_honoured_iff_seven :
    let fresh : Expander := { tables := .builtin, source := .ofSeed 0 }
    ∃ text, (fresh.expandMarkup "lorem007" {}).1 = .ok text ∧ (wordsOf text).length = 7 := by
  intro fresh
  have builtin : fresh.tables.IsBuiltin := ⟨_, rfl⟩
  have decimal : ∀ c ∈ "007".toList, c.isDigit := forall_mem_of_all (by decide)
  obtain ⟨dialect, chain, honoured, -⟩ :=
    request_honoured_iff builtin (by decide) (by decide) decimal {}
  obtain rfl : .html = dialect := by
    injection chain with first
    injection first
  exact (honoured.mpr (.inl (by decide))).given (by decide)

/-- With ten thousand words allowed, a request for more than a machine word can count is neither
refused nor given that many words. -/
theorem request_beyond_words :
    let fresh : Expander := { tables := .builtin, source := .ofSeed 0 }
    fresh.limits.maxFillerWords < decimalValue "18446744073709551616".toList ∧
      (fresh.expandMarkup "lorem18446744073709551616" {}).1 ≠
        .error (.exceeded .fillerWords fresh.limits.maxFillerWords) ∧
      ∃ text, (fresh.expandMarkup "lorem18446744073709551616" {}).1 = .ok text ∧
        (wordsOf text).length = 30 := by
  intro fresh
  have builtin : fresh.tables.IsBuiltin := ⟨_, rfl⟩
  have decimal : ∀ c ∈ "18446744073709551616".toList, c.isDigit := forall_mem_of_all (by decide)
  obtain ⟨dialect, chain, honoured⟩ := isHonoured_request builtin (by decide) decimal {}
  obtain rfl : .html = dialect := by
    injection chain with first
    injection first
  obtain ⟨text, done, words⟩ := honoured.given (by decide)
  have done : (fresh.expandMarkup "lorem18446744073709551616" {}).1 = .ok text := done
  exact ⟨by decide, by rw [done]; nofun, text, done, words⟩

end Expansion

end Shorthand
