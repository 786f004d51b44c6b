import Mathlib
import Shorthand.Proofs.Printing.Template
import Shorthand.Proofs.Style.Texts

/-! What the text of a color denotes. However a color is printed, with three digits or six, in
either case, or as decimal channels, its text is read back as the same three channels, and these
are the ones that the digits of the abbreviation stand for. -/
namespace Shorthand.Style

section Digits

variable {c d : Char} {digits : List Char} {case : ColorCase}

def hexAlphabet : List Char := "0123456789abcdefABCDEF".toList

theorem mem_hexAlphabet (digit : isHexDigit c) : c ∈ hexAlphabet := by
  have ranges : (48 ≤ c.toNat ∧ c.toNat ≤ 57) ∨ (97 ≤ c.toNat ∧ c.toNat ≤ 102) ∨
      (65 ≤ c.toNat ∧ c.toNat ≤ 70) := by
    simp [isHexDigit, Char.isDigit, Char.le_def, UInt32.le_iff_toNat_le] at digit
    tauto
  rw [← Char.ofNat_toNat c]
  generalize c.toNat = n at ranges
  obtain ⟨low, high⟩ | ⟨low, high⟩ | ⟨low, high⟩ := ranges <;> interval_cases n <;> decide

/-- A digit in the preferred case. -/
def casedDigit : ColorCase → Char → Char
  | .auto, c => c
  | .up, c => c.toUpper
  | .down, c => c.toLower

/-- A digit in some case is a digit of the same value, and is in that case already. -/
structure IsCased (case : ColorCase) (c : Char) : Prop where
  digit : isHexDigit (casedDigit case c)
  value : hexValue (casedDigit case c) = hexValue c
  again : casedDigit case (casedDigit case c) = casedDigit case c

theorem isCased (case : ColorCase) (digit : isHexDigit c) : IsCased case c := by
  have checked : ∀ c ∈ hexAlphabet, isHexDigit (casedDigit case c) ∧
      hexValue (casedDigit case c) = hexValue c ∧
        casedDigit case (casedDigit case c) = casedDigit case c := by
    cases case <;> exact forall_mem_of_all (by decide)
  obtain ⟨digit, value, again⟩ := checked c (mem_hexAlphabet digit)
  exact ⟨digit, value, again⟩

theorem ascii_of_isHexDigit (digit : isHexDigit c) : c.toNat < 0x80 ∧ c ≠ 'Σ' := by
  have checked : ∀ c ∈ hexAlphabet, c.toNat < 0x80 ∧ c ≠ 'Σ' := forall_mem_of_all (by decide)
  exact checked c (mem_hexAlphabet digit)

theorem loweredAfter_digits (before : List Char) (hex : ∀ c ∈ digits, isHexDigit c) :
    loweredAfter before digits = digits.map Char.toLower := by
  induction digits generalizing before with
  | nil => rfl
  | cons c digits ih =>
    obtain ⟨digit, later⟩ := List.forall_mem_cons.mp hex
    obtain ⟨ascii, other⟩ := ascii_of_isHexDigit digit
    rw [loweredAfter, if_neg other, lowerChars, if_pos ascii, ih _ later]
    rfl

/-- The tables of cases map all characters, and a digit to a digit. -/
theorem apply_digits (case : ColorCase) (hex : ∀ c ∈ digits, isHexDigit c) :
    ColorCase.apply case digits = digits.map (casedDigit case) := by
  cases case with
  | auto => exact (List.map_id digits).symm
  | up =>
    refine (List.flatMap_congr fun c member => ?_).trans (List.flatMap_pure_eq_map _ digits)
    exact if_pos (ascii_of_isHexDigit (hex c member)).1
  | down => exact loweredAfter_digits [] hex

/-- Digits are equal up to case if they have one value. -/
theorem sameDigit_eq (digit : isHexDigit c) (digit' : isHexDigit d) :
    sameDigit c d = (hexValue c == hexValue d) := by
  have checked : ∀ c ∈ hexAlphabet,
      hexAlphabet.all fun d => sameDigit c d = (hexValue c == hexValue d) :=
    forall_mem_of_all (by decide)
  exact forall_mem_of_all (checked c (mem_hexAlphabet digit)) d (mem_hexAlphabet digit')

theorem utf8ByteSize_digits (hex : ∀ c ∈ digits, isHexDigit c) :
    (String.ofList digits).utf8ByteSize = digits.length := by
  have narrow : ∀ c ∈ hexAlphabet, c.utf8Size = 1 := forall_mem_of_all (by decide)
  induction digits with
  | nil => rfl
  | cons c digits ih =>
    obtain ⟨digit, later⟩ := List.forall_mem_cons.mp hex
    rw [String.ofList_cons, String.utf8ByteSize_append, String.utf8ByteSize_singleton, ih later,
      narrow c (mem_hexAlphabet digit), List.length_cons, Nat.add_comm]

theorem byByte_digits (hex : ∀ c ∈ digits, isHexDigit c) : byByte digits = digits := by
  have narrow : ∀ c ∈ hexAlphabet, c.utf8Size = 1 := forall_mem_of_all (by decide)
  refine (List.flatMap_congr fun c member => ?_).trans (List.flatMap_singleton' digits)
  rw [narrow c (mem_hexAlphabet (hex c member))]
  rfl

end Digits

section Channels

/-- The channels of a color. -/
structure Channels where
  red : Nat
  green : Nat
  blue : Nat
deriving DecidableEq

namespace Channels

/-- Two digits for each channel. -/
def ofPairs? : List Char → Option Channels
  | [r, s, g, h, b, c] =>
    some ⟨16 * hexValue r + hexValue s, 16 * hexValue g + hexValue h,
      16 * hexValue b + hexValue c⟩
  | _ => none

/-- The channels that a run of digits stands for. One digit or two are repeated for all
channels, of three each is doubled, and of four or five the first follow the last. -/
def ofRun? : List Char → Option Channels
  | [a] => ofPairs? [a, a, a, a, a, a]
  | [a, b] => ofPairs? [a, b, a, b, a, b]
  | [a, b, c] => ofPairs? [a, a, b, b, c, c]
  | [a, b, c, d] => ofPairs? [a, b, c, d, a, b]
  | [a, b, c, d, e] => ofPairs? [a, b, c, d, e, a]
  | digits => ofPairs? digits

/-- Three digits or six. -/
def ofDigits? (digits : List Char) : Option Channels :=
  if digits.all isHexDigit then
    if digits.length = 3 then ofPairs? (digits.flatMap fun c => [c, c]) else ofPairs? digits
  else none

/-- Three decimal numbers between commas, none beyond a byte. -/
def ofNumbers? (s : List Char) : Option Channels :=
  match (s.splitOn ',').mapM readWord? with
  | some [r, g, b] => if r ≤ 255 ∧ g ≤ 255 ∧ b ≤ 255 then some ⟨r, g, b⟩ else none
  | _ => none

/-- The channels that the text of a color denotes. -/
def ofText? (text : List Char) : Option Channels :=
  match text with
  | '#' :: digits => ofDigits? digits
  | 'r' :: 'g' :: 'b' :: '(' :: s => (dropLast? ')' s).bind ofNumbers?
  | _ => none

end Channels

variable {digits run : List Char} {case : ColorCase} {channels : Channels}

/-- Six digits, as they are kept for a color. -/
structure IsSixDigits (digits : List Char) : Prop where
  length : digits.length = 6
  hex : ∀ c ∈ digits, isHexDigit c

theorem IsSixDigits.eq (six : IsSixDigits digits) : ∃ r s g h b c, digits = [r, s, g, h, b, c] := by
  have length := six.length
  match digits, length with
  | [r, s, g, h, b, c], _ => exact ⟨r, s, g, h, b, c, rfl⟩

theorem hex_cased (case : ColorCase) (hex : ∀ c ∈ digits, isHexDigit c) :
    ∀ c ∈ digits.map (casedDigit case), isHexDigit c :=
  List.forall_mem_map.mpr fun c member => (isCased case (hex c member)).digit

theorem IsSixDigits.cased (six : IsSixDigits digits) (case : ColorCase) :
    IsSixDigits (digits.map (casedDigit case)) :=
  ⟨(List.length_map _).trans six.length, hex_cased case six.hex⟩

/-- What a run stands for depends on the values of its digits. -/
theorem ofPairs?_cased (case : ColorCase) (hex : ∀ c ∈ digits, isHexDigit c) :
    Channels.ofPairs? (digits.map (casedDigit case)) = Channels.ofPairs? digits := by
  have same : ∀ c ∈ digits, hexValue (casedDigit case c) = hexValue c := fun c member =>
    (isCased case (hex c member)).value
  match digits with
  | [r, s, g, h, b, c] =>
    simp only [List.forall_mem_cons] at same
    obtain ⟨r', s', g', h', b', c', -⟩ := same
    simp only [List.map_cons, List.map_nil, Channels.ofPairs?, r', s', g', h', b', c']
  | [] | [_] | [_, _] | [_, _, _] | [_, _, _, _] | [_, _, _, _, _] => rfl
  | _ :: _ :: _ :: _ :: _ :: _ :: _ :: _ => rfl

/-- Three digits are enough where the two of each channel have one value. -/
theorem shortHex_eq {r s g h b c : Char} (six : IsSixDigits [r, s, g, h, b, c]) :
    shortHex [r, s, g, h, b, c] =
      if hexValue r = hexValue s ∧ hexValue g = hexValue h ∧ hexValue b = hexValue c then
        [r, g, b]
      else [r, s, g, h, b, c] := by
  have bytes := utf8ByteSize_digits six.hex
  have hex := six.hex
  simp only [List.forall_mem_cons] at hex
  obtain ⟨r', s', g', h', b', c', -⟩ := hex
  unfold shortHex
  simp only [bytes, List.length_cons, List.length_nil, sameDigit_eq r' s', sameDigit_eq g' h',
    sameDigit_eq b' c', Nat.zero_add, Nat.reduceAdd, decide_true, Bool.true_and, Bool.and_eq_true,
    beq_iff_eq, and_assoc]

theorem ofDigits?_of_six (six : IsSixDigits digits) :
    Channels.ofDigits? digits = Channels.ofPairs? digits := by
  have hex : digits.all isHexDigit := List.all_eq_true.mpr six.hex
  rw [Channels.ofDigits?, if_pos hex, if_neg (by rw [six.length]; decide)]

/-- Three digits are read as if each were written twice. -/
theorem ofDigits?_of_three {r g b : Char} (hex : ∀ c ∈ [r, g, b], isHexDigit c) :
    Channels.ofDigits? [r, g, b] = Channels.ofPairs? [r, r, g, g, b, b] := by
  have all : [r, g, b].all isHexDigit := List.all_eq_true.mpr hex
  rw [Channels.ofDigits?, if_pos all]
  rfl

/-- A color stays what it is when it is printed with fewer digits or in another case. -/
theorem ofDigits?_printed (six : IsSixDigits digits) (shorten : Bool) (case : ColorCase) :
    Channels.ofDigits? (ColorCase.apply case (if shorten then shortHex digits else digits)) =
      Channels.ofPairs? digits := by
  have whole : Channels.ofDigits? (ColorCase.apply case digits) = Channels.ofPairs? digits := by
    rw [apply_digits case six.hex, ofDigits?_of_six (six.cased case), ofPairs?_cased case six.hex]
  cases shorten with
  | false => exact whole
  | true =>
    obtain ⟨r, s, g, h, b, c, rfl⟩ := six.eq
    rw [if_pos rfl, shortHex_eq six]
    split
    · next same =>
      obtain ⟨red, green, blue⟩ := same
      have hex : ∀ d ∈ [r, g, b], isHexDigit d := fun d member => six.hex d (by
        simp only [List.mem_cons, List.not_mem_nil, or_false] at member ⊢
        tauto)
      have value : ∀ d ∈ [r, g, b], hexValue (casedDigit case d) = hexValue d := fun d member =>
        (isCased case (hex d member)).value
      simp only [List.forall_mem_cons] at value
      obtain ⟨r', g', b', -⟩ := value
      rw [apply_digits case hex, List.map_cons, List.map_cons, List.map_cons, List.map_nil,
        ofDigits?_of_three (hex_cased case hex)]
      simp only [Channels.ofPairs?, r', g', b', red, green, blue]
    · exact whole

theorem hexValue_lt {c : Char} (digit : isHexDigit c) : hexValue c < 16 := by
  have checked : ∀ c ∈ hexAlphabet, hexValue c < 16 := forall_mem_of_all (by decide)
  exact checked c (mem_hexAlphabet digit)

theorem channelValue_digits {b c : Char} (first : isHexDigit b) (second : isHexDigit c) :
    channelValue [b, c] = 16 * hexValue b + hexValue c := by
  have sign : b ≠ '+' := by
    rintro rfl
    contradiction
  unfold channelValue
  split
  · next same => exact absurd (List.cons.inj same).1 sign
  · next x y _ same =>
    obtain ⟨rfl, rfl⟩ : b = x ∧ c = y := by simpa using same
    rw [first, second]
    rfl
  · next other => exact absurd rfl (other b c)

/-- The channels that are printed are those of the digits. -/
theorem channel_eq (six : IsSixDigits digits) :
    Channels.ofPairs? digits = some ⟨channel digits 0, channel digits 1, channel digits 2⟩ ∧
      ∀ i < 3, channel digits i ≤ 255 := by
  obtain ⟨r, s, g, h, b, c, rfl⟩ := six.eq
  have bytes := byByte_digits six.hex
  have hex := six.hex
  simp only [List.forall_mem_cons] at hex
  obtain ⟨r', s', g', h', b', c', -⟩ := hex
  have red : channel [r, s, g, h, b, c] 0 = 16 * hexValue r + hexValue s := by
    rw [channel, bytes]
    exact channelValue_digits r' s'
  have green : channel [r, s, g, h, b, c] 1 = 16 * hexValue g + hexValue h := by
    rw [channel, bytes]
    exact channelValue_digits g' h'
  have blue : channel [r, s, g, h, b, c] 2 = 16 * hexValue b + hexValue c := by
    rw [channel, bytes]
    exact channelValue_digits b' c'
  refine ⟨by rw [red, green, blue]; rfl, ?_⟩
  have := hexValue_lt r'
  have := hexValue_lt s'
  have := hexValue_lt g'
  have := hexValue_lt h'
  have := hexValue_lt b'
  have := hexValue_lt c'
  intro i inside
  match i, inside with
  | 0, _ => omega
  | 1, _ => omega
  | 2, _ => omega

theorem ofNumbers?_decimal {r g b : Nat} (red : r ≤ 255) (green : g ≤ 255) (blue : b ≤ 255) :
    Channels.ofNumbers? ([','].intercalate (([r, g, b]).map (Nat.toDigits 10))) =
      some ⟨r, g, b⟩ := by
  have clean : ∀ piece ∈ [r, g, b].map (Nat.toDigits 10), ',' ∉ piece :=
    List.forall_mem_map.mpr fun n _ member =>
      absurd (isDigit_of_mem_toDigits member) (by decide)
  have small : ∀ {n}, n ≤ 255 → readWord? (Nat.toDigits 10 n) = some n := fun bound =>
    readWord?_toDigits (bound.trans (by decide))
  rw [Channels.ofNumbers?, List.splitOn_intercalate ',' clean (by simp)]
  simp [small red, small green, small blue, red, green, blue]

theorem ofText?_colorText (six : IsSixDigits digits) (preferences : StylePreferences)
    (decimal : Bool) :
    Channels.ofText? (colorText preferences digits decimal).toList =
      Channels.ofPairs? digits := by
  cases decimal with
  | false =>
    rw [colorText, if_neg (by decide), String.toList_ofList]
    exact ofDigits?_printed six preferences.shorten preferences.colorCase
  | true =>
    obtain ⟨same, bound⟩ := channel_eq six
    have numbers := ofNumbers?_decimal (bound 0 (by decide)) (bound 1 (by decide))
      (bound 2 (by decide))
    have text : (colorText preferences digits true).toList = 'r' :: 'g' :: 'b' :: '(' ::
        ([','].intercalate ([channel digits 0, channel digits 1, channel digits 2].map
          (Nat.toDigits 10)) ++ [')']) := by
      simp [colorText, decimalText, List.intercalate]
    rw [text, same, Channels.ofText?, dropLast?, List.getLast?_concat, if_pos rfl,
      List.dropLast_concat]
    exact numbers

end Channels

section Arguments

variable {tables : Tables} {s run : List Char} {digits : String} {decimal : Bool}
  {suffix : Option String}

/-- A run of one to six digits is kept as six that stand for the same channels. -/
theorem expandHex_spec (hex : ∀ c ∈ run, isHexDigit c) (filled : run ≠ [])
    (short : run.length ≤ 6) :
    IsSixDigits (expandHex run) ∧ Channels.ofPairs? (expandHex run) = Channels.ofRun? run := by
  have bytes := utf8ByteSize_digits hex
  have kept : ∀ c ∈ expandHex run, isHexDigit c := fun c member =>
    hex c (expandHex_subset run member)
  unfold expandHex at kept ⊢
  rw [bytes] at kept ⊢
  match run, filled, short with
  | [_], _, _ | [_, _], _, _ | [_, _, _], _, _ | [_, _, _, _], _, _ | [_, _, _, _, _], _, _
  | [_, _, _, _, _, _], _, _ => exact ⟨⟨rfl, kept⟩, rfl⟩
  | _ :: _ :: _ :: _ :: _ :: _ :: _ :: _, _, short =>
    simp only [List.length_cons] at short
    omega

theorem color_of_argument (read : (argument tables s).1 = .color digits decimal suffix) :
    ∃ t, s = '#' :: t ∧ hexRun t ≠ [] ∧ digits = String.ofList (expandHex (hexRun t)) ∧
      decimal = (channelMark (t.drop (hexRun t).length)).1 ∧
      suffix = suffix? tables.preferences.trailingAliases.keys
        (channelMark (t.drop (hexRun t).length)).2 := by
  unfold argument at read
  split at read
  · next found number =>
    obtain ⟨⟨value, rest⟩, -, rfl⟩ := Option.map_eq_some_iff.mp number
    dsimp only at read
    split at read <;> contradiction
  · cases colored : color? tables.preferences s with
    | none =>
      rw [colored] at read
      contradiction
    | some found =>
      rw [colored, Option.getD_some] at read
      unfold color? at colored
      split at colored
      · split at colored
        · contradiction
        · next nonempty =>
          obtain rfl := Option.some.inj colored
          obtain ⟨rfl, rfl, rfl⟩ := Argument.color.inj read
          exact ⟨_, rfl, nonempty, rfl, rfl, rfl⟩
      · contradiction

/-- At most six digits are taken, and all there are up to that. -/
theorem hexRun_spec (t : List Char) :
    ∃ rest, t = hexRun t ++ rest ∧ (hexRun t).length ≤ 6 ∧ (∀ c ∈ hexRun t, isHexDigit c) ∧
      ((hexRun t).length < 6 → Stops isHexDigit rest) := by
  have front : hexRun t <+: t := (List.takeWhile_prefix _).trans (List.take_prefix 6 t)
  obtain ⟨rest, split⟩ := front
  have short : (hexRun t).length ≤ 6 :=
    ((List.takeWhile_prefix _).length_le).trans (List.length_take_le 6 t)
  have hex : ∀ c ∈ hexRun t, isHexDigit c := fun c member => List.mem_takeWhile_imp member
  refine ⟨rest, split.symm, short, hex, fun less c next => Bool.eq_false_iff.mpr fun digit => ?_⟩
  -- One more digit would have been taken.
  obtain ⟨more, rfl⟩ := List.head?_eq_some_iff.mp next
  obtain ⟨room, count⟩ : ∃ room, 6 - (hexRun t).length = room + 1 := ⟨5 - (hexRun t).length, by omega⟩
  have longer : hexRun t = hexRun t ++ c :: (more.take room).takeWhile isHexDigit := by
    calc hexRun t
        = ((hexRun t ++ c :: more).take 6).takeWhile isHexDigit := by rw [split]; rfl
      _ = hexRun t ++ c :: (more.take room).takeWhile isHexDigit := by
        rw [List.take_append, List.take_of_length_le short, count, List.take_succ_cons,
          List.takeWhile_append_of_pos hex, List.takeWhile_cons_of_pos digit]
  have length := congrArg List.length longer
  simp at length

/-- Every color among the arguments of a text is one to six digits behind a `#`, all that stand
there up to six, and is kept as six digits that stand for the same channels. Whatever is
preferred, and whether the channels are asked for or not, its text is one that denotes these
channels. -/
theorem color_keeps_channels (tables : Tables)
    (member : .color digits decimal suffix ∈ arguments tables s) :
    digits.length = 6 ∧ (∀ c ∈ digits.toList, isHexDigit c) ∧
      ∃ run rest channels, '#' :: (run ++ rest) <:+ s ∧ run ≠ [] ∧ run.length ≤ 6 ∧
        (∀ c ∈ run, isHexDigit c) ∧ (run.length < 6 → Stops isHexDigit rest) ∧
        Channels.ofRun? run = some channels ∧ Channels.ofPairs? digits.toList = some channels ∧
        ∀ preferences asked unitless, ∃ text more,
          (Argument.color digits asked suffix).texts preferences unitless = text :: more ∧
            Channels.ofText? text.toList = some channels := by
  obtain ⟨t, inside, -, -, read⟩ := exists_argument_of_mem member
  obtain ⟨t, rfl, filled, rfl, -, -⟩ := color_of_argument read
  obtain ⟨rest, split, short, hex, greedy⟩ := hexRun_spec t
  obtain ⟨six, same⟩ := expandHex_spec hex filled short
  obtain ⟨known, -⟩ := channel_eq six
  rw [String.length_ofList, String.toList_ofList]
  refine ⟨six.length, six.hex, hexRun t, rest, _, split ▸ inside, filled, short, hex, greedy,
    same.symm.trans known, known, fun preferences asked unitless => ⟨_, _, rfl, ?_⟩⟩
  rw [String.toList_ofList, ofText?_colorText six, known]

theorem color_keeps_channels_mixed :
    .color "FFaa00" true (some "i") ∈ arguments Tables.builtin "1 #Fa0rgbi #1234".toList ∧
      ∀ preferences asked unitless, ∃ text more,
        (Argument.color "FFaa00" asked (some "i")).texts preferences unitless = text :: more ∧
          Channels.ofText? text.toList = some ⟨255, 170, 0⟩ := by
  have read : arguments Tables.builtin "1 #Fa0rgbi #1234".toList =
      [.numeric "1" "px" true, .color "FFaa00" true (some "i"), .color "123412" false none] := by
    cbv
  have member : .color "FFaa00" true (some "i") ∈
      arguments Tables.builtin "1 #Fa0rgbi #1234".toList := by
    rw [read]
    exact List.mem_cons_of_mem _ List.mem_cons_self
  obtain ⟨-, -, _, _, channels, -, -, -, -, -, -, known, printed⟩ :=
    color_keeps_channels Tables.builtin member
  obtain rfl : ⟨255, 170, 0⟩ = channels := Option.some.inj known
  exact ⟨member, printed⟩

end Arguments

end Shorthand.Style
