import Shorthand.Proofs.Style.Placeholder
import Shorthand.Proofs.Style.Slots

/-! Formatting as substitution. What a compiled source shows is the source with its placeholders
replaced, all at once, and the text between them kept. Each slot shows its own argument and the
highest slot all that are left, so no argument is lost where every slot up to the highest has a
placeholder. -/
namespace Shorthand.Style

variable {s gap rest tail : List Char} {parts : List Part} {args : List String} {slot last : Nat}

/-- The slots of the placeholders, the first of which has the position. -/
def slotsFrom (position : Nat) : List Part → List Nat
  | [] => []
  | part :: rest => part.placeholder.slot position :: slotsFrom (position + 1) rest

def highestSlot (parts : List Part) : Nat := (slotsFrom 0 parts).max?.getD 0

/-- The text in a slot: its argument, or all arguments from there on if it is the last slot. -/
def shown (last : Nat) (args : List String) (slot : Nat) (fallback : List Char) : List Char :=
  match args.drop slot with
  | [] => fallback
  | arg :: more => if slot < last then arg.toList else (" ".intercalate (arg :: more)).toList

/-- The parts with every placeholder replaced. -/
def replaced (last : Nat) (args : List String) (position : Nat) : List Part → List Char
  | [] => []
  | part :: rest =>
    part.gap ++ shown last args (part.placeholder.slot position) part.placeholder.fallback ++
      replaced last args (position + 1) rest

/-- The text with the arguments in place of its placeholders. -/
def substitute (parts : List Part) (tail : List Char) (args : List String) : List Char :=
  replaced (highestSlot parts) args 0 parts ++ tail

section Pieces

theorem piecesOf_slot {position : Nat} {piece : FormatPiece}
    (read : Formatter.leadingSlot? position s = some (piece, rest)) :
    Formatter.piecesOf position s = piece :: Formatter.piecesOf (position + 1) rest := by
  rw [Formatter.piecesOf]
  split
  · next found =>
    obtain ⟨rfl, rfl⟩ := Prod.mk.inj (Option.some.inj (found.symm.trans read))
    rfl
  · next none => rw [none] at read; contradiction

theorem piecesOf_char {position : Nat} {c : Char}
    (none : Formatter.leadingSlot? position (c :: s) = none) :
    Formatter.piecesOf position (c :: s) = .char c :: Formatter.piecesOf position s := by
  rw [Formatter.piecesOf]
  split
  · next found => rw [found] at none; contradiction
  · rfl

theorem piecesOf_verbatim (verbatim : IsVerbatim gap rest) (position : Nat) :
    Formatter.piecesOf position (gap ++ rest) =
      gap.map .char ++ Formatter.piecesOf position rest := by
  induction gap with
  | nil => rfl
  | cons c gap ih =>
    obtain ⟨none, later⟩ := isVerbatim_cons.mp verbatim
    have here := (leadingSlot?_eq_none_iff position).mpr ((leadingSlot?_eq_none_iff 0).mp none)
    rw [List.cons_append, piecesOf_char here, ih later]
    rfl

/-- The pieces of the parts. -/
def piecesFrom (position : Nat) : List Part → List FormatPiece
  | [] => []
  | part :: rest =>
    part.gap.map .char ++ part.placeholder.piece position :: piecesFrom (position + 1) rest

theorem piecesOf_isCut (cut : IsCut s parts tail) (position : Nat) :
    Formatter.piecesOf position s = piecesFrom position parts ++ tail.map .char := by
  induction cut generalizing position with
  | @behind tail verbatim =>
    have whole := piecesOf_verbatim verbatim position
    have none : Formatter.piecesOf position [] = [] := by
      rw [Formatter.piecesOf]
      rfl
    rwa [List.append_nil, none, List.append_nil] at whole
  | part verbatim wellFormed _ ih =>
    rw [piecesOf_verbatim verbatim, piecesOf_slot (Placeholder.leadingSlot?_chars wellFormed _ _),
      ih, piecesFrom, List.append_assoc, List.cons_append]

theorem slotIndices_piecesFrom (position : Nat) (parts : List Part) :
    (piecesFrom position parts).filterMap Formatter.slotIndex? = slotsFrom position parts := by
  induction parts generalizing position with
  | nil => rfl
  | cons part rest ih =>
    rw [piecesFrom, List.filterMap_append, slotIndices_chars, List.nil_append,
      List.filterMap_cons, ih]
    rfl

end Pieces

section Showing

/-- The texts that arguments are gathered to are what the slots up to the last show. -/
theorem getElem?_gather (inside : slot ≤ last) (fallback : List Char) :
    (((gather last args)[slot]?).map String.toList).getD fallback =
      shown last args slot fallback := by
  fun_induction gather last args generalizing slot with
  | case1 => simp [shown]
  | case2 arg args =>
    obtain rfl := Nat.le_zero.mp inside
    rfl
  | case3 last arg args ih =>
    cases slot with
    | zero => rfl
    | succ slot =>
      rw [List.getElem?_cons_succ, ih (Nat.le_of_succ_le_succ inside)]
      simp [shown]

theorem shown_piecesFrom (position : Nat) (below : ∀ slot ∈ slotsFrom position parts, slot ≤ last) :
    (piecesFrom position parts).flatMap (shownPiece (gather last args)) =
      replaced last args position parts := by
  induction parts generalizing position with
  | nil => rfl
  | cons part rest ih =>
    obtain ⟨here, later⟩ := List.forall_mem_cons.mp below
    rw [piecesFrom, List.flatMap_append, shownPiece_chars, List.flatMap_cons, ih _ later, replaced,
      ← getElem?_gather here, List.append_assoc]
    rfl

end Showing

section Format

variable {source : String}

theorem pieces_compile (cut : IsCut source.toList parts tail) :
    (Formatter.compile source).pieces = piecesFrom 0 parts ++ tail.map .char :=
  piecesOf_isCut cut 0

theorem lastSlot?_compile (cut : IsCut source.toList parts tail) :
    (Formatter.compile source).lastSlot? = (slotsFrom 0 parts).max? := by
  rw [Formatter.lastSlot?, pieces_compile cut, List.filterMap_append, slotIndices_piecesFrom,
    slotIndices_chars, List.append_nil]

theorem le_highestSlot (inside : slot ∈ slotsFrom 0 parts) : slot ≤ highestSlot parts := by
  obtain ⟨last, highest⟩ :=
    Option.isSome_iff_exists.mp (List.isSome_max?_of_mem inside)
  rw [highestSlot, highest, Option.getD_some]
  exact (List.max?_eq_some_iff.mp highest).2 slot inside

theorem format_isCut (cut : IsCut source.toList parts tail) (args : List String) :
    ((Formatter.compile source).format args).toList = substitute parts tail args := by
  have whole : ((Formatter.compile source).format args).toList =
      (Formatter.compile source).pieces.flatMap
        (shownPiece ((Formatter.compile source).slotTexts args)) := String.toList_ofList
  rw [whole, pieces_compile cut, List.flatMap_append, shownPiece_chars, substitute]
  refine congrArg (· ++ tail) ?_
  cases parts with
  | nil => rfl
  | cons part rest =>
    obtain ⟨last, highest⟩ : ∃ last, (slotsFrom 0 (part :: rest)).max? = some last :=
      Option.isSome_iff_exists.mp (List.isSome_max?_of_mem List.mem_cons_self)
    have same : last = highestSlot (part :: rest) := by rw [highestSlot, highest, Option.getD_some]
    rw [Formatter.slotTexts, lastSlot?_compile cut, highest]
    dsimp only
    rw [gather_eq, same]
    exact shown_piecesFrom 0 fun _ => le_highestSlot

end Format

section Coverage

theorem shown_infix {position : Nat} (inside : slot ∈ slotsFrom position parts) :
    ∃ fallback, shown last args slot fallback <:+: replaced last args position parts := by
  induction parts generalizing position with
  | nil => contradiction
  | cons part rest ih =>
    obtain rfl | later := List.mem_cons.mp inside
    · exact ⟨part.placeholder.fallback, List.infix_append _ _ _⟩
    · obtain ⟨fallback, there⟩ := ih later
      exact ⟨fallback, there.trans (List.suffix_append _ _).isInfix⟩

theorem infix_intercalate {arg : String} (member : arg ∈ args) :
    arg.toList <:+: (" ".intercalate args).toList := by
  cases args with
  | nil => contradiction
  | cons first rest =>
    rw [toList_intercalate_blank]
    obtain rfl | later := List.mem_cons.mp member
    · exact (List.prefix_append _ _).isInfix
    · have piece : ' ' :: arg.toList ∈ (rest.map String.toList).map (' ' :: ·) :=
        List.mem_map_of_mem (List.mem_map_of_mem later)
      have inside : ' ' :: arg.toList <:+: (rest.map String.toList).flatMap (' ' :: ·) :=
        List.infix_of_mem_flatten piece
      exact ((List.suffix_cons _ _).isInfix.trans inside).trans (List.suffix_append _ _).isInfix

/-- An argument is shown in the slot of its own number, or in the last. -/
theorem exists_slot_of_mem {arg : String} (member : arg ∈ args) (last : Nat) :
    ∃ slot ≤ last, ∀ fallback, arg.toList <:+: shown last args slot fallback := by
  obtain ⟨index, inside, rfl⟩ := List.getElem_of_mem member
  by_cases own : index < last
  · refine ⟨index, Nat.le_of_lt own, fun fallback => ?_⟩
    rw [shown, List.drop_eq_getElem_cons inside]
    dsimp only
    rw [if_pos own]
  · refine ⟨last, Nat.le_refl last, fun fallback => ?_⟩
    have left : args[index] ∈ args.drop last :=
      List.mem_drop_iff_getElem.mpr ⟨index - last, by omega, by congr 1; omega⟩
    rw [shown]
    cases rest : args.drop last with
    | nil => rw [rest] at left; contradiction
    | cons arg more =>
      rw [rest] at left
      dsimp only
      rw [if_neg (Nat.lt_irrefl last)]
      exact infix_intercalate left

theorem infix_substitute (covered : ∀ slot ≤ highestSlot parts, slot ∈ slotsFrom 0 parts)
    {arg : String} (member : arg ∈ args) : arg.toList <:+: substitute parts tail args := by
  obtain ⟨slot, below, holds⟩ := exists_slot_of_mem member (highestSlot parts)
  obtain ⟨fallback, here⟩ := shown_infix (covered slot below)
  exact ((holds fallback).trans here).trans (List.prefix_append _ _).isInfix

end Coverage

section Count

/-- A written number is a machine word, and it counts from one. -/
theorem Placeholder.slot_lt (placeholder : Placeholder) (position : Nat) :
    placeholder.slot position < max wordMax (position + 1) := by
  have positive : 0 < wordMax := by decide
  unfold Placeholder.slot
  split
  · omega
  · split
    · next number read =>
      have word := readWord?_le read
      omega
    · omega

theorem slotsFrom_lt {position : Nat} (inside : slot ∈ slotsFrom position parts) :
    slot < max wordMax (position + parts.length) := by
  induction parts generalizing position with
  | nil => contradiction
  | cons part rest ih =>
    rw [List.length_cons]
    obtain rfl | later := List.mem_cons.mp inside
    · have here := part.placeholder.slot_lt position
      omega
    · have there := ih later
      omega

theorem slotCount_le (source : String) :
    (Formatter.compile source).slotCount ≤ max wordMax source.toList.length := by
  obtain ⟨parts, tail, cut⟩ := exists_isCut source.toList
  have short := cut.length_le
  rw [Formatter.slotCount, lastSlot?_compile cut]
  cases highest : (slotsFrom 0 parts).max? with
  | none => exact Nat.zero_le _
  | some last =>
    have bound := slotsFrom_lt (List.max?_mem highest)
    rw [Option.map_some, Option.getD_some]
    omega

end Count

/-- There is one way to cut a source at its placeholders, and formatting replaces them and keeps
the rest. If every slot up to the highest has a placeholder, all arguments appear. The number of
slots is a machine word, whatever numbers are written, unless the source itself is longer than any
machine word. -/
theorem format_substitutes (source : String) :
    (∃! cut : List Part × List Char, IsCut source.toList cut.1 cut.2) ∧
    (∀ parts tail, IsCut source.toList parts tail → ∀ args,
      ((Formatter.compile source).format args).toList = substitute parts tail args ∧
      ((∀ slot ≤ highestSlot parts, slot ∈ slotsFrom 0 parts) →
        ∀ arg ∈ args, arg.toList <:+: ((Formatter.compile source).format args).toList)) ∧
    (Formatter.compile source).slotCount ≤ max wordMax source.toList.length := by
  refine ⟨?_, fun parts tail cut args => ⟨format_isCut cut args, fun covered arg member => ?_⟩,
    slotCount_le source⟩
  · obtain ⟨parts, tail, cut⟩ := exists_isCut source.toList
    exact ⟨(parts, tail), cut, fun _ other => Prod.ext_iff.mpr (other.unique cut)⟩
  · rw [format_isCut cut]
    exact infix_substitute covered member

/-- Numbers out of order, a fallback and a bar. -/
def fontSource : String := "f: $\x7b2:x\x7d | $\x7b1\x7d;"

def fontParts : List Part :=
  [⟨"f: ".toList, .braces ['2'] (some ['x'])⟩, ⟨[' '], .bar⟩, ⟨[' '], .braces ['1'] none⟩]

/-- Two of three arguments go into the highest slot, which has two placeholders. -/
theorem format_substitutes_font :
    IsCut fontSource.toList fontParts [';'] ∧
      (∀ slot ≤ highestSlot fontParts, slot ∈ slotsFrom 0 fontParts) ∧
      (Formatter.compile fontSource).format ["a", "b", "c"] = "f: b c b c a;" ∧
      "c" ∈ ["a", "b", "c"] ∧
      "c".toList <:+: ((Formatter.compile fontSource).format ["a", "b", "c"]).toList := by
  have spelt : fontSource.toList = "f: ".toList ++
      ((Placeholder.braces ['2'] (some ['x'])).chars ++ ([' '] ++ (Placeholder.bar.chars ++
        ([' '] ++ ((Placeholder.braces ['1'] none).chars ++ [';']))))) := by decide
  have cut : IsCut fontSource.toList fontParts [';'] := by
    rw [spelt]
    refine .part (isVerbatim_iff.mpr ?_) ⟨forall_mem_of_all (by decide +kernel), by simp⟩
      (.part (isVerbatim_iff.mpr ?_) trivial
        (.part (isVerbatim_iff.mpr ?_) ⟨forall_mem_of_all (by decide +kernel), by simp⟩
          (.behind (isVerbatim_iff.mpr ?_)))) <;>
    decide +kernel
  have covered : ∀ slot ≤ highestSlot fontParts, slot ∈ slotsFrom 0 fontParts := by decide
  have member : "c" ∈ ["a", "b", "c"] := by decide
  obtain ⟨-, formats, -⟩ := format_substitutes fontSource
  obtain ⟨shows, keeps⟩ := formats fontParts [';'] cut ["a", "b", "c"]
  have text : substitute fontParts [';'] ["a", "b", "c"] = "f: b c b c a;".toList := by cbv
  exact ⟨cut, covered, String.toList_inj.mp (shows.trans text), member, keeps covered "c" member⟩

end Shorthand.Style
