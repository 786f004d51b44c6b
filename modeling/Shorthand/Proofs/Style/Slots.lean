import Mathlib
import Shorthand.Proofs.Scanning.Span
import Shorthand.Style.Formatter

/-! Filling slots. A formatter whose slots are numbered from the left is a row of slots, each
with the characters in front of it, and the characters behind the last. Arguments go into the
slots one after the other, all that are left over into the last; a slot for which there is no
argument shows its fallback. So what an argument is followed by is a blank and the next argument,
or a blank and the next fallback, wherever a blank stands in front of the slots. -/
namespace Shorthand.Style

/-- A slot and the characters between it and the slot before. -/
structure Slot where
  gap : List Char
  fallback : List Char
deriving DecidableEq

namespace Slot

/-- The pieces of slots with numbers from `index` on. -/
def pieces (index : Nat) : List Slot → List FormatPiece
  | [] => []
  | slot :: rest => slot.gap.map .char ++ .slot index slot.fallback :: pieces (index + 1) rest

/-- Slots with one text each. -/
def place : List Slot → List String → List Char
  | [], _ => []
  | slot :: rest, texts =>
    slot.gap ++ (texts.head?.map String.toList).getD slot.fallback ++ place rest texts.tail

/-- Slots with arguments in them, surplus ones in the last. -/
def fill : List Slot → List String → List Char
  | [], _ => []
  | [slot], [] => slot.gap ++ slot.fallback
  | [slot], arg :: args => slot.gap ++ (" ".intercalate (arg :: args)).toList
  | slot :: next :: rest, [] => slot.gap ++ slot.fallback ++ fill (next :: rest) []
  | slot :: next :: rest, arg :: args => slot.gap ++ arg.toList ++ fill (next :: rest) args

end Slot

/-- The formatter with the slots and the characters behind them. -/
def Formatter.ofSlots (slots : List Slot) (rest : List Char) : Formatter :=
  ⟨Slot.pieces 0 slots ++ rest.map .char⟩

section Format

variable {slots : List Slot} {rest : List Char}

theorem slotIndices_chars (s : List Char) :
    (s.map FormatPiece.char).filterMap Formatter.slotIndex? = [] := by
  simp [List.filterMap_map, Formatter.slotIndex?]

theorem slotIndices_pieces (index : Nat) (slots : List Slot) :
    (Slot.pieces index slots).filterMap Formatter.slotIndex? =
      List.range' index slots.length := by
  induction slots generalizing index with
  | nil => rfl
  | cons slot rest ih =>
    rw [Slot.pieces, List.filterMap_append, slotIndices_chars, List.nil_append,
      List.filterMap_cons, ih, List.length_cons, List.range'_succ]
    rfl

theorem lastSlot?_ofSlots (slots : List Slot) (rest : List Char) :
    (Formatter.ofSlots slots rest).lastSlot? =
      if slots = [] then none else some (slots.length - 1) := by
  rw [Formatter.lastSlot?, Formatter.ofSlots, List.filterMap_append, slotIndices_pieces,
    slotIndices_chars, List.append_nil]
  split
  · next none => rw [none]; rfl
  · next some =>
    have positive := List.length_pos_iff.mpr some
    refine List.max?_eq_some_iff.mpr ⟨List.mem_range'_1.mpr (by omega), fun index member => ?_⟩
    have bound := List.mem_range'_1.mp member
    omega

theorem slotCount_ofSlots (slots : List Slot) (rest : List Char) :
    (Formatter.ofSlots slots rest).slotCount = slots.length := by
  rw [Formatter.slotCount, lastSlot?_ofSlots]
  cases slots <;> simp

/-- The texts for slots up to `last`, of which the last takes all that is left. -/
def gather : Nat → List String → List String
  | _, [] => []
  | 0, arg :: args => [" ".intercalate (arg :: args)]
  | last + 1, arg :: args => arg :: gather last args

theorem gather_eq (last : Nat) (args : List String) :
    (if last < args.length then args.take last ++ [" ".intercalate (args.drop last)] else args) =
      gather last args := by
  fun_induction gather last args with
  | case1 => simp
  | case2 => simp
  | case3 last arg args ih =>
    rw [← ih, List.length_cons]
    by_cases more : last < args.length <;> simp [more]

theorem place_gather (slot : Slot) (rest : List Slot) (args : List String) :
    Slot.place (slot :: rest) (gather rest.length args) = Slot.fill (slot :: rest) args := by
  induction rest generalizing slot args with
  | nil => cases args <;> simp [Slot.place, Slot.fill, gather]
  | cons next rest ih =>
    cases args with
    | nil =>
      have empty := ih next []
      rw [gather] at empty
      rw [gather, Slot.place, Slot.fill, List.tail_nil, empty]
      rfl
    | cons arg args =>
      rw [List.length_cons, gather, Slot.place, Slot.fill, List.tail_cons, ih]
      rfl

/-- What a piece shows, given the texts of the slots. -/
def shownPiece (texts : List String) : FormatPiece → List Char
  | .char c => [c]
  | .slot index fallback => ((texts[index]?).map String.toList).getD fallback

theorem shownPiece_chars (texts : List String) (s : List Char) :
    (s.map FormatPiece.char).flatMap (shownPiece texts) = s := by
  rw [List.flatMap_map]
  exact List.flatMap_singleton' s

theorem shownPiece_pieces (texts : List String) (index : Nat) (slots : List Slot) :
    (Slot.pieces index slots).flatMap (shownPiece texts) = Slot.place slots (texts.drop index) := by
  induction slots generalizing index with
  | nil => rfl
  | cons slot rest ih =>
    rw [Slot.pieces, List.flatMap_append, shownPiece_chars, List.flatMap_cons, ih, Slot.place,
      List.head?_drop, List.tail_drop, List.append_assoc]
    rfl

theorem format_ofSlots (slots : List Slot) (rest : List Char) (args : List String) :
    ((Formatter.ofSlots slots rest).format args).toList = Slot.fill slots args ++ rest := by
  have shown : ((Formatter.ofSlots slots rest).format args).toList =
      ((Formatter.ofSlots slots rest).pieces).flatMap
        (shownPiece ((Formatter.ofSlots slots rest).slotTexts args)) := String.toList_ofList
  rw [shown, Formatter.ofSlots, List.flatMap_append, shownPiece_chars, shownPiece_pieces,
    List.drop_zero, ← Formatter.ofSlots, Formatter.slotTexts, lastSlot?_ofSlots]
  cases slots with
  | nil => rfl
  | cons slot others =>
    rw [if_neg (List.cons_ne_nil slot others)]
    dsimp only
    rw [gather_eq, ← place_gather]
    rfl

end Format

section Fill

variable {slots : List Slot} {args : List String} {property : Char → Prop}

theorem toList_intercalate_blank (text : String) (texts : List String) :
    (" ".intercalate (text :: texts)).toList =
      text.toList ++ (texts.map String.toList).flatMap (' ' :: ·) := by
  induction texts generalizing text with
  | nil => simp
  | cons next rest ih =>
    rw [String.intercalate_cons_cons, String.toList_append, ih]
    simp

/-- What is true of all that goes into a row is true of the row. -/
theorem forall_mem_fill (blank : property ' ')
    (own : ∀ slot ∈ slots, ∀ c ∈ slot.gap ++ slot.fallback, property c)
    (given : ∀ arg ∈ args, ∀ c ∈ arg.toList, property c) :
    ∀ c ∈ Slot.fill slots args, property c := by
  fun_induction Slot.fill slots args with
  | case1 => exact List.forall_mem_nil _
  | case2 slot => exact own slot List.mem_cons_self
  | case3 slot arg args =>
    have gap := (List.forall_mem_append.mp (own slot List.mem_cons_self)).1
    refine List.forall_mem_append.mpr ⟨gap, fun c member => ?_⟩
    rw [String.toList_intercalate] at member
    obtain rfl | ⟨piece, inside, member⟩ := mem_intercalate member
    · exact blank
    · obtain ⟨arg, here, rfl⟩ := List.mem_map.mp inside
      exact given arg here c member
  | case4 slot next rest ih =>
    obtain ⟨first, later⟩ := List.forall_mem_cons.mp own
    exact List.forall_mem_append.mpr ⟨first, ih later given⟩
  | case5 slot next rest arg args ih =>
    obtain ⟨first, later⟩ := List.forall_mem_cons.mp own
    obtain ⟨here, there⟩ := List.forall_mem_cons.mp given
    have gap := (List.forall_mem_append.mp first).1
    exact List.forall_mem_append.mpr
      ⟨List.forall_mem_append.mpr ⟨gap, here⟩, ih later there⟩

/-- Behind blanks stand the arguments, and the fallbacks of the slots that are left. -/
theorem fill_spaced (some : slots ≠ []) (spaced : ∀ slot ∈ slots, slot.gap = [' '])
    (args : List String) :
    Slot.fill slots args = (args.map String.toList ++
      (slots.drop args.length).map Slot.fallback).flatMap (' ' :: ·) := by
  fun_induction Slot.fill slots args with
  | case1 => contradiction
  | case2 slot => simp [spaced]
  | case3 slot arg args =>
    rw [toList_intercalate_blank, spaced slot List.mem_cons_self]
    simp
  | case4 slot next rest ih =>
    obtain ⟨first, later⟩ := List.forall_mem_cons.mp spaced
    rw [ih (List.cons_ne_nil next rest) later, first]
    simp
  | case5 slot next rest arg args ih =>
    obtain ⟨first, later⟩ := List.forall_mem_cons.mp spaced
    rw [ih (List.cons_ne_nil next rest) later, first]
    simp

/-- What stands behind an argument, if the slots behind its own have a blank in front. -/
theorem fill_behind (blank : property ' ') (some : slots ≠ [])
    (own : ∀ slot ∈ slots, ∀ c ∈ slot.gap ++ slot.fallback, property c)
    {before : List String} (given : ∀ arg ∈ before, ∀ c ∈ arg.toList, property c)
    (spaced : ∀ slot ∈ slots.drop (before.length + 1), slot.gap = [' '])
    (text : String) (behind : List String) :
    ∃ front : List Char, (∀ c ∈ front, property c) ∧
      Slot.fill slots (before ++ text :: behind) = front ++ text.toList ++
        (behind.map String.toList ++
          (slots.drop (before ++ text :: behind).length).map Slot.fallback).flatMap (' ' :: ·) := by
  induction before generalizing slots with
  | nil =>
    obtain ⟨slot, rest, rfl⟩ := List.exists_cons_of_ne_nil some
    have gap := (List.forall_mem_append.mp (own slot List.mem_cons_self)).1
    refine ⟨slot.gap, gap, ?_⟩
    cases rest with
    | nil =>
      rw [List.nil_append, Slot.fill, toList_intercalate_blank]
      simp
    | cons next rest =>
      rw [List.nil_append, Slot.fill, fill_spaced (List.cons_ne_nil next rest) spaced]
      simp
  | cons arg before ih =>
    obtain ⟨slot, rest, rfl⟩ := List.exists_cons_of_ne_nil some
    obtain ⟨first, later⟩ := List.forall_mem_cons.mp own
    obtain ⟨here, there⟩ := List.forall_mem_cons.mp given
    have gap := (List.forall_mem_append.mp first).1
    cases rest with
    | nil =>
      -- All arguments go into this slot.
      have blanks : ∀ c ∈ (before.map String.toList).flatMap (' ' :: ·), property c := by
        intro c member
        obtain ⟨piece, inside, member⟩ := List.mem_flatMap.mp member
        obtain ⟨arg, known, rfl⟩ := List.mem_map.mp inside
        exact (List.mem_cons.mp member).elim (· ▸ blank) (there arg known c)
      refine ⟨slot.gap ++ arg.toList ++ (before.map String.toList).flatMap (' ' :: ·) ++ [' '],
        ?_, ?_⟩
      · simp only [List.forall_mem_append, List.forall_mem_singleton]
        exact ⟨⟨⟨gap, here⟩, blanks⟩, blank⟩
      · rw [List.cons_append, Slot.fill, toList_intercalate_blank]
        simp
    | cons next rest =>
      obtain ⟨front, clean, filled⟩ := ih (List.cons_ne_nil next rest) later there spaced
      refine ⟨slot.gap ++ arg.toList ++ front, ?_, ?_⟩
      · simp only [List.forall_mem_append]
        exact ⟨⟨gap, here⟩, clean⟩
      · rw [List.cons_append, Slot.fill, filled]
        simp

end Fill

end Shorthand.Style
