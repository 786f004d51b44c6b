import Mathlib.Algebra.GroupWithZero.Nat
import Shorthand.Proofs.Machine.Registers

/-! What holds at every moment of a reading, and that each change keeps it. The depth stays
below a bound although an alias starts the reading over on an unrelated text: while its text
is being read the alias is open, and an open alias is not opened again. -/
namespace Shorthand.Abbreviation.Machine

open StateTransition (Reaches)

def Frame.isLevel : Frame → Bool
  | .level => true
  | _ => false

def Frame.name? : Frame → Option String
  | .opened name => some name
  | _ => none

/-- How deep the expressions on the stack are nested. -/
def levels (stack : List Frame) : Nat := stack.countP Frame.isLevel

/-- The aliases whose texts the stack is reading, the latest first. -/
def openedBy (stack : List Frame) : List String := stack.filterMap Frame.name?

section Stack

variable {frame : Frame} (stack : List Frame)

theorem levels_level : levels (.level :: stack) = levels stack + 1 :=
  List.countP_cons_of_pos rfl

theorem levels_of_not_level (other : frame.isLevel = false) :
    levels (frame :: stack) = levels stack :=
  List.countP_cons_of_neg (by simp [other])

theorem levels_of_plain (plain : frame.isMark = false) :
    levels (frame :: stack) = levels stack := by
  apply levels_of_not_level
  cases frame <;> first | rfl | contradiction

theorem openedBy_of_plain (plain : frame.isMark = false) :
    openedBy (frame :: stack) = openedBy stack := by
  cases frame <;> first | rfl | contradiction

end Stack

/-- How many levels the text of an alias may take. -/
def sourceLevels : Option Alias → Nat
  | some (.source text) => text.toList.length + 1
  | _ => 0

/-- How deep expressions can be nested in a text of the given length and in the texts of the
aliases that are opened in it. -/
def reach (aliases : AliasTable) (length : Nat) (opened : List String) : Nat :=
  length + 1 + (opened.map fun name => sourceLevels (aliases.get? name)).sum

/-- How deep expressions can be nested where every alias is opened. -/
def deepest (aliases : AliasTable) (length : Nat) : Nat :=
  length + 1 + (aliases.map fun entry => sourceLevels (some entry.2)).sum

theorem sum_sourceLevels_le {aliases : AliasTable} {names : List String} (distinct : names.Nodup) :
    (names.map fun name => sourceLevels (aliases.get? name)).sum ≤
      (aliases.map fun entry => sourceLevels (some entry.2)).sum := by
  induction aliases generalizing names with
  | nil => simp [Table.get?, sourceLevels]
  | cons entry rest ih =>
    obtain ⟨key, value⟩ := entry
    have later : ∀ names : List String, key ∉ names →
        (names.map fun name => sourceLevels (Table.get? ((key, value) :: rest) name)) =
          names.map fun name => sourceLevels (Table.get? rest name) := by
      intro names absent
      refine List.map_congr_left fun name member => ?_
      rw [Table.get?, if_neg fun same : key = name => absent (same ▸ member)]
    rw [List.map_cons, List.sum_cons]
    by_cases member : key ∈ names
    · rw [((List.perm_cons_erase member).map _).sum_eq, List.map_cons, List.sum_cons,
        later _ (List.Nodup.not_mem_erase distinct), Table.get?, if_pos rfl]
      exact Nat.add_le_add_left (ih (distinct.erase key)) _
    · rw [later names member]
      exact (ih distinct).trans (Nat.le_add_left _ _)

/-- Every frame finds the characters that it goes on with in the texts below it. -/
def Within (aliases : AliasTable) (length : Nat) : List Frame → Prop
  | [] => True
  | frame :: below =>
    levels below + frame.demand ≤ reach aliases length (openedBy below) ∧
      Within aliases length below

/-- At every moment of a reading the stack tells the registers, the opened aliases are
distinct and have their texts still to be read, and the input at hand is short enough. -/
structure Sound (aliases : AliasTable) (length : Nat) (c : Config) : Prop where
  depth_eq : c.depth = levels c.stack
  opened_eq : c.opened = openedBy c.stack
  distinct : c.opened.Nodup
  sources : ∀ name ∈ c.opened, ∃ text, c.memory.aliases.get? name = some (.source text)
  /-- No alias gets a text on the way. -/
  kept : ∀ name text, c.memory.aliases.get? name = some (.source text) →
    aliases.get? name = some (.source text)
  room : c.depth + c.control.demand ≤ reach aliases length c.opened
  frames : Within aliases length c.stack

theorem get?_remember_source {memory : Memory} {name other text : String} {tree : Node}
    (h : (memory.remember name tree).aliases.get? other = some (.source text)) :
    memory.aliases.get? other = some (.source text) := by
  by_cases same : other = name
  · subst same
    unfold Memory.remember at h
    split at h
    · exact h
    · rw [Table.get?_insert_self] at h
      cases h
  · rwa [get?_remember_of_ne same] at h

section Sound

variable {limits : Limits} {aliases : AliasTable} {length : Nat} {c c' : Config}

theorem Sound.change (sound : Sound aliases length c) (change : Change c c') :
    Sound aliases length c' := by
  obtain ⟨depth_eq, opened_eq, distinct, sources, kept, room, frames⟩ := sound
  cases change with
  | goes less =>
    exact ⟨depth_eq, opened_eq, distinct, sources, kept,
      (Nat.add_le_add_left less _).trans room, frames⟩
  | @noted name inside =>
    have same := aliases_noteCycle c.memory c.opened name
    refine ⟨depth_eq, opened_eq, distinct, ?_, ?_, (Nat.le_add_right _ _).trans room, frames⟩
    · exact fun other member => (sources other member).imp fun _ => same ▸ id
    · exact fun other text known => kept other text (same ▸ known)
  | called plain demand less =>
    refine ⟨?_, ?_, distinct, sources, kept, (Nat.add_le_add_left less _).trans room, ?_, frames⟩
    · exact depth_eq.trans (levels_of_plain _ plain).symm
    · exact opened_eq.trans (openedBy_of_plain _ plain).symm
    · rw [← depth_eq, ← opened_eq]
      exact (Nat.add_le_add_left demand _).trans room
  | @resumed frame stack control waiting plain less =>
    rw [waiting] at depth_eq opened_eq frames
    rw [levels_of_plain _ plain] at depth_eq
    rw [openedBy_of_plain _ plain] at opened_eq
    obtain ⟨below, frames⟩ := frames
    refine ⟨depth_eq, opened_eq, distinct, sources, kept, ?_, frames⟩
    rw [← depth_eq, ← opened_eq] at below
    dsimp only
    omega
  | @entered s control =>
    rw [control] at room
    refine ⟨?_, opened_eq, distinct, sources, kept, ?_, ?_, frames⟩
    · exact (congrArg (· + 1) depth_eq).trans (levels_level _).symm
    · simp only [Config.call, Control.demand] at room ⊢
      omega
    · rw [← depth_eq, ← opened_eq]
      exact (Nat.add_le_add_left (Nat.zero_le _) _).trans room
  | @left stack waiting =>
    rw [waiting] at depth_eq opened_eq frames
    rw [levels_level] at depth_eq
    refine ⟨?_, opened_eq, distinct, sources, kept, ?_, frames.2⟩
    · simp only [depth_eq, Nat.add_sub_cancel]
    · exact (Nat.add_le_add_right (Nat.sub_le _ _) _).trans room
  | @opened name text outside source =>
    refine ⟨?_, ?_, List.nodup_cons.mpr ⟨outside, distinct⟩, ?_, kept, ?_, ?_, frames⟩
    · exact depth_eq.trans (levels_of_not_level _ rfl).symm
    · exact congrArg (name :: ·) opened_eq
    · exact List.forall_mem_cons.mpr ⟨⟨text, source⟩, sources⟩
    -- The text that comes in is paid for by the one more name in `reach`.
    · have more : sourceLevels (aliases.get? name) = text.toList.length + 1 := by
        rw [kept name text source, sourceLevels]
      simp only [Config.call, Control.demand, reach, List.map_cons, List.sum_cons, more] at room ⊢
      omega
    · rw [← depth_eq, ← opened_eq]
      exact (Nat.add_le_add_left (Nat.zero_le _) _).trans room
  | @closed name stack control memory waiting idle remembered =>
    rw [waiting] at depth_eq opened_eq frames
    rw [levels_of_not_level _ rfl] at depth_eq
    rw [opened_eq] at distinct sources
    obtain ⟨below, frames⟩ := frames
    obtain ⟨absent, distinct⟩ := List.nodup_cons.mp distinct
    have tail : c.opened.tail = openedBy stack := congrArg List.tail opened_eq
    refine ⟨depth_eq, tail, tail ▸ distinct, ?_, ?_, ?_, frames⟩
    · rw [tail]
      intro other member
      obtain ⟨text, known⟩ := sources other (List.mem_cons_of_mem _ member)
      refine ⟨text, ?_⟩
      obtain rfl | ⟨tree, rfl⟩ := remembered
      · exact known
      · exact (get?_remember_of_ne fun same : other = name => absent (same ▸ member)).trans known
    · intro other text known
      obtain rfl | ⟨tree, rfl⟩ := remembered
      · exact kept other text known
      · exact kept other text (get?_remember_source known)
    -- The reading goes on in the text below, where the frame of the alias found room.
    · rw [tail]
      rw [← depth_eq] at below
      exact (Nat.add_le_add_left (idle ▸ Nat.zero_le _) _).trans below

theorem Sound.reaches (sound : Sound aliases length c) (path : Reaches (step limits) c c') :
    Sound aliases length c' := by
  induction path with
  | refl => exact sound
  | tail _ step ih => exact ih.change (change_of_step step)

theorem sound_start (aliases : AliasTable) (s : List Char) :
    Sound aliases s.length (start aliases s) :=
  ⟨rfl, rfl, .nil, List.forall_mem_nil _, fun _ _ => id,
    by simp [start, Control.demand, reach], trivial⟩

theorem Sound.depth_le (sound : Sound aliases length c) :
    c.depth ≤ deepest aliases length :=
  (Nat.le_add_right _ _).trans
    (sound.room.trans (Nat.add_le_add_left (sum_sourceLevels_le sound.distinct) _))

end Sound

end Shorthand.Abbreviation.Machine
