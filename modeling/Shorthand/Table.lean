/-! Finite maps as lists of entries. A table keeps its entries in the order in
which their keys first came, since that order shows in printed attributes. -/
namespace Shorthand

abbrev Table (κ ν : Type) := List (κ × ν)

namespace Table

variable {κ ν : Type} [DecidableEq κ]

def get? : Table κ ν → κ → Option ν
  | [], _ => none
  | (key, value) :: rest, k => if key = k then some value else get? rest k

def has (table : Table κ ν) (k : κ) : Bool := (table.get? k).isSome

/-- The first entry under `k` takes the new value; a new key goes to the end. -/
def insert : Table κ ν → κ → ν → Table κ ν
  | [], k, v => [(k, v)]
  | (key, value) :: rest, k, v =>
    if key = k then (key, v) :: rest else (key, value) :: insert rest k v

/-- Entries are inserted from first to last, so the last one of a key decides. -/
def insertAll (table entries : Table κ ν) : Table κ ν :=
  entries.foldl (fun table entry => table.insert entry.1 entry.2) table

def erase (table : Table κ ν) (k : κ) : Table κ ν := table.filter fun entry => entry.1 ≠ k

def keys (table : Table κ ν) : List κ := table.map (·.1)

theorem mem_of_get? {table : Table κ ν} {k : κ} {v : ν} (h : table.get? k = some v) :
    (k, v) ∈ table := by
  induction table with
  | nil => contradiction
  | cons entry rest ih =>
    obtain ⟨key, value⟩ := entry
    rw [get?] at h
    split at h
    · next same =>
      obtain rfl := Option.some.inj h
      exact same ▸ List.mem_cons_self
    · exact List.mem_cons_of_mem _ (ih h)

theorem mem_insert {table : Table κ ν} {k : κ} {v : ν} {entry : κ × ν}
    (h : entry ∈ table.insert k v) : entry ∈ table ∨ entry = (k, v) := by
  induction table with
  | nil => exact .inr (List.mem_singleton.mp h)
  | cons first rest ih =>
    obtain ⟨key, value⟩ := first
    rw [insert] at h
    split at h
    · next same =>
      subst same
      exact (List.mem_cons.mp h).symm.imp_left (List.mem_cons_of_mem _)
    · rcases List.mem_cons.mp h with rfl | h
      · exact .inl List.mem_cons_self
      · exact (ih h).imp_left (List.mem_cons_of_mem _)

theorem get?_insert_self (table : Table κ ν) (k : κ) (v : ν) :
    (table.insert k v).get? k = some v := by
  induction table with
  | nil => simp [insert, get?]
  | cons entry rest ih =>
    obtain ⟨key, value⟩ := entry
    by_cases h : key = k <;> simp [insert, get?, h, ih]

theorem get?_insert_of_ne {table : Table κ ν} {k l : κ} (v : ν) (h : l ≠ k) :
    (table.insert k v).get? l = table.get? l := by
  induction table with
  | nil => simp [insert, get?, Ne.symm h]
  | cons entry rest ih =>
    obtain ⟨key, value⟩ := entry
    by_cases hk : key = k
    · subst hk; simp [insert, get?, Ne.symm h]
    · simp only [insert, get?, if_neg hk, ih]

/-- A value that takes the place of another one takes its key. -/
theorem keys_insert_of_mem {table : Table κ ν} {k : κ} (present : k ∈ table.keys) (v : ν) :
    (table.insert k v).keys = table.keys := by
  induction table with
  | nil => contradiction
  | cons entry rest ih =>
    obtain ⟨key, value⟩ := entry
    rw [insert]
    split
    · rfl
    · next other =>
      have later : k ∈ keys rest := (List.mem_cons.mp present).resolve_left (Ne.symm other)
      exact congrArg (key :: ·) (ih later)

end Table

end Shorthand
