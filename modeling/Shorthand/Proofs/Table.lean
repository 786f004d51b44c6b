import Mathlib.Data.List.Nodup
import Shorthand.Table

/-! Entries that go into a table one after the other. Of two entries under one key the later
one counts, in the place of the earlier one, and an entry whose key is there already can go in
before an entry under another key or after it. So entries may be put together in a table that
has every key once, and go in from there. What comes of them is said outright, too: the keys of
the table and behind them the new ones as they first come, each with its last entry. -/
namespace Shorthand.Table

variable {κ ν : Type} [DecidableEq κ] {table entries : Table κ ν} {k l : κ} {v w : ν}

section Entry

omit [DecidableEq κ] in
theorem keys_cons (entry : κ × ν) (rest : Table κ ν) :
    keys (entry :: rest) = entry.1 :: keys rest := rfl

omit [DecidableEq κ] in
theorem nodup_keys_cons {entry : κ × ν} {rest : Table κ ν} :
    (keys (entry :: rest)).Nodup ↔ entry.1 ∉ keys rest ∧ (keys rest).Nodup :=
  List.nodup_cons

/-- A new key goes to the end. -/
theorem keys_insert_of_not_mem (absent : k ∉ table.keys) (v : ν) :
    (table.insert k v).keys = table.keys ++ [k] := by
  induction table with
  | nil => rfl
  | cons entry rest ih =>
    obtain ⟨key, value⟩ := entry
    obtain ⟨other, absent⟩ := List.ne_and_not_mem_of_not_mem_cons absent
    rw [insert, if_neg (Ne.symm other)]
    exact congrArg (key :: ·) (ih absent)

theorem mem_keys_insert : l ∈ (table.insert k v).keys ↔ l ∈ table.keys ∨ l = k := by
  by_cases present : k ∈ table.keys
  · rw [keys_insert_of_mem present]
    exact (or_iff_left_of_imp fun same => same ▸ present).symm
  · rw [keys_insert_of_not_mem present, List.mem_append, List.mem_singleton]

theorem nodup_keys_insert (distinct : table.keys.Nodup) : (table.insert k v).keys.Nodup := by
  by_cases present : k ∈ table.keys
  · rwa [keys_insert_of_mem present]
  · rw [keys_insert_of_not_mem present, ← List.concat_eq_append]
    exact distinct.concat present

theorem get?_of_mem (distinct : table.keys.Nodup) (member : (k, v) ∈ table) :
    table.get? k = some v := by
  induction table with
  | nil => contradiction
  | cons entry rest ih =>
    obtain ⟨fresh, distinct⟩ := nodup_keys_cons.mp distinct
    obtain rfl | later := List.mem_cons.mp member
    · exact if_pos rfl
    · have present : k ∈ keys rest := List.mem_map_of_mem later
      have other : entry.1 ≠ k := fun same => fresh (same ▸ present)
      exact (if_neg other).trans (ih distinct later)

theorem mem_insert_iff (distinct : table.keys.Nodup) {entry : κ × ν} :
    entry ∈ table.insert k v ↔ entry = (k, v) ∨ entry.1 ≠ k ∧ entry ∈ table := by
  constructor
  · intro member
    by_cases same : entry.1 = k
    · have value := get?_of_mem (nodup_keys_insert distinct) (same ▸ member)
      rw [get?_insert_self] at value
      exact .inl (Prod.ext same (Option.some.inj value).symm)
    · refine .inr ⟨same, (mem_insert member).resolve_right fun new => same ?_⟩
      rw [new]
  · rintro (rfl | ⟨other, member⟩)
    · exact mem_of_get? (get?_insert_self table k v)
    · exact mem_of_get? ((get?_insert_of_ne v other).trans (get?_of_mem distinct member))

/-- An entry that is there already changes nothing. -/
theorem insert_eq_self (held : table.get? k = some v) : table.insert k v = table := by
  induction table with
  | nil => contradiction
  | cons entry rest ih =>
    obtain ⟨key, value⟩ := entry
    rw [get?] at held
    rw [insert]
    split at held
    · next same => rw [if_pos same, Option.some.inj held, same]
    · next other => rw [if_neg other, ih held]

/-- The later of two entries under one key counts. -/
theorem insert_insert_self (table : Table κ ν) (k : κ) (v w : ν) :
    (table.insert k v).insert k w = table.insert k w := by
  induction table with
  | nil => exact if_pos rfl
  | cons entry rest ih =>
    obtain ⟨key, value⟩ := entry
    by_cases same : key = k
    · simp only [insert, same, if_true]
    · simp only [insert, same, if_false, ih]

/-- Entries under different keys may change places, if the place of one is fixed. -/
theorem insert_comm (present : k ∈ table.keys) (other : k ≠ l) :
    (table.insert l w).insert k v = (table.insert k v).insert l w := by
  induction table with
  | nil => contradiction
  | cons entry rest ih =>
    obtain ⟨key, value⟩ := entry
    by_cases here : key = k
    · have apart : key ≠ l := here ▸ other
      simp only [insert, here, if_true, other, if_false]
    · have later : k ∈ keys rest := (List.mem_cons.mp present).resolve_left (Ne.symm here)
      by_cases there : key = l
      · simp only [insert, there, if_true, if_false, Ne.symm other]
      · simp only [insert, here, there, if_false, ih later]

end Entry

section Entries

theorem insertAll_cons (table : Table κ ν) (entry : κ × ν) (rest : Table κ ν) :
    table.insertAll (entry :: rest) = (table.insert entry.1 entry.2).insertAll rest := rfl

theorem mem_insertAll {entry : κ × ν} (member : entry ∈ table.insertAll entries) :
    entry ∈ table ∨ entry ∈ entries := by
  induction entries generalizing table with
  | nil => exact .inl member
  | cons first rest ih =>
    obtain before | later := ih member
    · refine (Table.mem_insert before).imp_right fun same : entry = first => ?_
      exact same ▸ List.mem_cons_self
    · exact .inr (List.mem_cons_of_mem _ later)

theorem mem_keys_insertAll :
    l ∈ (table.insertAll entries).keys ↔ l ∈ table.keys ∨ l ∈ entries.keys := by
  induction entries generalizing table with
  | nil => simp [insertAll, keys]
  | cons entry rest ih =>
    rw [insertAll_cons, ih, mem_keys_insert, keys_cons, List.mem_cons, or_assoc]

theorem nodup_keys_insertAll (distinct : table.keys.Nodup) (entries : Table κ ν) :
    (table.insertAll entries).keys.Nodup := by
  induction entries generalizing table with
  | nil => exact distinct
  | cons entry rest ih => exact ih (nodup_keys_insert distinct)

/-- The entry is the last one under its key. -/
def IsLast (table : Table κ ν) (entry : κ × ν) : Prop :=
  ∃ before after, table = before ++ entry :: after ∧ entry.1 ∉ keys after

omit [DecidableEq κ] in
theorem isLast_cons {first entry : κ × ν} {rest : Table κ ν} :
    IsLast (first :: rest) entry ↔ IsLast rest entry ∨ first = entry ∧ entry.1 ∉ keys rest := by
  constructor
  · rintro ⟨_ | ⟨_, before⟩, after, split, fresh⟩
    · obtain ⟨rfl, rfl⟩ := List.cons.inj split
      exact .inr ⟨rfl, fresh⟩
    · exact .inl ⟨before, after, (List.cons.inj split).2, fresh⟩
  · rintro (⟨before, after, rfl, fresh⟩ | ⟨rfl, fresh⟩)
    · exact ⟨first :: before, after, rfl, fresh⟩
    · exact ⟨[], rest, rfl, fresh⟩

/-- The keys that are there stay in their places, and the others follow as they first come. -/
theorem keys_insertAll (table entries : Table κ ν) :
    (table.insertAll entries).keys =
      table.keys ++ (entries.keys.filter (· ∉ table.keys)).eraseDups := by
  induction entries generalizing table with
  | nil => exact (List.append_nil _).symm
  | cons entry rest ih =>
    rw [insertAll_cons, ih, keys_cons]
    by_cases present : entry.1 ∈ table.keys
    · rw [keys_insert_of_mem present, List.filter_cons_of_neg (by simpa using present)]
    · have others : ((Table.keys rest).filter (· ∉ table.keys)).filter (fun key => !key == entry.1) =
          (Table.keys rest).filter (· ∉ table.keys ++ [entry.1]) := by
        rw [List.filter_filter]
        refine List.filter_congr fun key _ => ?_
        by_cases same : key = entry.1 <;> simp [same]
      rw [keys_insert_of_not_mem present, List.filter_cons_of_pos (by simpa using present),
        List.eraseDups_cons, others, List.append_assoc, List.singleton_append]

/-- The last entry under a key counts, and where there is none, the one that was there. -/
theorem mem_insertAll_iff (distinct : table.keys.Nodup) {entry : κ × ν} :
    entry ∈ table.insertAll entries ↔
      entries.IsLast entry ∨ entry.1 ∉ entries.keys ∧ entry ∈ table := by
  induction entries generalizing table with
  | nil => simp [insertAll, IsLast, keys]
  | cons first rest ih =>
    rw [insertAll_cons, ih (nodup_keys_insert distinct), isLast_cons, mem_insert_iff distinct,
      keys_cons, List.mem_cons, not_or, eq_comm (a := first)]
    tauto

theorem insertAll_insert_of_not_mem (present : k ∈ table.keys) (absent : k ∉ entries.keys) :
    (table.insertAll entries).insert k v = (table.insert k v).insertAll entries := by
  induction entries generalizing table with
  | nil => rfl
  | cons entry rest ih =>
    obtain ⟨other, absent⟩ := List.ne_and_not_mem_of_not_mem_cons absent
    rw [insertAll_cons, insertAll_cons, ih (mem_keys_insert.mpr (.inl present)) absent,
      insert_comm present other]

/-- One more entry may go in before or after the others are put into a table. -/
theorem insertAll_insert (distinct : entries.keys.Nodup) (table : Table κ ν) (k : κ) (v : ν) :
    table.insertAll (entries.insert k v) = (table.insertAll entries).insert k v := by
  induction entries generalizing table with
  | nil => rfl
  | cons entry rest ih =>
    obtain ⟨key, value⟩ := entry
    obtain ⟨fresh, distinct⟩ := nodup_keys_cons.mp distinct
    rw [insert]
    split
    · next same =>
      subst same
      rw [insertAll_cons, insertAll_cons,
        insertAll_insert_of_not_mem (mem_keys_insert.mpr (.inr rfl)) fresh, insert_insert_self]
    · rw [insertAll_cons, insertAll_cons, ih distinct]

/-- Entries in two groups may be put together first, if the first group has every key once. -/
theorem insertAll_insertAll {first : Table κ ν} (distinct : first.keys.Nodup)
    (table second : Table κ ν) :
    (table.insertAll first).insertAll second = table.insertAll (first.insertAll second) := by
  induction second generalizing first with
  | nil => rfl
  | cons entry rest ih =>
    rw [insertAll_cons, insertAll_cons, ← insertAll_insert distinct,
      ih (nodup_keys_insert distinct)]

theorem insertAll_eq_self (held : ∀ entry ∈ entries, table.get? entry.1 = some entry.2) :
    table.insertAll entries = table := by
  induction entries with
  | nil => rfl
  | cons entry rest ih =>
    obtain ⟨here, later⟩ := List.forall_mem_cons.mp held
    rw [insertAll_cons, insert_eq_self here, ih later]

/-- Entries that went in change nothing when they go in again. -/
theorem insertAll_insertAll_self (table entries : Table κ ν) :
    (table.insertAll entries).insertAll entries = table.insertAll entries := by
  -- The entries may have a key several times; put together they have it once.
  let gathered : Table κ ν := insertAll [] entries
  have none : (keys ([] : Table κ ν)).Nodup := List.nodup_nil
  have distinct : gathered.keys.Nodup := nodup_keys_insertAll none entries
  have same (table : Table κ ν) : table.insertAll entries = table.insertAll gathered :=
    insertAll_insertAll none table entries
  have self : gathered.insertAll gathered = gathered :=
    insertAll_eq_self fun _ member => get?_of_mem distinct member
  rw [same, same, insertAll_insertAll distinct, self]

end Entries

end Shorthand.Table
