import Mathlib.Data.List.TakeWhile
import Shorthand.Text.Span

/-! Runs of characters in front of more text. A run ends where a character stops it,
so a scanner that has seen the end of a run reads the same whatever follows. -/
namespace Shorthand

/-- Nothing at the front of the text continues a run of `p`. -/
def Stops (p : Char → Bool) (s : List Char) : Prop := ∀ c ∈ s.head?, p c = false

variable {p : Char → Bool} {s x : List Char}

/-- Characters that are given one by one are checked one by one. -/
theorem forall_mem_of_all {property : Char → Prop} [DecidablePred property]
    (h : s.all fun c => property c) : ∀ c ∈ s, property c :=
  fun c mem => of_decide_eq_true (List.all_eq_true.mp h c mem)

@[simp] theorem stops_nil : Stops p [] := fun _ h => nomatch h

@[simp] theorem stops_cons {c : Char} : Stops p (c :: s) ↔ p c = false := by
  simp only [Stops, List.head?_cons, Option.mem_some_iff, forall_eq']

theorem stops_dropWhile (p : Char → Bool) (s : List Char) : Stops p (s.dropWhile p) := by
  induction s with
  | nil => exact stops_nil
  | cons c s ih =>
    cases h : p c with
    | true => simpa only [List.dropWhile_cons, h, if_true] using ih
    | false => simp only [List.dropWhile_cons, h, Bool.false_eq_true, if_false, stops_cons]

theorem Stops.takeWhile_eq_nil (stop : Stops p s) : s.takeWhile p = [] := by
  cases s with
  | nil => rfl
  | cons c s => simp only [List.takeWhile_cons, stops_cons.mp stop, Bool.false_eq_true, if_false]

theorem Stops.dropWhile_eq_self (stop : Stops p s) : s.dropWhile p = s := by
  cases s with
  | nil => rfl
  | cons c s => simp only [List.dropWhile_cons, stops_cons.mp stop, Bool.false_eq_true, if_false]

theorem Stops.append (stop : Stops p s) (next : s = [] → Stops p x) : Stops p (s ++ x) := by
  cases s with
  | nil => exact next rfl
  | cons c s => exact stops_cons.mpr (stops_cons.mp stop)

/-- The run in front of what stops it. -/
theorem takeWhile_run {run : List Char} (all : ∀ c ∈ run, p c) (stop : Stops p x) :
    (run ++ x).takeWhile p = run := by
  rw [List.takeWhile_append_of_pos all, stop.takeWhile_eq_nil, List.append_nil]

theorem dropWhile_run {run : List Char} (all : ∀ c ∈ run, p c) (stop : Stops p x) :
    (run ++ x).dropWhile p = x := by
  rw [List.dropWhile_append_of_pos all, stop.dropWhile_eq_self]

theorem takeWhile_append_right (stop : s.dropWhile p = [] → Stops p x) :
    (s ++ x).takeWhile p = s.takeWhile p := by
  have ends : Stops p (s.dropWhile p ++ x) := (stops_dropWhile p s).append stop
  calc (s ++ x).takeWhile p
      = (s.takeWhile p ++ (s.dropWhile p ++ x)).takeWhile p := by
        rw [← List.append_assoc, List.takeWhile_append_dropWhile]
    _ = s.takeWhile p := takeWhile_run (fun _ => List.mem_takeWhile_imp) ends

theorem dropWhile_append_right (stop : s.dropWhile p = [] → Stops p x) :
    (s ++ x).dropWhile p = s.dropWhile p ++ x := by
  have ends : Stops p (s.dropWhile p ++ x) := (stops_dropWhile p s).append stop
  calc (s ++ x).dropWhile p
      = (s.takeWhile p ++ (s.dropWhile p ++ x)).dropWhile p := by
        rw [← List.append_assoc, List.takeWhile_append_dropWhile]
    _ = s.dropWhile p ++ x := dropWhile_run (fun _ => List.mem_takeWhile_imp) ends

theorem head?_append_ne {c : Char} (first : s.head? ≠ some c) (second : s = [] → x.head? ≠ some c) :
    (s ++ x).head? ≠ some c := by
  cases s with
  | nil => exact second rfl
  | cons d s => exact first

/-- A run that ends inside the first text ends there whatever follows. -/
theorem takeWhile_append_of_ends (ends : s.dropWhile p ≠ []) (x : List Char) :
    (s ++ x).takeWhile p = s.takeWhile p :=
  takeWhile_append_right fun h => absurd h ends

theorem dropWhile_append_of_ends (ends : s.dropWhile p ≠ []) (x : List Char) :
    (s ++ x).dropWhile p = s.dropWhile p ++ x :=
  dropWhile_append_right fun h => absurd h ends

theorem head?_append_ne_of_ne_nil {c : Char} (first : s.head? ≠ some c) (nonempty : s ≠ [])
    (x : List Char) : (s ++ x).head? ≠ some c :=
  head?_append_ne first fun h => absurd h nonempty

theorem mem_intercalate {x c : Char} {pieces : List (List Char)}
    (mem : c ∈ [x].intercalate pieces) : c = x ∨ ∃ piece ∈ pieces, c ∈ piece := by
  induction pieces with
  | nil => simp at mem
  | cons piece pieces ih =>
    cases pieces with
    | nil => exact .inr ⟨piece, List.mem_cons_self, by simpa using mem⟩
    | cons next pieces =>
      rw [List.intercalate_cons_cons, List.mem_append, List.mem_append, List.mem_singleton] at mem
      obtain (first | same) | later := mem
      · exact .inr ⟨piece, List.mem_cons_self, first⟩
      · exact .inl same
      · obtain same | ⟨piece, mem, later⟩ := ih later
        · exact .inl same
        · exact .inr ⟨piece, List.mem_cons_of_mem _ mem, later⟩

theorem ne_cons_of_head?_ne {c : Char} (h : s.head? ≠ some c) (t : List Char) : s ≠ c :: t :=
  fun hs => h (congrArg List.head? hs)

theorem head?_ne_of_ne_cons {c : Char} (h : ∀ t, s ≠ c :: t) : s.head? ≠ some c := by
  cases s with
  | nil => exact fun h => nomatch h
  | cons d s =>
    intro hd
    obtain rfl : d = c := Option.some.inj hd
    exact h s rfl

end Shorthand
