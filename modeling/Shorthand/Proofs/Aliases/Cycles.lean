import Shorthand.Proofs.Aliases.Meaning

/-! Cycles of aliases. Aliases that are being read one inside the other form a stack. A
cycle is noticed when a name on the stack is asked for again; the aliases from there to
the top then depend on each other. -/
namespace Shorthand.Abbreviation

variable (limits : Limits) (aliases : AliasTable)

/-- The latest of the aliases being read asks for `name`. An abbreviation that is not
the text of an alias may ask for any name. -/
def Asked : (opened : List String) → (name : String) → Prop
  | [], _ => True
  | latest :: opened, name => ∃ text room, aliases.get? latest = some (.source text) ∧
      Asks limits aliases (latest :: opened) (whole limits room text.toList) name

/-- The aliases may be being read, each inside the next. -/
def Opened : List String → Prop
  | [] => True
  | latest :: opened => latest ∉ opened ∧ Asked limits aliases opened latest ∧ Opened opened

/-- What an alias stands for by itself, where its reading does not come back to it. Such
a tree is remembered. -/
inductive Settles (name : String) : Node → (met : List String) → Prop where
  | intro {text : String} {room : Nat} {asked below : List String} {tree : Node} :
      aliases.get? name = some (.source text) →
        Reads limits aliases [name] (whole limits room text.toList) asked below tree →
          name ∉ below → Settles name tree (asked ++ below)

/-- Aliases that reach each other are found out wherever one begins: an alias whose
reading asks for another, inside which it is itself asked for, comes back to itself. -/
def NoticesCycles : Prop :=
  ∀ ⦃name text : String⦄ ⦃room : Nat⦄ ⦃asked below : List String⦄ ⦃tree : Node⦄,
    aliases.get? name = some (.source text) →
    Reads limits aliases [name] (whole limits room text.toList) asked below tree →
    ∀ ⦃opened : List String⦄, name ∉ opened → Opened limits aliases opened →
      Asked limits aliases opened name →
      (∃ other ∈ opened, other ∈ asked ++ below) → name ∈ below

variable {limits aliases} {opened : List String} {name : String} {tree : Node} {met : List String}

theorem opened_nil : Opened limits aliases [] := trivial

theorem asked_nil : Asked limits aliases [] name := trivial

theorem Settles.source (settles : Settles limits aliases name tree met) :
    ∃ text, aliases.get? name = some (.source text) := by
  cases settles with
  | intro source => exact ⟨_, source⟩

theorem Settles.answers (settles : Settles limits aliases name tree met) :
    Answers limits aliases [] name (some tree) met := by
  cases settles with
  | intro source reads => exact .read (by simp) source reads

theorem Settles.unique {tree' : Node} {met' : List String}
    (first : Settles limits aliases name tree met)
    (second : Settles limits aliases name tree' met') : tree = tree' ∧ met = met' := by
  obtain ⟨same, rfl⟩ := first.answers.unique second.answers
  exact ⟨Option.some.inj same, rfl⟩

/-- An alias that settles meets none of the aliases inside which it is asked for. -/
theorem Settles.apart (notices : NoticesCycles limits aliases)
    (settles : Settles limits aliases name tree met) (outside : name ∉ opened)
    (opens : Opened limits aliases opened) (asked : Asked limits aliases opened name) :
    ∀ other ∈ met, other ∉ opened := by
  cases settles with
  | intro source reads once =>
    intro other h inside
    exact once (notices source reads outside opens asked ⟨other, inside, h⟩)

/-- So it stands for the same tree there. -/
theorem Settles.answers_inside (notices : NoticesCycles limits aliases)
    (settles : Settles limits aliases name tree met) (outside : name ∉ opened)
    (opens : Opened limits aliases opened) (asked : Asked limits aliases opened name) :
    Answers limits aliases opened name (some tree) met :=
  settles.answers.elsewhere (by simpa using outside) fun other h =>
    iff_of_false (by simp) (settles.apart notices outside opens asked other h)

/-- The reading of an alias meets the names that are asked for inside it. -/
theorem Reads.meets {inner : List String} {outer text : String} {room : Nat}
    {asked below : List String} (source : aliases.get? outer = some (.source text))
    (reads : Reads limits aliases (outer :: opened) (whole limits room text.toList) asked below tree)
    (opens : Opened limits aliases (inner ++ outer :: opened))
    (asks : Asked limits aliases (inner ++ outer :: opened) name) :
    (∃ reply met, Answers limits aliases (inner ++ outer :: opened) name reply met ∧ met ⊆ below) ∧
      (name ∈ below ∨ inner = [] ∧ name ∈ asked) := by
  induction inner generalizing name with
  | nil =>
    obtain ⟨text', room', source', asks⟩ := asks
    obtain rfl : text = text' := by simpa using source.symm.trans source'
    obtain ⟨among, answers⟩ := reads.of_asks_whole asks
    exact ⟨answers, .inr ⟨rfl, among⟩⟩
  | cons latest inner ih =>
    obtain ⟨outside, asked', opens⟩ := opens
    obtain ⟨text', room', source', asks⟩ := asks
    obtain ⟨⟨reply, met, answers, within⟩, -⟩ := ih opens asked'
    obtain ⟨room, asked, nested, tree, rfl, rfl, reads⟩ := answers.of_source outside source'
    obtain ⟨among, reply, met, answers, inside⟩ := reads.of_asks_whole asks
    refine ⟨⟨reply, met, answers, fun other h => within ?_⟩, .inl (within ?_)⟩
    · exact List.mem_append_right _ (inside h)
    · exact List.mem_append_left _ among

theorem Opened.outer {inner : List String} (opens : Opened limits aliases (inner ++ opened)) :
    Opened limits aliases opened := by
  induction inner with
  | nil => exact opens
  | cons latest inner ih => exact ih opens.2.2

/-- An alias that settles meets the names that are asked for inside it, but itself only
in its own text. -/
theorem Settles.meets (notices : NoticesCycles limits aliases) {inner : List String}
    {other : String} (settles : Settles limits aliases name tree met)
    (opens : Opened limits aliases (inner ++ name :: opened))
    (asks : Asked limits aliases (inner ++ name :: opened) other) :
    other ∈ met ∧ (other = name → inner = []) := by
  obtain ⟨outside, asked, opens'⟩ := opens.outer
  have apart := settles.apart notices outside opens' asked
  cases settles with
  | @intro text room asked below tree source reads once =>
    have reads : Reads limits aliases (name :: opened) (whole limits room text.toList) asked below
        tree := by
      apply reads.elsewhere
      intro other h
      simp [apart other h]
    obtain ⟨-, among⟩ := reads.meets source opens asks
    constructor
    · rcases among with among | ⟨-, among⟩ <;> simp [among]
    · rintro rfl
      rcases among with among | ⟨inner, -⟩
      · contradiction
      · exact inner

/-- None of the aliases on a cycle settles. -/
theorem not_settles_of_cycle (notices : NoticesCycles limits aliases)
    (opens : Opened limits aliases opened) (asked : Asked limits aliases opened name)
    (inside : name ∈ opened) (top : opened.head? ≠ some name) {member : String}
    (h : member ∈ opened.takeWhile (· ≠ name) ++ [name]) :
    ¬Settles limits aliases member tree met := by
  intro settles
  obtain ⟨between, outer, rfl, fresh⟩ := List.eq_append_cons_of_mem inside
  rw [List.takeWhile_append_of_pos (by grind), List.takeWhile_cons_of_neg (by simp)] at h
  obtain h | h := List.mem_append.mp h
  · obtain ⟨inner, between, rfl, -⟩ := List.eq_append_cons_of_mem (by simpa using h)
    rw [List.append_assoc, List.cons_append] at opens asked
    obtain ⟨among, -⟩ := settles.meets notices opens asked
    obtain ⟨outside, asked, opens⟩ := opens.outer
    exact settles.apart notices outside opens asked name among (by simp)
  · obtain rfl := List.mem_singleton.mp h
    obtain ⟨-, empty⟩ := settles.meets notices opens asked
    obtain rfl := empty rfl
    simp at top

end Shorthand.Abbreviation
