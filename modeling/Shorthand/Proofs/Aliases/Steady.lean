import Shorthand.Proofs.Aliases.Cycles

/-! Texts that ask for the same names wherever they are read. Which aliases a text asks
for depends on what others stand for only through `+` with nothing after it. Where the
texts do not use it, every cycle is noticed. -/
namespace Shorthand.Abbreviation

variable {limits : Limits} {aliases : AliasTable}

mutual

/-- Where the text of an alias is met in a reading, it is read there. -/
theorem Reads.reads_met {α : Type} {opened : List String} {i : Inquiry α}
    {asked below : List String} {value : α} {other text : String}
    (reads : Reads limits aliases opened i asked below value)
    (source : aliases.get? other = some (.source text)) (outside : other ∉ opened)
    (h : other ∈ asked ++ below) :
    ∃ opened room asked' below' tree, asked' ++ below' ⊆ below ∧
      Reads limits aliases (other :: opened) (whole limits room text.toList) asked' below' tree := by
  match reads with
  | .done value => simp at h
  | @Reads.ask _ _ _ _ name _ _ _ met asked below _ answers next =>
    have h : other ∈ name :: met ∨ other ∈ asked ++ below := by grind
    rcases h with h | h
    · obtain ⟨opened, room, asked, below, tree, within, reads⟩ :=
        answers.reads_met source outside h
      exact ⟨opened, room, asked, below, tree, List.subset_append_of_subset_left _ within, reads⟩
    · obtain ⟨opened, room, asked, below, tree, within, reads⟩ := next.reads_met source outside h
      exact ⟨opened, room, asked, below, tree, List.subset_append_of_subset_right _ within, reads⟩

theorem Answers.reads_met {opened : List String} {name : String} {reply : Option Node}
    {met : List String} {other text : String}
    (answers : Answers limits aliases opened name reply met)
    (source : aliases.get? other = some (.source text)) (outside : other ∉ opened)
    (h : other ∈ name :: met) :
    ∃ opened room asked below tree, asked ++ below ⊆ met ∧
      Reads limits aliases (other :: opened) (whole limits room text.toList) asked below tree := by
  by_cases here : other = name
  · subst here
    obtain ⟨room, asked, below, tree, -, rfl, reads⟩ := answers.of_source outside source
    exact ⟨opened, room, asked, below, tree, List.Subset.refl _, reads⟩
  · have h : other ∈ met := (List.mem_cons.mp h).resolve_left here
    match answers with
    | .opened _ => simp at h
    | .given _ _ => simp at h
    | .read _ _ reads =>
      obtain ⟨opened, room, asked, below, tree, within, reads⟩ :=
        reads.reads_met source (by simp [here, outside]) h
      exact ⟨opened, room, asked, below, tree, List.subset_append_of_subset_right _ within, reads⟩

end

variable (limits aliases) in
/-- Whatever an alias asks for where it is read, it meets wherever it is read. -/
def AsksSteadily : Prop :=
  ∀ ⦃name text : String⦄, aliases.get? name = some (.source text) →
    ∀ ⦃opened room other⦄, Asks limits aliases (name :: opened) (whole limits room text.toList) other →
      ∀ ⦃opened' room' asked below tree⦄,
        Reads limits aliases (name :: opened') (whole limits room' text.toList) asked below tree →
          other ∈ asked ++ below

section Follow

variable {name text : String} {room : Nat} {asked below outer : List String} {tree : Node}
  {other : String}

/-- A name that is asked for by an alias that the reading of `name` meets is met, too. -/
theorem AsksSteadily.met_of_asked (steady : AsksSteadily limits aliases)
    (reads : Reads limits aliases [name] (whole limits room text.toList) asked below tree)
    {latest : String} (met : latest ∈ asked ++ below) (different : latest ≠ name)
    (asks : Asked limits aliases (latest :: outer) other) : other ∈ below := by
  obtain ⟨text', room', source, asks⟩ := asks
  obtain ⟨opened, room, _, _, tree, within, reads⟩ := reads.reads_met source (by simpa) met
  exact within (steady source asks reads)

/-- So is every name that is asked for further up the stack. -/
theorem AsksSteadily.met_of_opened (steady : AsksSteadily limits aliases)
    (reads : Reads limits aliases [name] (whole limits room text.toList) asked below tree)
    {inner : List String} {latest : String} (met : latest ∈ asked ++ below)
    (outside : name ∉ inner ++ latest :: outer)
    (opens : Opened limits aliases (inner ++ latest :: outer))
    (asks : Asked limits aliases (inner ++ latest :: outer) other) : other ∈ below := by
  induction inner generalizing other with
  | nil =>
    refine steady.met_of_asked reads met ?_ asks
    rintro rfl
    simp at outside
  | cons top inner ih =>
    obtain ⟨-, asked', opens⟩ := opens
    have met := ih (fun inside => outside (List.mem_cons_of_mem _ inside)) opens asked'
    refine steady.met_of_asked reads (List.mem_append_right _ met) ?_ asks
    rintro rfl
    simp at outside

end Follow

theorem AsksSteadily.noticesCycles (steady : AsksSteadily limits aliases) :
    NoticesCycles limits aliases := by
  rintro name text room asked below tree source reads opened outside opens asks ⟨other, inside, met⟩
  obtain ⟨inner, outer, rfl⟩ := List.append_of_mem inside
  exact steady.met_of_opened reads met outside opens asks

end Shorthand.Abbreviation
