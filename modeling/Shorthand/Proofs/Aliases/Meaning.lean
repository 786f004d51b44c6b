import Shorthand.Proofs.Aliases.Questions

/-! What an abbreviation means while some aliases are being read. Nothing is remembered
here: a name that is being read means the plain tag, and every other alias is read again
where it is asked for, with as much room for nesting as it takes. -/
namespace Shorthand.Abbreviation

open Inquiry (Cut)

mutual

/-- While the aliases `opened` are being read, the inquiry comes to a value. It asks for
the names `asked`, and the names `below` are asked for while those are read. -/
inductive Reads (limits : Limits) (aliases : AliasTable) : {α : Type} → (opened : List String) →
    Inquiry α → (asked below : List String) → α → Prop where
  | done {α : Type} {opened : List String} (value : α) :
      Reads limits aliases opened (.done (.ok value)) [] [] value
  | ask {α : Type} {opened : List String} {name : String} {text : List Char → Inquiry Node}
      {next : Option Node → Inquiry α} {reply : Option Node} {met asked below : List String}
      {value : α} :
      Answers limits aliases opened name reply met →
        Reads limits aliases opened (next reply) asked below value →
          Reads limits aliases opened (.ask name text next) (name :: asked) (met ++ below) value

/-- While the aliases `opened` are being read, `name` has the reply. The names `met` are
asked for on the way to it. -/
inductive Answers (limits : Limits) (aliases : AliasTable) : (opened : List String) →
    String → Option Node → (met : List String) → Prop where
  | opened {opened : List String} {name : String} :
      name ∈ opened → Answers limits aliases opened name none []
  | given {opened : List String} {name : String} {reply : Option Node} :
      name ∉ opened → aliases.get? name = reply.map .parsed →
        Answers limits aliases opened name reply []
  | read {opened : List String} {name text : String} {room : Nat} {tree : Node}
      {asked below : List String} :
      name ∉ opened → aliases.get? name = some (.source text) →
        Reads limits aliases (name :: opened) (whole limits room text.toList) asked below tree →
          Answers limits aliases opened name (some tree) (asked ++ below)

end

variable {limits : Limits} {aliases : AliasTable} {opened opened' : List String} {name : String}

/-- An inquiry that is cut short has the meaning of the other one, where it has one. -/
theorem Reads.cut {α : Type} {i j : Inquiry α} {asked below : List String} {value : α}
    (reads : Reads limits aliases opened i asked below value) (shorter : Cut i j) :
    Reads limits aliases opened j asked below value := by
  induction shorter generalizing asked below with
  | exceeded limit j => cases reads
  | done result => exact reads
  | ask _ _ _ ih =>
    cases reads with
    | ask answers next => exact .ask answers (ih _ next)

mutual

/-- There is one meaning, and one way to it. -/
theorem Reads.unique {α : Type} {opened : List String} {i j : Inquiry α}
    {asked below asked' below' : List String} {value value' : α}
    (first : Reads limits aliases opened i asked below value) (shorter : Cut i j)
    (second : Reads limits aliases opened j asked' below' value') :
    asked = asked' ∧ below = below' ∧ value = value' := by
  match first with
  | .done value =>
    cases shorter
    cases second
    exact ⟨rfl, rfl, rfl⟩
  | .ask answers next =>
    cases shorter with
    | ask _ shorter =>
      cases second with
      | ask answers' next' =>
        obtain ⟨rfl, rfl⟩ := answers.unique answers'
        obtain ⟨rfl, rfl, rfl⟩ := next.unique (shorter _) next'
        exact ⟨rfl, rfl, rfl⟩

theorem Answers.unique {opened : List String} {name : String} {reply reply' : Option Node}
    {met met' : List String} (first : Answers limits aliases opened name reply met)
    (second : Answers limits aliases opened name reply' met') : reply = reply' ∧ met = met' := by
  match first with
  | .opened inside =>
    cases second with
    | opened _ => exact ⟨rfl, rfl⟩
    | given outside _ => contradiction
    | read outside _ _ => contradiction
  | .given outside known =>
    cases second with
    | opened inside => contradiction
    | given _ known' =>
      rw [known] at known'
      cases reply <;> cases reply' <;> simp_all
    | read _ source _ =>
      rw [known] at source
      cases reply <;> simp at source
  | @Answers.read _ _ _ _ text room _ _ _ outside source reads =>
    cases second with
    | opened inside => contradiction
    | given _ known =>
      rw [source] at known
      cases reply' <;> simp at known
    | @read _ _ text' room' _ _ _ _ source' reads' =>
      obtain rfl : text = text' := by simpa using source.symm.trans source'
      -- The text is the same, but may have been read with different room.
      obtain le | le := Nat.le_total room room'
      · obtain ⟨rfl, rfl, rfl⟩ := reads.unique (whole_cut limits le _) reads'
        exact ⟨rfl, rfl⟩
      · obtain ⟨rfl, rfl, rfl⟩ := reads.unique (.refl _) (reads'.cut (whole_cut limits le _))
        exact ⟨rfl, rfl⟩

end

mutual

/-- The meaning depends on no alias being read but those that are asked for. -/
theorem Reads.elsewhere {α : Type} {opened opened' : List String} {i : Inquiry α}
    {asked below : List String} {value : α} (reads : Reads limits aliases opened i asked below value)
    (same : ∀ name ∈ asked ++ below, name ∈ opened ↔ name ∈ opened') :
    Reads limits aliases opened' i asked below value := by
  match reads with
  | .done value => exact .done value
  | .ask answers next =>
    refine .ask (answers.elsewhere (same _ ?_) fun name h => same name ?_)
      (next.elsewhere fun name h => same name ?_)
    · simp
    · simp [h]
    · obtain h | h := List.mem_append.mp h <;> simp [h]

theorem Answers.elsewhere {opened opened' : List String} {name : String} {reply : Option Node}
    {met : List String} (answers : Answers limits aliases opened name reply met)
    (here : name ∈ opened ↔ name ∈ opened')
    (same : ∀ other ∈ met, other ∈ opened ↔ other ∈ opened') :
    Answers limits aliases opened' name reply met := by
  match answers with
  | .opened inside => exact .opened (here.mp inside)
  | .given outside known => exact .given (mt here.mpr outside) known
  | .read outside source reads =>
    refine .read (mt here.mpr outside) source (reads.elsewhere fun other h => ?_)
    rw [List.mem_cons, List.mem_cons, same other h]

end

/-- The text of an alias that has a reply has been read. -/
theorem Answers.of_source {text : String} {reply : Option Node} {met : List String}
    (answers : Answers limits aliases opened name reply met) (outside : name ∉ opened)
    (source : aliases.get? name = some (.source text)) :
    ∃ room asked below tree, reply = some tree ∧ met = asked ++ below ∧
      Reads limits aliases (name :: opened) (whole limits room text.toList) asked below tree := by
  cases answers with
  | opened inside => contradiction
  | given _ known =>
    rw [source] at known
    cases reply <;> simp at known
  | read _ source' reads =>
    rw [source] at source'
    cases source'
    exact ⟨_, _, _, _, rfl, rfl, reads⟩

/-- While the aliases `opened` are being read, the inquiry comes to ask for a name. It
need not come to a value. -/
inductive Asks (limits : Limits) (aliases : AliasTable) (opened : List String) :
    {α : Type} → Inquiry α → String → Prop where
  | here {α : Type} {name : String} {text : List Char → Inquiry Node}
      {next : Option Node → Inquiry α} : Asks limits aliases opened (.ask name text next) name
  | later {α : Type} {name other : String} {text : List Char → Inquiry Node}
      {next : Option Node → Inquiry α} {reply : Option Node} {met : List String} :
      Answers limits aliases opened name reply met → Asks limits aliases opened (next reply) other →
        Asks limits aliases opened (.ask name text next) other

theorem Asks.cut {α : Type} {i j : Inquiry α} (asks : Asks limits aliases opened i name)
    (shorter : Cut i j) : Asks limits aliases opened j name := by
  induction shorter with
  | exceeded limit j => cases asks
  | done result => cases asks
  | ask _ _ _ ih =>
    cases asks with
    | here => exact .here
    | later answers later => exact .later answers (ih _ later)

/-- A name that is asked for on the way to a value has a reply. -/
theorem Reads.of_asks {α : Type} {i : Inquiry α} {asked below : List String} {value : α}
    (reads : Reads limits aliases opened i asked below value)
    (asks : Asks limits aliases opened i name) :
    name ∈ asked ∧ ∃ reply met, Answers limits aliases opened name reply met ∧ met ⊆ below := by
  induction asks generalizing asked below with
  | here =>
    cases reads with
    | ask answers next =>
      exact ⟨List.mem_cons_self, _, _, answers, List.subset_append_left _ _⟩
  | later answers' _ ih =>
    cases reads with
    | ask answers next =>
      obtain ⟨rfl, rfl⟩ := answers.unique answers'
      obtain ⟨among, reply, met, answers', within⟩ := ih next
      refine ⟨List.mem_cons_of_mem _ among, reply, met, answers', ?_⟩
      exact List.subset_append_of_subset_right _ within

/-- A reading of a text asks for every name that some reading of it asks for. -/
theorem Reads.of_asks_whole {room room' : Nat} {s : List Char} {asked below : List String}
    {tree : Node} (reads : Reads limits aliases opened (whole limits room s) asked below tree)
    (asks : Asks limits aliases opened (whole limits room' s) name) :
    name ∈ asked ∧ ∃ reply met, Answers limits aliases opened name reply met ∧ met ⊆ below :=
  (reads.cut (whole_cut limits (Nat.le_max_left room room') s)).of_asks
    (asks.cut (whole_cut limits (Nat.le_max_right room room') s))

end Shorthand.Abbreviation
