import Shorthand.Proofs.Aliases.Cycles

/-! What is remembered. Where every cycle is noticed, the trees that are stored are those
that the aliases stand for wherever they are asked for, and a stored tree comes with those
of the aliases that its reading meets. Reading keeps this, whether it succeeds or fails. -/
namespace Shorthand.Abbreviation

/-- Every tree that is stored stays. -/
def Extends (stored stored' : AliasTable) : Prop :=
  ∀ ⦃name tree⦄, stored.get? name = some (.parsed tree) → stored'.get? name = some (.parsed tree)

/-- One memory knows what the other one knows. -/
structure Grows (memory after : Memory) : Prop where
  aliases : Extends memory.aliases after.aliases
  cyclic : memory.cyclic ⊆ after.cyclic

theorem Grows.refl (memory : Memory) : Grows memory memory :=
  ⟨fun _ _ => id, List.Subset.refl _⟩

theorem Grows.trans {first second third : Memory} (before : Grows first second)
    (after : Grows second third) : Grows first third :=
  ⟨fun _ _ h => after.aliases (before.aliases h), fun _ h => after.cyclic (before.cyclic h)⟩

/-- Reads a whole text, answering the questions on the way. -/
abbrev readWhole (limits : Limits) (room : Nat) (opened : List String) (memory : Memory)
    (s : List Char) : Reading Node :=
  (whole limits room s).run opened memory

variable (limits : Limits) (aliases : AliasTable)

/-- The tree of `name` is stored, if it has one that may be. -/
def Stored (stored : AliasTable) (name : String) : Prop :=
  ∀ ⦃tree met⦄, Settles limits aliases name tree met → stored.get? name = some (.parsed tree)

/-- What is remembered about the table `aliases` is right. -/
structure Sound (memory : Memory) : Prop where
  entries : ∀ name, memory.aliases.get? name = aliases.get? name ∨
    ∃ tree met, Settles limits aliases name tree met ∧
      memory.aliases.get? name = some (.parsed tree) ∧
        ∀ other ∈ met, Stored limits aliases memory.aliases other
  cyclic : ∀ name ∈ memory.cyclic, ∀ tree met, ¬Settles limits aliases name tree met

/-- Every alias between `name` and the top of the stack is known to be on a cycle. -/
def Noticed (opened : List String) (memory : Memory) (name : String) : Prop :=
  opened.takeWhile (· ≠ name) ++ [name] ⊆ memory.cyclic

/-- What reading learns on the way, where it asks for the names `asked`, and for those
`below` in the texts of aliases. -/
structure Learns (opened : List String) (memory after : Memory) (asked below : List String) :
    Prop where
  grows : Grows memory after
  stored : ∀ name ∈ asked ++ below, name ∈ opened ∨ Stored limits aliases after.aliases name
  fresh : ∀ name tree, after.aliases.get? name = some (.parsed tree) →
    memory.aliases.get? name = some (.parsed tree) ∨ name ∈ asked ++ below
  asked : ∀ name ∈ asked, name ∈ opened → opened.head? ≠ some name → Noticed opened after name
  below : ∀ name ∈ below, name ∈ opened → Noticed opened after name

variable {limits aliases} {opened : List String} {memory after : Memory} {name : String}

theorem Stored.mono {stored stored' : AliasTable} (h : Stored limits aliases stored name)
    (more : Extends stored stored') : Stored limits aliases stored' name :=
  fun _ _ settles => more (h settles)

theorem Noticed.mono (h : Noticed opened memory name) (grows : Grows memory after) :
    Noticed opened after name :=
  fun _ member => grows.cyclic (h member)

theorem Learns.nil (memory : Memory) : Learns limits aliases opened memory memory [] [] where
  grows := .refl memory
  stored := by simp
  fresh := by simp
  asked := by simp
  below := by simp

/-- What is learnt from one question and from the rest. -/
theorem Learns.cons {middle : Memory} {met asked below : List String}
    (first : Learns limits aliases opened memory middle [name] met)
    (rest : Learns limits aliases opened middle after asked below) :
    Learns limits aliases opened memory after (name :: asked) (met ++ below) where
  grows := first.grows.trans rest.grows
  stored := by
    intro other h
    have h : other ∈ [name] ++ met ∨ other ∈ asked ++ below := by grind
    rcases h with h | h
    · exact (first.stored other h).imp_right fun stored => stored.mono rest.grows.aliases
    · exact rest.stored other h
  fresh := by
    intro other tree h
    rcases rest.fresh other tree h with h | h
    · rcases first.fresh other tree h with h | h
      · exact .inl h
      · exact .inr (by grind)
    · exact .inr (by grind)
  asked := by
    intro other h inside top
    rcases List.mem_cons.mp h with rfl | h
    · exact (first.asked other (by simp) inside top).mono rest.grows
    · exact rest.asked other h inside top
  below := by
    intro other h inside
    rcases List.mem_append.mp h with h | h
    · exact (first.below other h inside).mono rest.grows
    · exact rest.below other h inside

section Opened

/-- A name that is being read leads back to itself, or is asked for in its own text. -/
theorem noteCycle_eq (inside : name ∈ opened) :
    memory.noteCycle opened name =
      if opened.head? = some name then memory
      else { memory with
        cyclic := memory.cyclic ++ (opened.takeWhile (· ≠ name) ++ [name]) } := by
  cases opened with
  | nil => simp at inside
  | cons latest opened =>
    unfold Memory.noteCycle
    by_cases top : latest = name
    · simp [top]
    · simp [top]

theorem noticed_noteCycle (inside : name ∈ opened) (top : opened.head? ≠ some name) :
    Noticed opened (memory.noteCycle opened name) name := by
  rw [Noticed, noteCycle_eq inside, if_neg top]
  exact List.subset_append_right _ _

theorem grows_noteCycle (inside : name ∈ opened) :
    Grows memory (memory.noteCycle opened name) := by
  rw [noteCycle_eq inside]
  split
  · exact .refl memory
  · exact ⟨fun _ _ => id, List.subset_append_left _ _⟩

theorem learns_noteCycle (inside : name ∈ opened) :
    Learns limits aliases opened memory (memory.noteCycle opened name) [name] [] where
  grows := grows_noteCycle inside
  stored := by
    intro other h
    obtain rfl : other = name := by simpa using h
    exact .inl inside
  fresh := by
    intro other tree h
    rw [aliases_noteCycle] at h
    exact .inl h
  asked := by
    intro other h _ top
    obtain rfl : other = name := by simpa using h
    exact noticed_noteCycle inside top
  below := by simp

theorem Sound.noteCycle (sound : Sound limits aliases memory)
    (notices : NoticesCycles limits aliases) (opens : Opened limits aliases opened)
    (asked : Asked limits aliases opened name) (inside : name ∈ opened) :
    Sound limits aliases (memory.noteCycle opened name) where
  entries := by
    rw [aliases_noteCycle]
    exact sound.entries
  cyclic := by
    intro member h tree met
    rw [noteCycle_eq inside] at h
    split at h
    · exact sound.cyclic member h tree met
    · next top =>
      rcases List.mem_append.mp h with h | h
      · exact sound.cyclic member h tree met
      · exact not_settles_of_cycle notices opens asked inside top h

end Opened

section Given

variable {reply : Option Node}

/-- A tree that is stored is the right reply, and all that its reading meets is stored. -/
theorem Sound.answers (sound : Sound limits aliases memory)
    (notices : NoticesCycles limits aliases) (opens : Opened limits aliases opened)
    (asked : Asked limits aliases opened name) (outside : name ∉ opened)
    (known : memory.aliases.get? name = reply.map .parsed) :
    ∃ met, Answers limits aliases opened name reply met ∧
      Learns limits aliases opened memory memory [name] met := by
  rcases sound.entries name with same | ⟨tree, met, settles, parsed, within⟩
  · refine ⟨[], .given outside (same.symm.trans known), .refl memory, ?_, fun _ _ h => .inl h, ?_, ?_⟩
    · intro other h
      obtain rfl : other = name := by simpa using h
      right
      intro tree met settles
      obtain ⟨text, source⟩ := settles.source
      rw [← same, known] at source
      cases reply <;> simp at source
    · intro other h inside
      obtain rfl : other = name := by simpa using h
      contradiction
    · simp
  · obtain rfl : reply = some tree := by
      rw [known] at parsed
      cases reply <;> simp_all
    have apart := settles.apart notices outside opens asked
    refine ⟨met, settles.answers_inside notices outside opens asked, .refl memory, ?_,
      fun _ _ h => .inl h, ?_, ?_⟩
    · intro other h
      right
      rcases List.mem_cons.mp h with rfl | h
      · intro tree' met' settles'
        obtain ⟨rfl, -⟩ := settles.unique settles'
        exact parsed
      · exact within other h
    · intro other h inside
      obtain rfl : other = name := by simpa using h
      contradiction
    · exact fun other h inside => absurd inside (apart other h)

end Given

section Read

variable {text : String} {room : Nat} {tree : Node} {asked below : List String}

/-- An alias whose text has been read settles, unless it was found to be on a cycle. -/
theorem Learns.settles (learns : Learns limits aliases (name :: opened) memory after asked below)
    (source : aliases.get? name = some (.source text)) (outside : name ∉ opened)
    (reads : Reads limits aliases (name :: opened) (whole limits room text.toList) asked below tree)
    (h : name ∉ after.cyclic) :
    Settles limits aliases name tree (asked ++ below) ∧
      ∀ other ∈ asked ++ below, other ∉ opened := by
  have once : name ∉ below := by
    intro again
    exact h (learns.below name again (by simp) (by simp))
  have apart : ∀ other ∈ asked ++ below, other ∉ opened := by
    intro other among inside
    have different : name ≠ other := by
      rintro rfl
      contradiction
    have noticed : Noticed (name :: opened) after other := by
      rcases List.mem_append.mp among with among | among
      · exact learns.asked other among (by simp [inside]) (by simpa using different)
      · exact learns.below other among (by simp [inside])
    exact h (noticed (by simp [different]))
  refine ⟨.intro source (reads.elsewhere fun other among => ?_) once, apart⟩
  simp [apart other among]

theorem remember_of_mem (h : name ∈ memory.cyclic) : memory.remember name tree = memory :=
  if_pos h

theorem remember_of_not_mem (h : name ∉ memory.cyclic) :
    memory.remember name tree =
      { memory with aliases := memory.aliases.insert name (.parsed tree) } :=
  if_neg h

/-- Where the tree of an alias that settles is stored, it is the tree being stored now. -/
theorem Sound.grows_remember (sound : Sound limits aliases memory)
    (settles : name ∉ memory.cyclic → ∃ met, Settles limits aliases name tree met) :
    Grows memory (memory.remember name tree) := by
  by_cases cyclic : name ∈ memory.cyclic
  · rw [remember_of_mem cyclic]
    exact .refl memory
  · obtain ⟨met, settles⟩ := settles cyclic
    rw [remember_of_not_mem cyclic]
    refine ⟨?_, List.Subset.refl _⟩
    intro other tree' h
    by_cases same : other = name
    · subst same
      rcases sound.entries other with unread | ⟨tree'', met', settles', parsed, -⟩
      · obtain ⟨text, source⟩ := settles.source
        rw [unread, source] at h
        simp at h
      · obtain ⟨rfl, -⟩ := settles.unique settles'
        rw [parsed] at h
        obtain rfl : tree = tree' := by simpa using h
        exact Table.get?_insert_self _ _ _
    · rw [Table.get?_insert_of_ne _ same]
      exact h

theorem Sound.stored_remember (sound : Sound limits aliases memory)
    (settles : name ∉ memory.cyclic → ∃ met, Settles limits aliases name tree met) :
    Stored limits aliases (memory.remember name tree).aliases name := by
  intro tree' met' settles'
  by_cases cyclic : name ∈ memory.cyclic
  · exact absurd settles' (sound.cyclic name cyclic tree' met')
  · obtain ⟨met, settles⟩ := settles cyclic
    obtain ⟨rfl, -⟩ := settles.unique settles'
    rw [remember_of_not_mem cyclic]
    exact Table.get?_insert_self _ _ _

section Remember

variable (sound : Sound limits aliases after)
  (learns : Learns limits aliases (name :: opened) memory after asked below)
  (source : aliases.get? name = some (.source text)) (outside : name ∉ opened)
  (reads : Reads limits aliases (name :: opened) (whole limits room text.toList) asked below tree)

include sound learns source outside reads

/-- What is learnt from reading the text of an alias is learnt by asking for the alias. -/
theorem Learns.remember :
    Learns limits aliases opened memory (after.remember name tree) [name] (asked ++ below) := by
  have settles := fun h => Exists.intro _ (learns.settles source outside reads h).1
  have grows := sound.grows_remember settles
  have own := sound.stored_remember settles
  refine ⟨learns.grows.trans grows, ?_, ?_, ?_, ?_⟩
  · intro other h
    rcases List.mem_cons.mp h with rfl | h
    · exact .inr own
    · rcases learns.stored other h with inside | stored
      · rcases List.mem_cons.mp inside with rfl | inside
        · exact .inr own
        · exact .inl inside
      · exact .inr (stored.mono grows.aliases)
  · intro other tree' h
    by_cases same : other = name
    · exact .inr (same ▸ List.mem_cons_self)
    · rw [get?_remember_of_ne same] at h
      exact (learns.fresh other tree' h).imp_right (List.mem_cons_of_mem _)
  · intro other h inside
    obtain rfl : other = name := by simpa using h
    contradiction
  · intro other h inside
    have different : name ≠ other := by
      rintro rfl
      contradiction
    have noticed : Noticed (name :: opened) after other := by
      rcases List.mem_append.mp h with h | h
      · exact learns.asked other h (by simp [inside]) (by simpa using different)
      · exact learns.below other h (by simp [inside])
    intro member among
    refine grows.cyclic (noticed ?_)
    rw [List.takeWhile_cons_of_pos (by simpa using different)]
    exact List.mem_cons_of_mem _ among

theorem Sound.remember : Sound limits aliases (after.remember name tree) := by
  by_cases cyclic : name ∈ after.cyclic
  · rw [remember_of_mem cyclic]
    exact sound
  · have settles := fun h => Exists.intro _ (learns.settles source outside reads h).1
    have grows := sound.grows_remember settles
    have own := sound.stored_remember settles
    obtain ⟨settles, apart⟩ := learns.settles source outside reads cyclic
    rw [remember_of_not_mem cyclic] at grows own ⊢
    refine ⟨fun other => ?_, sound.cyclic⟩
    by_cases same : other = name
    · subst same
      refine .inr ⟨tree, _, settles, Table.get?_insert_self _ _ _, fun met h => ?_⟩
      rcases learns.stored met h with inside | stored
      · rcases List.mem_cons.mp inside with rfl | inside
        · exact own
        · exact absurd inside (apart met h)
      · exact stored.mono grows.aliases
    · rw [Table.get?_insert_of_ne _ same]
      refine (sound.entries other).imp_right ?_
      rintro ⟨tree', met, settles', parsed, within⟩
      exact ⟨tree', met, settles', parsed, fun h among => (within h among).mono grows.aliases⟩

end Remember

end Read

variable (limits aliases) in
/-- What is remembered is right after reading and, where this succeeds, so is the value. -/
structure ReadsSoundly {α : Type} (opened : List String) (memory : Memory) (i : Inquiry α)
    (result : Reading α) : Prop where
  sound : Sound limits aliases result.1
  reads : ∀ value, result.2 = .ok value → ∃ asked below,
    Reads limits aliases opened i asked below value ∧
      Learns limits aliases opened memory result.1 asked below

theorem Sound.source {text : String} (sound : Sound limits aliases memory)
    (h : memory.aliases.get? name = some (.source text)) :
    aliases.get? name = some (.source text) := by
  rcases sound.entries name with same | ⟨tree, met, -, parsed, -⟩
  · exact same.symm.trans h
  · rw [parsed] at h
    simp at h

/-- One question is answered soundly where texts are read so. -/
theorem Sound.resolve {room : Nat} (notices : NoticesCycles limits aliases)
    (opens : Opened limits aliases opened) (asked : Asked limits aliases opened name)
    (sound : Sound limits aliases memory)
    (texts : ∀ text, aliases.get? name = some (.source text) → name ∉ opened →
      ReadsSoundly limits aliases (name :: opened) memory (whole limits room text.toList)
        (readWhole limits room (name :: opened) memory text.toList))
    {result : Reading (Option Node)}
    (h : Resolution (readWhole limits room) opened memory
      name result) :
    Sound limits aliases result.1 ∧ ∀ reply, result.2 = .ok reply →
      ∃ met, Answers limits aliases opened name reply met ∧
        Learns limits aliases opened memory result.1 [name] met := by
  cases h with
  | opened inside =>
    refine ⟨sound.noteCycle notices opens asked inside, ?_⟩
    rintro reply ⟨⟩
    exact ⟨[], .opened inside, learns_noteCycle inside⟩
  | given outside known =>
    refine ⟨sound, ?_⟩
    rintro reply ⟨⟩
    exact sound.answers notices opens asked outside known
  | failed outside source ran =>
    have read := texts _ (sound.source source) outside
    rw [ran] at read
    refine ⟨read.sound, ?_⟩
    rintro reply ⟨⟩
  | read outside source ran =>
    have source := sound.source source
    have read := texts _ source outside
    rw [ran] at read
    obtain ⟨asked, below, reads, learns⟩ := read.reads _ rfl
    refine ⟨read.sound.remember learns source outside reads, ?_⟩
    rintro reply ⟨⟩
    exact ⟨_, .read outside source reads, learns.remember read.sound source outside reads⟩

/-- Running an inquiry keeps what is remembered right, and comes to the value that the
inquiry has when nothing is remembered. -/
theorem Sound.run {α : Type} {i : Inquiry α} (notices : NoticesCycles limits aliases)
    (texts : i.AsksWith fun text => ∃ room, text = whole limits room)
    (opens : Opened limits aliases opened)
    (asked : ∀ name, Asks limits aliases opened i name → Asked limits aliases opened name)
    (sound : Sound limits aliases memory) :
    ReadsSoundly limits aliases opened memory i (i.run opened memory) := by
  induction i generalizing opened memory with
  | done outcome =>
    refine ⟨sound, ?_⟩
    rintro value rfl
    exact ⟨[], [], .done value, .nil memory⟩
  | ask name text next textIh ih =>
    obtain ⟨⟨room, rfl⟩, texts⟩ := texts
    have here := asked name .here
    have answer := sound.resolve notices opens here
      (fun text source outside => textIh text.toList (whole_asksWith limits room _)
        ⟨outside, here, opens⟩ (fun other asks => ⟨text, room, source, asks⟩) sound)
      (resolution (readWhole limits room) opened memory name)
    rw [Inquiry.run_ask]
    split
    · next failed =>
      rw [failed] at answer
      refine ⟨answer.1, ?_⟩
      rintro value ⟨⟩
    · next answered =>
      rw [answered] at answer
      obtain ⟨sound, answer⟩ := answer
      obtain ⟨met, answers, learns⟩ := answer _ rfl
      obtain ⟨sound, rest⟩ := ih _ (texts _) opens
        (fun other asks => asked other (.later answers asks)) sound
      refine ⟨sound, fun value h => ?_⟩
      obtain ⟨asked, below, reads, learns'⟩ := rest value h
      exact ⟨_, _, .ask answers reads, learns.cons learns'⟩

/-- Every question that a reading asks is answered soundly. -/
theorem Sound.question {room : Nat} (notices : NoticesCycles limits aliases)
    (opens : Opened limits aliases opened) (asked : Asked limits aliases opened name)
    (sound : Sound limits aliases memory) {result : Reading (Option Node)}
    (h : Resolution (readWhole limits room) opened memory
      name result) :
    Sound limits aliases result.1 ∧ ∀ reply, result.2 = .ok reply →
      ∃ met, Answers limits aliases opened name reply met ∧
        Learns limits aliases opened memory result.1 [name] met := by
  refine sound.resolve notices opens asked (fun text source outside => ?_) h
  exact sound.run notices (whole_asksWith limits room _) ⟨outside, asked, opens⟩
    fun other asks => ⟨text, room, source, asks⟩

end Shorthand.Abbreviation
