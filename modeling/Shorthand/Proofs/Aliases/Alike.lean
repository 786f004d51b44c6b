import Shorthand.Proofs.Aliases.Memory

/-! Two memories side by side. Where one memory knows more than another one, a reading comes to
the same with both. The exception is the room for nesting: the text of an alias takes some
where it is read, and its tree takes none. So the reading that knows less may be given up, in
the text of an alias whose tree the other one knew from the beginning. -/
namespace Shorthand.Abbreviation

open Inquiry (Cut)

/-- The aliases inside whose texts a run ends, the latest first. -/
def Inquiry.endsInside {α : Type} : Inquiry α → List String → Memory → List String
  | .done _, opened, _ => opened
  | .ask name text reply, opened, memory =>
    match resolve (fun opened memory s => (text s).run opened memory) opened memory name with
    | (after, .ok tree) => (reply tree).endsInside opened after
    | (_, .error _) =>
      match memory.aliases.get? name with
      | some (.source source) => (text source.toList).endsInside (name :: opened) memory
      | _ => opened

theorem Inquiry.subset_endsInside {α : Type} (i : Inquiry α) (opened : List String)
    (memory : Memory) : opened ⊆ i.endsInside opened memory := by
  induction i generalizing opened memory with
  | done _ => exact List.Subset.refl _
  | ask name text reply textIh ih =>
    unfold endsInside
    split
    · exact ih _ opened _
    · split
      · exact List.Subset.trans (List.subset_cons_self name opened) (textIh _ _ memory)
      · exact List.Subset.refl _

variable {limits : Limits} {aliases used : AliasTable} {opened : List String} {name text : String}
  {memory memory' after after' : Memory} {tree : Node}

theorem Sound.parsed_of_stored (sound : Sound limits aliases memory)
    (sound' : Sound limits aliases memory') {tree : Node}
    (parsed : memory.aliases.get? name = some (.parsed tree))
    (stored : Stored limits aliases memory'.aliases name) :
    memory'.aliases.get? name = some (.parsed tree) := by
  rcases sound.entries name with same | ⟨tree', met, settles, parsed', -⟩
  · rw [parsed] at same
    rcases sound'.entries name with same' | ⟨tree', met, settles, -, -⟩
    · rw [same', same]
    · obtain ⟨text, source⟩ := settles.source
      rw [source] at same
      simp at same
  · obtain rfl : tree' = tree := by simpa using parsed'.symm.trans parsed
    exact stored settles

theorem Sound.extends (sound : Sound limits aliases memory)
    (sound' : Sound limits aliases memory')
    (h : ∀ name tree, memory.aliases.get? name = some (.parsed tree) →
      memory'.aliases.get? name = some (.parsed tree) ∨ Stored limits aliases memory'.aliases name) :
    Extends memory.aliases memory'.aliases :=
  fun name tree parsed =>
    (h name tree parsed).elim id (sound.parsed_of_stored sound' parsed)

/-- A name is unread in one memory only if it is in no alias table. -/
theorem Sound.unknown (sound : Sound limits aliases memory)
    (sound' : Sound limits aliases memory') (unknown : memory.aliases.get? name = none) :
    memory'.aliases.get? name = none := by
  rcases sound.entries name with same | ⟨tree, met, -, parsed, -⟩
  · rcases sound'.entries name with same' | ⟨tree, met, settles, -, -⟩
    · rw [same', ← same, unknown]
    · obtain ⟨text, source⟩ := settles.source
      rw [← same, unknown] at source
      contradiction
  · rw [parsed] at unknown
    contradiction

/-- What is learnt from reading the text of an alias is known where its tree is. -/
theorem Sound.extends_read {met : List String} (left : Sound limits aliases after)
    (sound' : Sound limits aliases memory')
    (learns : Learns limits aliases opened memory after [name] met)
    (more : Extends memory.aliases memory'.aliases) (settles : Settles limits aliases name tree met)
    (parsed : memory'.aliases.get? name = some (.parsed tree))
    (within : ∀ other ∈ met, Stored limits aliases memory'.aliases other) :
    Extends after.aliases memory'.aliases := by
  apply left.extends sound'
  intro other tree' held
  obtain before | among := learns.fresh other tree' held
  · exact .inl (more before)
  · right
    obtain rfl | among := List.mem_cons.mp among
    · intro tree₁ met₁ settles₁
      obtain ⟨rfl, -⟩ := settles.unique settles₁
      exact parsed
    · exact within other among

/-- Whatever is remembered, an inquiry that has a value comes to it, unless it is given up
where it is nested too deep. -/
theorem run_of_reads {α : Type} {i j : Inquiry α} (notices : NoticesCycles limits aliases)
    (texts : i.AsksWith fun text => ∃ room, text = whole limits room)
    (opens : Opened limits aliases opened)
    (asked : ∀ name, Asks limits aliases opened i name → Asked limits aliases opened name)
    (sound : Sound limits aliases memory) (shorter : Cut i j) {met below : List String} {value : α}
    (reads : Reads limits aliases opened j met below value) :
    TooDeep (i.run opened memory).2 ∨ (i.run opened memory).2 = .ok value := by
  induction i generalizing opened memory met below with
  | done outcome =>
    cases shorter with
    | exceeded limit j => exact .inl ⟨limit, rfl⟩
    | done =>
      cases reads
      exact .inr rfl
  | ask name text next textIh ih =>
    obtain ⟨⟨room, rfl⟩, texts⟩ := texts
    cases shorter with
    | ask _ shorter =>
      cases reads with
      | ask answers rest =>
        have here := asked name .here
        have step := resolution (readWhole limits room) opened memory name
        have question := sound.question notices opens here step
        rw [Inquiry.run_ask]
        generalize resolve _ opened memory name = result at step question ⊢
        obtain ⟨middle, failure | reply⟩ := result
        · cases step with
          | @failed text _ _ outside source ran =>
            have source := sound.source source
            obtain ⟨room', _, _, _, -, -, reads⟩ := answers.of_source outside source
            have inside : Opened limits aliases (name :: opened) := ⟨outside, here, opens⟩
            -- The text may have had more room when it was read for the value.
            have ended := textIh text.toList (whole_asksWith limits room _) inside
              (fun other asks => ⟨text, room, source, asks⟩) sound
              (whole_cut limits (Nat.le_max_left room room') _)
              (reads.cut (whole_cut limits (Nat.le_max_right room room') _))
            rw [show (whole limits room text.toList).run _ _ = _ from ran] at ended
            obtain ⟨limit, same⟩ | same := ended
            · obtain rfl := Except.error.inj same
              exact .inl ⟨limit, rfl⟩
            · contradiction
        · obtain ⟨sound, answer⟩ := question
          obtain ⟨met, answers', -⟩ := answer reply rfl
          obtain ⟨rfl, -⟩ := answers.unique answers'
          exact ih _ (texts _) opens (fun other asks => asked other (.later answers asks)) sound
            (shorter _) rest

/-- The second memory holds the trees of the first one, and further ones only out of `used`. -/
structure Beside (used : AliasTable) (memory memory' : Memory) : Prop where
  more : Extends memory.aliases memory'.aliases
  known : ∀ ⦃name tree⦄, memory'.aliases.get? name = some (.parsed tree) →
    memory.aliases.get? name = some (.parsed tree) ∨ used.get? name = some (.parsed tree)

theorem Beside.noteCycle (beside : Beside used memory memory') (opened : List String)
    (name : String) :
    Beside used (memory.noteCycle opened name) (memory'.noteCycle opened name) := by
  constructor
  · rw [aliases_noteCycle, aliases_noteCycle]
    exact beside.more
  · rw [aliases_noteCycle, aliases_noteCycle]
    exact beside.known

theorem Sound.settles_of_parsed (sound : Sound limits aliases memory)
    (source : aliases.get? name = some (.source text))
    (parsed : memory.aliases.get? name = some (.parsed tree)) :
    ∃ met, Settles limits aliases name tree met := by
  obtain same | ⟨tree', met, settles, parsed', -⟩ := sound.entries name
  · rw [parsed, source] at same
    cases same
  · obtain rfl : tree' = tree := by simpa using parsed'.symm.trans parsed
    exact ⟨met, settles⟩

/-- Where both read the text of an alias, both remember its tree or neither does. -/
theorem Beside.remember (beside : Beside used after after')
    (source : aliases.get? name = some (.source text))
    (sound : Sound limits aliases (after.remember name tree))
    (sound' : Sound limits aliases (after'.remember name tree))
    (stored : Stored limits aliases (after.remember name tree).aliases name)
    (stored' : Stored limits aliases (after'.remember name tree).aliases name) :
    Beside used (after.remember name tree) (after'.remember name tree) := by
  constructor
  · intro other tree' parsed
    by_cases same : other = name
    · subst same
      obtain ⟨met, settles⟩ := sound.settles_of_parsed source parsed
      exact stored' settles
    · rw [get?_remember_of_ne same] at parsed ⊢
      exact beside.more parsed
  · intro other tree' parsed
    by_cases same : other = name
    · subst same
      obtain ⟨met, settles⟩ := sound'.settles_of_parsed source parsed
      exact .inl (stored settles)
    · rw [get?_remember_of_ne same] at parsed ⊢
      exact beside.known parsed

variable (used) in
/-- Two readings come to the same, the second one where more is known. -/
structure ReadsAlike {α : Type} (reading reading' : Reading α) : Prop where
  same : reading.2 = reading'.2
  beside : Beside used reading.1 reading'.1

variable (used) in
/-- The run is given up where it is nested too deep, in the text of an alias whose tree
`used` holds. -/
def GivenUpInside {α : Type} (i : Inquiry α) (opened : List String) (memory : Memory) : Prop :=
  TooDeep (i.run opened memory).2 ∧
    ∃ name ∈ i.endsInside opened memory, ∃ tree, used.get? name = some (.parsed tree)

section GivenUpInside

variable {α : Type} {read : List Char → Inquiry Node} {next : Option Node → Inquiry α}

theorem GivenUpInside.ask (outside : name ∉ opened)
    (known : memory.aliases.get? name = some (.source text))
    (inside : GivenUpInside used (read text.toList) (name :: opened) memory) :
    GivenUpInside used (.ask name read next) opened memory := by
  obtain ⟨⟨limit, deep⟩, other, among, held⟩ := inside
  have ran : (read text.toList).run (name :: opened) memory =
      (_, .error (.exceeded .nesting limit)) := Prod.ext rfl deep
  have step : resolve (fun opened memory s => (read s).run opened memory) opened memory name = _ :=
    (Resolution.failed outside known ran).eq
  refine ⟨⟨limit, ?_⟩, other, ?_, held⟩
  · rw [Inquiry.run_ask, step]
    rfl
  · rw [Inquiry.endsInside, step]
    simpa only [known] using among

theorem GivenUpInside.later {reply : Option Node}
    (step : resolve (fun opened memory s => (read s).run opened memory) opened memory name =
      (after, .ok reply))
    (inside : GivenUpInside used (next reply) opened after) :
    GivenUpInside used (.ask name read next) opened memory := by
  obtain ⟨deep, other, among, held⟩ := inside
  refine ⟨?_, other, ?_, held⟩
  · rw [Inquiry.run_ask, step]
    exact deep
  · rw [Inquiry.endsInside, step]
    exact among

end GivenUpInside

section Question

variable {room : Nat} (notices : NoticesCycles limits aliases)
  (opens : Opened limits aliases opened) (asked : Asked limits aliases opened name)
  (sound : Sound limits aliases memory) (sound' : Sound limits aliases memory')
  (outside : name ∉ opened)

include notices opens asked sound sound' outside

/-- Where the text of a name is to be read in both memories, it is read for both. -/
theorem resolve_alike_of_texts (known : memory.aliases.get? name = some (.source text))
    (known' : memory'.aliases.get? name = some (.source text))
    (texts : ReadsAlike used (readWhole limits room (name :: opened) memory text.toList)
      (readWhole limits room (name :: opened) memory' text.toList)) :
    ReadsAlike used (resolve (readWhole limits room) opened memory name)
      (resolve (readWhole limits room) opened memory' name) := by
  obtain ⟨same, beside⟩ := texts
  cases ran : readWhole limits room (name :: opened) memory text.toList with
  | mk after result =>
    cases ran' : readWhole limits room (name :: opened) memory' text.toList with
    | mk after' result' =>
      rw [ran, ran'] at same beside
      obtain rfl : result = result' := same
      cases result with
      | error failure =>
        rw [(Resolution.failed outside known ran).eq, (Resolution.failed outside known' ran').eq]
        exact ⟨rfl, beside⟩
      | ok tree =>
        have step : Resolution (readWhole limits room) opened memory name _ :=
          .read outside known ran
        have step' : Resolution (readWhole limits room) opened memory' name _ :=
          .read outside known' ran'
        obtain ⟨left, answer⟩ := sound.question notices opens asked step
        obtain ⟨left', answer'⟩ := sound'.question notices opens asked step'
        obtain ⟨_, -, learns⟩ := answer _ rfl
        obtain ⟨_, -, learns'⟩ := answer' _ rfl
        rw [step.eq, step'.eq]
        refine ⟨rfl, beside.remember (sound.source known) left left' ?_ ?_⟩
        · exact (learns.stored name (by simp)).resolve_left outside
        · exact (learns'.stored name (by simp)).resolve_left outside

/-- Where the text is to be read in one memory and the other one has the tree, the text is read
to the tree, or it is nested too deep. -/
theorem resolve_alike_of_parsed (beside : Beside used memory memory')
    (known : memory.aliases.get? name = some (.source text))
    (parsed : memory'.aliases.get? name = some (.parsed tree)) :
    TooDeep (readWhole limits room (name :: opened) memory text.toList).2 ∨
      ReadsAlike used (resolve (readWhole limits room) opened memory name)
        (resolve (readWhole limits room) opened memory' name) := by
  have source := sound.source known
  obtain same | ⟨tree', met, settles, parsed', within⟩ := sound'.entries name
  · rw [parsed, source] at same
    cases same
  obtain rfl : tree' = tree := by simpa using parsed'.symm.trans parsed
  have answers := settles.answers_inside notices outside opens asked
  obtain ⟨room', _, _, tree, same, -, reads⟩ := answers.of_source outside source
  obtain rfl : tree' = tree := Option.some.inj same
  have inside : Opened limits aliases (name :: opened) := ⟨outside, asked, opens⟩
  have ended := run_of_reads notices (whole_asksWith limits room _) inside
    (fun other asks => ⟨text, room, source, asks⟩) sound
    (whole_cut limits (Nat.le_max_left room room') _)
    (reads.cut (whole_cut limits (Nat.le_max_right room room') _))
  refine ended.imp_right fun value => ?_
  cases ran : readWhole limits room (name :: opened) memory text.toList with
  | mk after result =>
    obtain rfl : result = .ok tree' := (congrArg Prod.snd ran).symm.trans value
    have step : Resolution (readWhole limits room) opened memory name _ := .read outside known ran
    have given : Resolution (readWhole limits room) opened memory' name (memory', .ok (some tree')) :=
      .given outside parsed
    obtain ⟨left, answer⟩ := sound.question notices opens asked step
    obtain ⟨met', answers', learns⟩ := answer _ rfl
    obtain ⟨-, rfl⟩ := answers.unique answers'
    rw [step.eq, given.eq]
    refine ⟨rfl, left.extends_read sound' learns beside.more settles parsed within, ?_⟩
    exact fun other tree₁ held => (beside.known held).imp_left fun before =>
      learns.grows.aliases before

omit outside

/-- A question has the same reply where more is known, if the text of the name is read so. -/
theorem resolve_alike (beside : Beside used memory memory')
    (texts : ∀ text, aliases.get? name = some (.source text) → name ∉ opened →
      GivenUpInside used (whole limits room text.toList) (name :: opened) memory ∨
        ReadsAlike used (readWhole limits room (name :: opened) memory text.toList)
          (readWhole limits room (name :: opened) memory' text.toList)) :
    (∃ text, name ∉ opened ∧ memory.aliases.get? name = some (.source text) ∧
      GivenUpInside used (whole limits room text.toList) (name :: opened) memory) ∨
    ReadsAlike used (resolve (readWhole limits room) opened memory name)
      (resolve (readWhole limits room) opened memory' name) := by
  by_cases outside : name ∈ opened
  · rw [(Resolution.opened outside).eq, (Resolution.opened outside).eq]
    exact .inr ⟨rfl, beside.noteCycle opened name⟩
  have given : ∀ reply : Option Node, memory.aliases.get? name = reply.map .parsed →
      memory'.aliases.get? name = reply.map .parsed →
      ReadsAlike used (resolve (readWhole limits room) opened memory name)
        (resolve (readWhole limits room) opened memory' name) := by
    intro reply known known'
    rw [(Resolution.given outside known).eq, (Resolution.given outside known').eq]
    exact ⟨rfl, beside⟩
  cases known : memory.aliases.get? name with
  | none => exact .inr (given none known (sound.unknown sound' known))
  | some entry =>
    cases entry with
    | parsed tree => exact .inr (given (some tree) known (beside.more known))
    | source text =>
      have source := sound.source known
      obtain unread | ⟨tree, _, _, parsed, -⟩ := sound'.entries name
      · obtain inside | alike := texts text source outside
        · exact .inl ⟨text, outside, rfl, inside⟩
        · exact .inr (resolve_alike_of_texts notices opens asked sound sound' outside known
            (unread.trans source) alike)
      · obtain deep | alike := resolve_alike_of_parsed notices opens asked sound sound' outside
          beside known parsed
        · -- The memories differ in this tree, so it was known from the beginning.
          have first := (beside.known parsed).resolve_left (by simp [known])
          have member := (whole limits room text.toList).subset_endsInside (name :: opened) memory
            List.mem_cons_self
          exact .inl ⟨text, outside, rfl, deep, name, member, tree, first⟩
        · exact .inr alike

end Question

/-- A run comes to the same where more is known, unless it is given up in the text of an alias
whose tree was known from the beginning. -/
theorem run_alike {α : Type} {i : Inquiry α} (notices : NoticesCycles limits aliases)
    (texts : i.AsksWith fun text => ∃ room, text = whole limits room)
    (opens : Opened limits aliases opened)
    (asked : ∀ name, Asks limits aliases opened i name → Asked limits aliases opened name)
    (sound : Sound limits aliases memory) (sound' : Sound limits aliases memory')
    (beside : Beside used memory memory') :
    GivenUpInside used i opened memory ∨
      ReadsAlike used (i.run opened memory) (i.run opened memory') := by
  induction i generalizing opened memory memory' with
  | done outcome => exact .inr ⟨rfl, beside⟩
  | ask name text next textIh ih =>
    obtain ⟨⟨room, rfl⟩, texts⟩ := texts
    have here := asked name .here
    have question := resolve_alike notices opens here sound sound' beside
      fun text source outside => textIh text.toList (whole_asksWith limits room _)
        ⟨outside, here, opens⟩ (fun other asks => ⟨text, room, source, asks⟩) sound sound' beside
    have step := resolution (readWhole limits room) opened memory name
    have step' := resolution (readWhole limits room) opened memory' name
    obtain ⟨text, outside, known, inside⟩ | alike := question
    · exact .inl (.ask outside known inside)
    obtain ⟨left, answer⟩ := sound.question notices opens here step
    obtain ⟨left', -⟩ := sound'.question notices opens here step'
    cases replied : resolve (readWhole limits room) opened memory name with
    | mk middle result =>
      cases replied' : resolve (readWhole limits room) opened memory' name with
      | mk middle' result' =>
        rw [replied] at left answer alike
        rw [replied'] at left' alike
        obtain ⟨same, beside⟩ := alike
        obtain rfl : result = result' := same
        cases result with
        | error failure =>
          rw [Inquiry.run_ask, Inquiry.run_ask, replied, replied']
          exact .inr ⟨rfl, beside⟩
        | ok reply =>
          obtain ⟨met, answers, -⟩ := answer reply rfl
          obtain inside | alike := ih reply (texts reply) opens
            (fun other asks => asked other (.later answers asks)) left left' beside
          · exact .inl (.later replied inside)
          · rw [Inquiry.run_ask, Inquiry.run_ask, replied, replied']
            exact .inr alike

end Shorthand.Abbreviation
