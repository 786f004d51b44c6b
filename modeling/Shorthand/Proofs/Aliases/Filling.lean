import Mathlib
import Shorthand.Expander
import Shorthand.Proofs.Aliases.Questions

/-! What reading leaves behind. A run touches nothing but the alias table, and there it
puts trees in the place of texts. What it puts there is what the text alone was read to: the
tag that asked, with its qualifiers, comes to the tree of the alias only after that. -/
namespace Shorthand.Abbreviation

variable {limits : Limits} {opened : List String} {memory after : Memory} {name text : String}
  {tree : Node}

variable (limits) in
/-- In the course of a run the text of an alias is read as a whole, and comes to a tree. -/
inductive ReadsText : {α : Type} → Inquiry α → (opened : List String) → Memory →
    (name text : String) → Node → Prop where
  | here {α : Type} {opened : List String} {memory after : Memory} {name text : String}
      {room : Nat} {next : Option Node → Inquiry α} {tree : Node} :
      name ∉ opened → memory.aliases.get? name = some (.source text) →
        (whole limits room text.toList).run (name :: opened) memory = (after, .ok tree) →
          ReadsText (.ask name (whole limits room) next) opened memory name text tree
  | inside {α : Type} {opened : List String} {memory : Memory} {outer source name text : String}
      {room : Nat} {next : Option Node → Inquiry α} {tree : Node} :
      outer ∉ opened → memory.aliases.get? outer = some (.source source) →
        ReadsText (whole limits room source.toList) (outer :: opened) memory name text tree →
          ReadsText (.ask outer (whole limits room) next) opened memory name text tree
  | later {α : Type} {opened : List String} {memory after : Memory} {asked name text : String}
      {room : Nat} {next : Option Node → Inquiry α} {reply : Option Node} {tree : Node} :
      resolve (fun opened memory s => (whole limits room s).run opened memory) opened memory asked =
          (after, .ok reply) →
        ReadsText (next reply) opened after name text tree →
          ReadsText (.ask asked (whole limits room) next) opened memory name text tree

section Changes

/-- How the entry of an alias may change: a text becomes the tree that it is read to. -/
inductive EntryChange (readTo : String → Node → Prop) : Option Alias → Option Alias → Prop where
  | kept (entry : Option Alias) : EntryChange readTo entry entry
  | read {text : String} {tree : Node} :
      readTo text tree → EntryChange readTo (some (.source text)) (some (.parsed tree))

theorem EntryChange.mono {inner readTo : String → Node → Prop} {before after : Option Alias}
    (change : EntryChange inner before after) (imp : ∀ text tree, inner text tree → readTo text tree) :
    EntryChange readTo before after := by
  cases change with
  | kept => exact .kept _
  | read h => exact .read (imp _ _ h)

theorem EntryChange.trans {readTo : String → Node → Prop} {before middle after : Option Alias}
    (first : EntryChange readTo before middle) (second : EntryChange readTo middle after) :
    EntryChange readTo before after := by
  cases second with
  | kept => exact first
  | read h =>
    cases first
    exact .read h

variable {inner readTo : String → String → Node → Prop} {before middle later : AliasTable}

variable (readTo) in
/-- How an alias table may change. -/
structure Changes (before later : AliasTable) : Prop where
  keys : later.keys = before.keys
  entries : ∀ name, EntryChange (readTo name) (before.get? name) (later.get? name)

theorem Changes.refl (aliases : AliasTable) : Changes readTo aliases aliases :=
  ⟨rfl, fun _ => .kept _⟩

theorem Changes.mono (changes : Changes inner before later)
    (imp : ∀ name text tree, inner name text tree → readTo name text tree) :
    Changes readTo before later :=
  ⟨changes.keys, fun name => (changes.entries name).mono (imp name)⟩

theorem Changes.trans (first : Changes readTo before middle) (second : Changes readTo middle later) :
    Changes readTo before later :=
  ⟨second.keys.trans first.keys, fun name => (first.entries name).trans (second.entries name)⟩

/-- The tree takes the place of the text, unless it is not to be remembered. -/
theorem Changes.remember (changes : Changes readTo memory.aliases after.aliases)
    (source : memory.aliases.get? name = some (.source text)) (h : readTo name text tree) :
    Changes readTo memory.aliases (after.remember name tree).aliases := by
  unfold Memory.remember
  split
  · exact changes
  · have present : name ∈ after.aliases.keys :=
      changes.keys ▸ List.mem_map_of_mem (Table.mem_of_get? source)
    refine ⟨(Table.keys_insert_of_mem present _).trans changes.keys, fun other => ?_⟩
    by_cases same : other = name
    · subst same
      rw [source, Table.get?_insert_self]
      exact .read h
    · rw [Table.get?_insert_of_ne _ same]
      exact changes.entries other

end Changes

/-- Whatever comes of a run, what it changes are texts that it reads. -/
theorem changes_run {α : Type} {i : Inquiry α}
    (texts : i.AsksWith fun text => ∃ room, text = whole limits room) (opened : List String)
    (memory : Memory) :
    Changes (ReadsText limits i opened memory) memory.aliases (i.run opened memory).1.aliases := by
  induction i generalizing opened memory with
  | done outcome => exact .refl _
  | ask name text next textIh ih =>
    obtain ⟨⟨room, rfl⟩, texts⟩ := texts
    have answer := resolution (fun opened memory s => (whole limits room s).run opened memory)
      opened memory name
    cases replied : resolve (fun opened memory s => (whole limits room s).run opened memory) opened
      memory name with
    | mk after result =>
      rw [Inquiry.run_ask, replied]
      rw [replied] at answer
      -- What the question changes comes before what the rest of the run changes.
      have later : ∀ reply, result = .ok reply →
          Changes (ReadsText limits (.ask name (whole limits room) next) opened memory)
            memory.aliases after.aliases →
          Changes (ReadsText limits (.ask name (whole limits room) next) opened memory)
            memory.aliases ((next reply).run opened after).1.aliases := by
        rintro reply rfl changes
        exact changes.trans ((ih reply (texts reply) opened after).mono fun _ _ _ => .later replied)
      have inside : ∀ {source}, name ∉ opened →
          memory.aliases.get? name = some (.source source) →
          Changes (ReadsText limits (.ask name (whole limits room) next) opened memory)
            memory.aliases
            ((whole limits room source.toList).run (name :: opened) memory).1.aliases :=
        fun outside known => (textIh _ (whole_asksWith limits room _) (name :: opened) memory).mono
          fun _ _ _ => .inside outside known
      cases answer with
      | opened _ =>
        refine later _ rfl ?_
        rw [aliases_noteCycle]
        exact .refl _
      | given _ _ => exact later _ rfl (.refl _)
      | failed outside source ran =>
        have changes := inside outside source
        rw [ran] at changes
        exact changes
      | read outside source ran =>
        have changes := inside outside source
        rw [ran] at changes
        exact later _ rfl (changes.remember source (.here outside source ran))

section Caller

variable {expression : Reader}

/-- What asks nothing more remembers nothing more. -/
theorem run_bind_done_fst {α β : Type} {i : Inquiry α} {next : α → Inquiry β}
    (ends : ∀ value, ∃ outcome, next value = .done outcome) :
    ((i >>= next).run opened memory).1 = (i.run opened memory).1 := by
  rw [Inquiry.run_bind]
  obtain ⟨after, failure | value⟩ := i.run opened memory
  · rfl
  · obtain ⟨outcome, done⟩ := ends value
    dsimp only
    rw [done]
    rfl

theorem run_expandTag_fst (tag : Tag) :
    ((expandTag expression tag).run opened memory).1 =
      (tag.name.literal?.elim memory fun name =>
        ((standsFor expression name).run opened memory).1) := by
  unfold expandTag
  cases tag.name.literal? with
  | none => rfl
  | some name =>
    refine run_bind_done_fst fun tree => ?_
    cases tree <;> exact ⟨_, rfl⟩

theorem run_expandShorthand_fst (node : Node) :
    ((expandShorthand expression node).run opened memory).1 =
      (((lastOperand? node).map (·.name)).bind (·.literal?)).elim memory fun name =>
        ((standsFor expression (name ++ "+")).run opened memory).1 := by
  unfold expandShorthand
  obtain _ | tag := lastOperand? node
  · rfl
  · cases literal : tag.name.literal? with
    | none => simp [literal]
    | some name =>
      simp only [Option.map_some, Option.bind_some, literal, Option.elim_some]
      refine run_bind_done_fst fun tree => ?_
      cases tree <;> exact ⟨_, rfl⟩

end Caller

end Shorthand.Abbreviation

namespace Shorthand.Expander

open Abbreviation

/-- Reading an abbreviation changes nothing but entries of the alias table, whatever comes of
it. No name comes or goes; an entry that changes is a text that became the tree to which the
reading read it; and what is remembered when a tag asks for an alias depends on its name alone,
not on its qualifiers. -/
theorem read_frame (expander : Expander) (abbreviation : String) :
    let before := expander.tables.aliases
    let after := (expander.read abbreviation).2.tables.aliases
    let reading := whole expander.limits expander.limits.maxDepth
      (splitFilters abbreviation.toList).1
    (expander.read abbreviation).2 =
        { expander with tables := { expander.tables with aliases := after } } ∧
      after.keys = before.keys ∧
      (∀ name, EntryChange (ReadsText expander.limits reading [] { aliases := before } name)
        (before.get? name) (after.get? name)) ∧
      ∀ (expression : Reader) (opened : List String) (memory : Memory),
        (∀ tag tag' : Tag, tag.name = tag'.name →
          ((expandTag expression tag).run opened memory).1 =
            ((expandTag expression tag').run opened memory).1) ∧
        ∀ node node' : Node,
          (lastOperand? node).map (·.name) = (lastOperand? node').map (·.name) →
            ((expandShorthand expression node).run opened memory).1 =
              ((expandShorthand expression node').run opened memory).1 := by
  intro before after reading
  obtain ⟨keys, entries⟩ := changes_run (whole_asksWith expander.limits expander.limits.maxDepth
    (splitFilters abbreviation.toList).1) [] { aliases := before }
  refine ⟨rfl, keys, entries, fun expression opened memory => ⟨?_, ?_⟩⟩
  · intro tag tag' same
    rw [run_expandTag_fst, run_expandTag_fst, same]
  · intro node node' same
    rw [run_expandShorthand_fst, run_expandShorthand_fst, same]

/-- An alias of a tag with a class. -/
def quoting : Expander where
  tables := { aliases := [("bq", .source "blockquote.quote")] }
  source := .ofSeed 0

/-- The alias is kept with its own class alone, although a tag with an id asks for it and the
reading fails behind it. -/
theorem read_frame_quoting :
    (quoting.read "bq#own+(p").1 = .error (.unmet .groupEnd true) ∧
      (quoting.read "bq#own+(p").2 = { quoting with
        tables := { quoting.tables with aliases := [("bq", .parsed (.tag
          { name := .ofText "blockquote", classes := [.ofText "quote"] }))] } } ∧
      ∀ expression opened memory,
        ((expandTag expression { name := .ofText "bq", id := some (.ofText "own") }).run opened
            memory).1 =
          ((expandTag expression { name := .ofText "bq" }).run opened memory).1 := by
  obtain ⟨frame, -, -, caller⟩ := read_frame quoting "bq#own+(p"
  refine ⟨by cbv, ?_, fun expression opened memory => (caller expression opened memory).1 _ _ rfl⟩
  rw [frame]
  have aliases : (quoting.read "bq#own+(p").2.tables.aliases = [("bq", .parsed (.tag
      { name := .ofText "blockquote", classes := [.ofText "quote"] }))] := by cbv
  rw [aliases]

end Shorthand.Expander
