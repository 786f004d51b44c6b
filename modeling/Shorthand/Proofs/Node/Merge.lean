import Shorthand.Node.Merge
import Shorthand.Proofs.Node.Parts
import Shorthand.Proofs.Table

/-! What a caller adds to an expansion. A tree is its frame with its tags in it, and a caller
is folded into the first of them; the frame and the other tags stay as they are. So the laws of
merging are laws of folding one tag into another: it makes no difference to do it twice, and two
callers, one after the other, are one caller into which the second was folded. Of the attributes
put over others, wherever that is done, the last one of a key counts. -/
namespace Shorthand

section Classes

variable {α : Type} [BEq α] [LawfulBEq α]

/-- What is left out may be left out before or after repetitions are. -/
theorem eraseDups_filter (p : α → Bool) (l : List α) :
    (l.filter p).eraseDups = l.eraseDups.filter p := by
  match l with
  | [] => rfl
  | a :: l =>
    have shorter := eraseDups_filter p (l.filter fun b => !b == a)
    rw [List.eraseDups_cons]
    by_cases kept : p a = true
    · rw [List.filter_cons_of_pos kept, List.filter_cons_of_pos kept, List.eraseDups_cons,
        ← shorter, List.filter_comm]
    · have without : (l.filter fun b => !b == a).filter p = l.filter p := by
        rw [List.filter_filter]
        refine List.filter_congr fun b _ => ?_
        by_cases same : b = a <;> simp [same, kept]
      rw [List.filter_cons_of_neg kept, List.filter_cons_of_neg kept, ← shorter, without]
termination_by l.length
decreasing_by exact Nat.lt_succ_of_le (List.length_filter_le _ _)

theorem eraseDups_eraseDups (l : List α) : l.eraseDups.eraseDups = l.eraseDups := by
  match l with
  | [] => rfl
  | a :: l =>
    have shorter := eraseDups_eraseDups (l.filter fun b => !b == a)
    rw [List.eraseDups_cons, List.eraseDups_cons, ← eraseDups_filter, List.filter_filter]
    simp only [Bool.and_self, shorter]
termination_by l.length
decreasing_by exact Nat.lt_succ_of_le (List.length_filter_le _ _)

/-- What a function keeps apart is told apart before and after it. -/
theorem eraseDups_map_of_injective {β : Type} [BEq β] [LawfulBEq β] {f : α → β}
    (injective : Function.Injective f) (l : List α) :
    (l.map f).eraseDups = l.eraseDups.map f := by
  match l with
  | [] => rfl
  | a :: l =>
    have shorter := eraseDups_map_of_injective injective (l.filter fun b => !b == a)
    have others : (l.map f).filter (fun b => !b == f a) = (l.filter fun b => !b == a).map f := by
      rw [List.filter_map]
      refine congrArg (List.map f) (List.filter_congr fun b _ => ?_)
      refine congrArg (!·) ?_
      rw [Bool.eq_iff_iff, beq_iff_eq, beq_iff_eq]
      exact injective.eq_iff
    rw [List.map_cons, List.eraseDups_cons, List.eraseDups_cons, others, shorter, List.map_cons]
termination_by l.length
decreasing_by exact Nat.lt_succ_of_le (List.length_filter_le _ _)

theorem removeAll_congr {first second : List α} (same : ∀ a, a ∈ first ↔ a ∈ second)
    (l : List α) : l.removeAll first = l.removeAll second := by
  refine List.filter_congr fun a _ => congrArg (!·) ?_
  rw [Bool.eq_iff_iff, List.elem_iff, List.elem_iff, same]

theorem eraseDups_append_left (first second : List α) :
    (first.eraseDups ++ second).eraseDups = (first ++ second).eraseDups := by
  rw [List.eraseDups_append, List.eraseDups_append, eraseDups_eraseDups,
    removeAll_congr (fun _ => List.mem_eraseDups)]

theorem eraseDups_append_right (first second : List α) :
    (first ++ second.eraseDups).eraseDups = (first ++ second).eraseDups := by
  have removed : second.eraseDups.removeAll first = (second.removeAll first).eraseDups :=
    (eraseDups_filter _ second).symm
  rw [List.eraseDups_append, List.eraseDups_append, removed, eraseDups_eraseDups]

theorem mergeClasses_mergeClasses (base first second : List Template) :
    mergeClasses (mergeClasses base first) second =
      mergeClasses base (mergeClasses first second) := by
  simp only [mergeClasses, eraseDups_append_left, eraseDups_append_right, List.append_assoc]

theorem mergeClasses_self (classes : List Template) :
    mergeClasses classes classes = classes.eraseDups := by
  have none : classes.removeAll classes = [] := by
    simp [List.removeAll]
  rw [mergeClasses, List.eraseDups_append, none, List.eraseDups_nil, List.append_nil]

end Classes

section Properties

/-- Attributes put over others have every key once. The keys that were there keep their places,
the others follow as they first come, and each key has the last value that is put over it, or
the one it had where none is. -/
theorem mergeProperties_last_wins {ν : Type} {base : Table String ν} (distinct : base.keys.Nodup)
    (overrides : Table String ν) :
    (Table.keys (mergeProperties base overrides)).Nodup ∧
    Table.keys (mergeProperties base overrides) =
      base.keys ++ (overrides.keys.filter (· ∉ base.keys)).eraseDups ∧
    ∀ key value, (key, value) ∈ mergeProperties base overrides ↔
      overrides.IsLast (key, value) ∨ key ∉ overrides.keys ∧ (key, value) ∈ base := by
  refine ⟨Table.nodup_keys_insertAll distinct overrides, Table.keys_insertAll base overrides, ?_⟩
  intro key value
  exact Table.mem_insertAll_iff distinct

/-- A key of the base and a new key, each twice. -/
theorem mergeProperties_last_wins_repeated :
    (Table.keys [("a", 1), ("b", 2)]).Nodup ∧
      let merged := mergeProperties [("a", 1), ("b", 2)] [("c", 3), ("a", 9), ("c", 4), ("a", 5)]
      Table.keys merged = ["a", "b", "c"] ∧
        ("a", 5) ∈ merged ∧ ("b", 2) ∈ merged ∧ ("c", 4) ∈ merged ∧ ("c", 3) ∉ merged := by
  have distinct : (Table.keys [("a", 1), ("b", 2)]).Nodup := by decide
  obtain ⟨-, keys, entries⟩ :=
    mergeProperties_last_wins distinct [("c", 3), ("a", 9), ("c", 4), ("a", 5)]
  refine ⟨distinct, keys.trans (by decide), ?_, ?_, ?_, ?_⟩
  · exact (entries "a" 5).mpr (.inl ⟨[("c", 3), ("a", 9), ("c", 4)], [], rfl, by decide⟩)
  · exact (entries "b" 2).mpr (.inr ⟨by decide, by decide⟩)
  · exact (entries "c" 4).mpr (.inl ⟨[("c", 3), ("a", 9)], [("a", 5)], rfl, by decide⟩)
  · decide

end Properties

namespace Tag

/-- Folding the same caller in again changes nothing. -/
theorem qualify_self (caller tag : Tag) :
    caller.qualify (caller.qualify tag) = caller.qualify tag := by
  have classes : mergeClasses (mergeClasses tag.classes caller.classes) caller.classes =
      mergeClasses tag.classes caller.classes := by
    rw [mergeClasses_mergeClasses, mergeClasses_self, mergeClasses, eraseDups_append_right]
    rfl
  have properties : mergeProperties (mergeProperties tag.properties caller.properties)
      caller.properties = mergeProperties tag.properties caller.properties :=
    Table.insertAll_insertAll_self _ _
  simp [qualify, classes, properties, ← Option.or_assoc]

/-- The second caller may be folded into the first one, if that has every attribute once. -/
theorem qualify_qualify {first : Tag} (distinct : (Table.keys first.properties).Nodup)
    (second tag : Tag) :
    second.qualify (first.qualify tag) = (second.qualify first).qualify tag := by
  have properties : mergeProperties (mergeProperties tag.properties first.properties)
      second.properties =
        mergeProperties tag.properties (mergeProperties first.properties second.properties) :=
    Table.insertAll_insertAll distinct _ _
  simp [qualify, mergeClasses_mergeClasses, properties, Bool.and_assoc, Option.or_assoc]

end Tag

namespace Node

section Frame

mutual

/-- The tree around its tags, each of which gives way to one without anything. -/
def frame : Node → Node
  | .tag _ => .tag { name := .empty }
  | .text content => .text content
  | .copies items => .copies (frameIn items)
  | .chain items => .chain (frameIn items)
  | .nested _ child => .nested { name := .empty } child.frame
  | .filtered filters inner => .filtered filters inner.frame
  | .filler words => .filler words

def frameIn : List Node → List Node
  | [] => []
  | item :: rest => item.frame :: frameIn rest

end

mutual

theorem length_tags_of_frame {tree other : Node} (same : tree.frame = other.frame) :
    tree.tags.length = other.tags.length := by
  cases tree <;> cases other <;> injection same
  case tag.tag => rfl
  case text.text => rfl
  case filler.filler => rfl
  case copies.copies within => exact length_tagsIn_of_frameIn within
  case chain.chain within => exact length_tagsIn_of_frameIn within
  case nested.nested within => exact congrArg (· + 1) (length_tags_of_frame within)
  case filtered.filtered _ within =>
    rw [tags, tags]
    exact length_tags_of_frame within

theorem length_tagsIn_of_frameIn {items others : List Node} (same : frameIn items = frameIn others) :
    (tagsIn items).length = (tagsIn others).length := by
  cases items <;> cases others <;> injection same
  case nil.nil => rfl
  case cons.cons first later =>
    simp only [tagsIn, List.length_append, length_tags_of_frame first,
      length_tagsIn_of_frameIn later]

end

mutual

/-- A tree is its frame with its tags in it. -/
theorem eq_of_frame_of_tags {tree other : Node} (same : tree.frame = other.frame)
    (tags : tree.tags = other.tags) : tree = other := by
  cases tree <;> cases other <;> injection same
  case tag.tag => exact congrArg Node.tag (List.singleton_inj.mp tags)
  case text.text content => exact congrArg text content
  case filler.filler words => exact congrArg filler words
  case copies.copies within => exact congrArg copies (eq_of_frameIn_of_tagsIn within tags)
  case chain.chain within => exact congrArg chain (eq_of_frameIn_of_tagsIn within tags)
  case nested.nested within =>
    obtain ⟨parent, below⟩ := List.cons.inj tags
    exact congrArg₂ nested parent (eq_of_frame_of_tags within below)
  case filtered.filtered names within =>
    exact congrArg₂ filtered names (eq_of_frame_of_tags within tags)

theorem eq_of_frameIn_of_tagsIn {items others : List Node} (same : frameIn items = frameIn others)
    (tags : tagsIn items = tagsIn others) : items = others := by
  cases items <;> cases others <;> injection same
  case nil.nil => rfl
  case cons.cons first later =>
    -- The tags of the first items are equally many, so they end at the same place.
    obtain ⟨here, there⟩ := List.append_inj tags (length_tags_of_frame first)
    exact congrArg₂ List.cons (eq_of_frame_of_tags first here)
      (eq_of_frameIn_of_tagsIn later there)

end

end Frame

section FirstTag

variable {change : Tag → Tag}

mutual

/-- A tree with its first tag changed has all other tags, and its frame. -/
theorem exists_of_mapFirstTag? {tree new : Node} (changed : tree.mapFirstTag? change = some new) :
    new.frame = tree.frame ∧ ∃ first later,
      tree.tags = first :: later ∧ new.tags = change first :: later := by
  match tree with
  | .tag t =>
    obtain rfl := Option.some.inj changed
    exact ⟨rfl, t, [], rfl, rfl⟩
  | .nested parent child =>
    obtain rfl := Option.some.inj changed
    exact ⟨rfl, parent, child.tags, rfl, rfl⟩
  | .chain items =>
    obtain ⟨_, inside, rfl⟩ := Option.map_eq_some_iff.mp changed
    obtain ⟨frames, tags⟩ := exists_of_mapFirstTagIn? inside
    exact ⟨congrArg chain frames, tags⟩
  | .copies items =>
    obtain ⟨_, inside, rfl⟩ := Option.map_eq_some_iff.mp changed
    obtain ⟨frames, tags⟩ := exists_of_mapFirstTagIn? inside
    exact ⟨congrArg copies frames, tags⟩
  | .filtered filters inner =>
    obtain ⟨_, inside, rfl⟩ := Option.map_eq_some_iff.mp changed
    obtain ⟨frames, tags⟩ := exists_of_mapFirstTag? inside
    exact ⟨congrArg (filtered filters) frames, tags⟩
  | .text _ | .filler _ => contradiction

theorem exists_of_mapFirstTagIn? {items new : List Node}
    (changed : mapFirstTagIn? change items = some new) :
    frameIn new = frameIn items ∧ ∃ first later,
      tagsIn items = first :: later ∧ tagsIn new = change first :: later := by
  match items with
  | [] => contradiction
  | item :: rest =>
    rw [mapFirstTagIn?] at changed
    split at changed
    · next inside =>
      obtain rfl := Option.some.inj changed
      obtain ⟨frames, first, later, tags, new⟩ := exists_of_mapFirstTag? inside
      refine ⟨congrArg (· :: frameIn rest) frames, first, later ++ tagsIn rest, ?_, ?_⟩
      · rw [tagsIn, tags, List.cons_append]
      · rw [tagsIn, new, List.cons_append]
    · next tagless =>
      obtain ⟨_, inside, rfl⟩ := Option.map_eq_some_iff.mp changed
      obtain ⟨frames, tags⟩ := exists_of_mapFirstTagIn? inside
      refine ⟨congrArg (item.frame :: ·) frames, ?_⟩
      rw [tagsIn, tagsIn, tags_eq_nil_of_mapFirstTag? tagless]
      exact tags

theorem tags_eq_nil_of_mapFirstTag? {tree : Node} (unchanged : tree.mapFirstTag? change = none) :
    tree.tags = [] := by
  match tree with
  | .tag _ | .nested _ _ => contradiction
  | .text _ | .filler _ => rfl
  | .chain items | .copies items =>
    exact tagsIn_eq_nil_of_mapFirstTagIn? (Option.map_eq_none_iff.mp unchanged)
  | .filtered _ inner =>
    rw [mapFirstTag?, Option.map_eq_none_iff] at unchanged
    rw [tags, tags_eq_nil_of_mapFirstTag? unchanged]

theorem tagsIn_eq_nil_of_mapFirstTagIn? {items : List Node}
    (unchanged : mapFirstTagIn? change items = none) : tagsIn items = [] := by
  match items with
  | [] => rfl
  | item :: rest =>
    rw [mapFirstTagIn?] at unchanged
    split at unchanged
    · contradiction
    · next tagless =>
      rw [tagsIn, tags_eq_nil_of_mapFirstTag? tagless,
        tagsIn_eq_nil_of_mapFirstTagIn? (Option.map_eq_none_iff.mp unchanged)]
      rfl

end

/-- Merging keeps the frame and changes the first tag alone. -/
theorem merge_spec (expansion : Node) (caller : Tag) :
    (expansion.merge caller).frame = expansion.frame ∧
      (expansion.merge caller).tags = expansion.tags.modifyHead caller.qualify := by
  unfold merge
  cases changed : expansion.mapFirstTag? caller.qualify with
  | none =>
    rw [tags_eq_nil_of_mapFirstTag? changed]
    exact ⟨rfl, tags_eq_nil_of_mapFirstTag? changed⟩
  | some new =>
    obtain ⟨frames, first, later, tags, newTags⟩ := exists_of_mapFirstTag? changed
    rw [tags]
    exact ⟨frames, newTags⟩

/-- Folding a caller into the first tag of a merged tree is folding it into that tag alone. -/
theorem merge_merge_spec (expansion : Node) (first second : Tag) :
    ((expansion.merge first).merge second).frame = expansion.frame ∧
      ((expansion.merge first).merge second).tags =
        expansion.tags.modifyHead fun tag => second.qualify (first.qualify tag) := by
  obtain ⟨frames, tags⟩ := merge_spec expansion first
  obtain ⟨frames', tags'⟩ := merge_spec (expansion.merge first) second
  exact ⟨frames'.trans frames, by rw [tags', tags, List.modifyHead_modifyHead]; rfl⟩

end FirstTag

/-- Merging keeps the frame of a tree and changes its first tag alone, whose name stays; that
says all of it, and a tree without tags stays as it is. The same caller is merged twice as
once, and two callers are merged as one, which is the first with the second folded into it. -/
theorem merge_acts_on_first_tag (expansion : Node) (first second : Tag) :
    ((expansion.merge first).frame = expansion.frame ∧
      (expansion.merge first).tags = expansion.tags.modifyHead first.qualify ∧
      (expansion.merge first).tags.map Tag.name = expansion.tags.map Tag.name ∧
      (∀ tree : Node, tree.frame = expansion.frame →
        tree.tags = expansion.tags.modifyHead first.qualify → tree = expansion.merge first) ∧
      (expansion.tags = [] → expansion.merge first = expansion)) ∧
    (expansion.merge first).merge first = expansion.merge first ∧
    ((Table.keys first.properties).Nodup →
      ∃ combined, (tag first).merge second = tag combined ∧
        (expansion.merge first).merge second = expansion.merge combined) := by
  obtain ⟨frames, tags⟩ := merge_spec expansion first
  refine ⟨⟨frames, tags, ?_, ?_, ?_⟩, ?_, ?_⟩
  · rw [tags]
    cases expansion.tags <;> rfl
  · intro tree same changed
    exact eq_of_frame_of_tags (same.trans frames.symm) (changed.trans tags.symm)
  · intro none
    rw [none] at tags
    exact eq_of_frame_of_tags frames (tags.trans none.symm)
  · obtain ⟨framesTwice, tagsTwice⟩ := merge_merge_spec expansion first first
    refine eq_of_frame_of_tags (framesTwice.trans frames.symm) ?_
    rw [tagsTwice, tags]
    simp only [Tag.qualify_self]
  · intro distinct
    refine ⟨second.qualify first, rfl, ?_⟩
    obtain ⟨framesTwice, tagsTwice⟩ := merge_merge_spec expansion first second
    obtain ⟨framesOnce, tagsOnce⟩ := merge_spec expansion (second.qualify first)
    refine eq_of_frame_of_tags (framesTwice.trans framesOnce.symm) ?_
    rw [tagsTwice, tagsOnce]
    simp only [Tag.qualify_qualify distinct]

/-- An expansion whose first tag has a class and an attribute twice. -/
def doubled : Node :=
  .chain [.text (.ofText "see"), .nested
    { name := .ofText "a", classes := [.ofText "u", .ofText "u"]
      properties := [("k", .ofText "1"), ("k", .ofText "2")] } (.tag { name := .ofText "b" })]

def firstCaller : Tag :=
  { name := .ofText "x", hasBody := false, id := some (.ofText "i"),
    classes := [.ofText "v", .ofText "u"], properties := [("m", .ofText "4"), ("k", .ofText "3")] }

def secondCaller : Tag :=
  { name := .ofText "y", classes := [.ofText "w", .ofText "v"],
    properties := [("n", .ofText "5"), ("m", .ofText "6"), ("n", .ofText "7")],
    text := some (.ofText "t") }

/-- The first of two entries under one key takes the value of both callers' last entry. -/
theorem merge_acts_on_first_tag_doubled :
    (Table.keys firstCaller.properties).Nodup ∧
      (doubled.merge firstCaller).merge secondCaller = .chain [.text (.ofText "see"), .nested
        { name := .ofText "a", hasBody := false, id := some (.ofText "i")
          classes := [.ofText "u", .ofText "v", .ofText "w"]
          properties := [("k", .ofText "3"), ("k", .ofText "2"), ("m", .ofText "6"),
            ("n", .ofText "7")]
          text := some (.ofText "t") } (.tag { name := .ofText "b" })] := by
  have distinct : (Table.keys firstCaller.properties).Nodup := by decide
  obtain ⟨-, -, together⟩ := merge_acts_on_first_tag doubled firstCaller secondCaller
  obtain ⟨combined, folded, merged⟩ := together distinct
  obtain rfl := tag.inj folded
  exact ⟨distinct, merged.trans rfl⟩

end Node

end Shorthand
