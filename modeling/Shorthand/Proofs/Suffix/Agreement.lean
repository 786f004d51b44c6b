import Mathlib
import Shorthand.Proofs.Grammar.Composition
import Shorthand.Proofs.Grammar.Locality
import Shorthand.Proofs.Suffix.Plain

/-! Filters behind an abbreviation. The text that the grammar accepts is read as it is, and
with filters behind it as the same tree filtered, exactly if a walk over it is not held up
and ends outside text and lists. That is so where every attribute is plain. -/
namespace Shorthand.Abbreviation

/-- A filter can be named so: the name is there, unbroken and trimmed. -/
structure IsFilterName (name : String) : Prop where
  nonempty : name ≠ ""
  unbroken : '|' ∉ name.toList
  trimmed : trim name.toList = name.toList

/-- The place behind the text is outside, and no suffix begins before. -/
def EndsOutside (s : List Char) : Prop :=
  ∃ place, Place.walk {} s = some place ∧ place.isOutside

/-- An abbreviation is read as the tree, and with filters behind it as the tree filtered. -/
def ReadsFiltered (limits : Limits) (aliases : AliasTable) (abbreviation : String) (tree : Node) :
    Prop :=
  (read limits aliases abbreviation).2 = .ok tree ∧
  ∀ names, names ≠ [] → (∀ name ∈ names, IsFilterName name) →
    (read limits aliases (abbreviation ++ "|" ++ "|".intercalate names)).2 =
      .ok (.filtered names tree)

theorem filterNames_intercalate {names : List String} (nonempty : names ≠ [])
    (valid : ∀ name ∈ names, IsFilterName name) :
    filterNames (['|'].intercalate (names.map String.toList)) = names := by
  have unbroken : ∀ name ∈ names.map String.toList, '|' ∉ name := by
    simp only [List.forall_mem_map]
    exact fun name mem => (valid name mem).unbroken
  have trimmed : (names.map String.toList).map trim = names.map String.toList := by
    rw [List.map_map]
    exact List.map_congr_left fun name mem => (valid name mem).trimmed
  have kept : (names.map String.toList).filter (· ≠ []) = names.map String.toList := by
    rw [List.filter_eq_self]
    simp only [List.forall_mem_map]
    exact fun name mem => decide_eq_true fun empty =>
      (valid name mem).nonempty (String.toList_inj.mp empty)
  rw [filterNames, List.splitOn_intercalate _ unbroken (by simpa using nonempty), trimmed, kept,
    List.map_map]
  simp

theorem splitFilters_outside {s : List Char} (t : List Char) (outside : EndsOutside s) :
    splitFilters (s ++ '|' :: t) = (s, filterNames t) := by
  obtain ⟨place, walked, free⟩ := outside
  rw [splitFilters, splitAt_append [] _ walked, splitAt, if_pos ⟨rfl, free⟩]
  simp

theorem readsFiltered_of_endsOutside {limits : Limits} {aliases : AliasTable}
    {abbreviation : String} {tree : Node}
    (accepted : ((complete (expression limits limits.maxDepth) abbreviation.toList).run []
      { aliases }).2 = .ok tree)
    (outside : EndsOutside abbreviation.toList) :
    ReadsFiltered limits aliases abbreviation tree := by
  constructor
  · obtain ⟨place, walked, -⟩ := outside
    exact (read_of_no_filters (splitFilters_of_walk walked)).trans accepted
  · intro names nonempty valid
    have suffix : splitFilters (abbreviation ++ "|" ++ "|".intercalate names).toList =
        (abbreviation.toList, names) := by
      have split := splitFilters_outside (['|'].intercalate (names.map String.toList)) outside
      rw [filterNames_intercalate nonempty valid] at split
      simpa using split
    rw [read_of_splitFilters suffix, accepted]
    exact congrArg Except.ok (if_neg nonempty)

theorem mem_dropWhile {p : Char → Bool} {c : Char} {s : List Char} (mem : c ∈ s)
    (h : p c = false) : c ∈ s.dropWhile p := by
  rw [← List.takeWhile_append_dropWhile (p := p) (l := s)] at mem
  rcases List.mem_append.mp mem with taken | dropped
  · exact absurd (List.mem_takeWhile_imp taken) (by simp [h])
  · exact dropped

theorem mem_trim {c : Char} {s : List Char} (mem : c ∈ s) (h : isBlank c = false) : c ∈ trim s :=
  List.mem_reverse.mpr (mem_dropWhile (List.mem_reverse.mpr (mem_dropWhile mem h)) h)

/-- Where no filter is named there are only blanks and separators. -/
theorem filterNames_eq_nil {s : List Char} (h : filterNames s = []) :
    ∀ c ∈ s, c = '|' ∨ isBlank c := by
  intro c mem
  have whole : ['|'].intercalate (s.splitOn '|') = s := List.intercalate_splitOn '|'
  rw [← whole] at mem
  obtain same | ⟨piece, pieceMem, mem⟩ := mem_intercalate mem
  · exact .inl same
  · right
    by_contra notBlank
    have named : String.ofList (trim piece) ∈ filterNames s := by
      have kept := mem_trim mem (Bool.eq_false_iff.mpr notBlank)
      refine List.mem_map_of_mem (List.mem_filter.mpr ⟨List.mem_map_of_mem pieceMem, ?_⟩)
      exact decide_eq_true (List.ne_nil_of_mem kept)
    rw [h] at named
    exact List.not_mem_nil named

theorem filterNames_append (s t : List Char) :
    filterNames (s ++ '|' :: t) = filterNames s ++ filterNames t := by
  simp [filterNames, List.splitOn_append_cons_self]

/-- What holds a walk up is a `|` outside. -/
theorem walk_eq_none {place : Place} {s : List Char} (h : place.walk s = none) :
    ∃ body suffix middle, s = body ++ '|' :: suffix ∧ place.walk body = some middle ∧
      middle.isOutside := by
  induction s generalizing place with
  | nil => contradiction
  | cons c s ih =>
    rw [Place.walk] at h
    split at h
    · next held =>
      obtain ⟨rfl, outside⟩ := held
      exact ⟨[], s, place, rfl, rfl, outside⟩
    · next free =>
      obtain ⟨body, suffix, middle, rfl, walked, outside⟩ := ih h
      exact ⟨c :: body, suffix, middle, rfl, by rw [Place.walk, if_neg free, walked], outside⟩

/-- An expression that is all of its text does not go on behind a `|`. -/
theorem complete_bar {limits : Limits} {aliases : AliasTable} {s x : List Char} {tree tree' : Node}
    (accepted : ((complete (expression limits limits.maxDepth) s).run [] { aliases }).2 = .ok tree)
    (quote : '"' ∉ x) :
    ((complete (expression limits limits.maxDepth) (s ++ '|' :: x)).run [] { aliases }).2 ≠
      .ok tree' := by
  intro longer
  have whole := run_complete.mp (Prod.ext rfl accepted)
  have ends : EndsExpression ('|' :: x) := fun c hc => Option.some.inj hc ▸ by decide
  have apart : QuotesApart s ('|' :: x) := fun mem => absurd mem (by simp [quote])
  have shorter := expression_readsOn limits limits.maxDepth ('|' :: x) whole (fun _ => ends) apart
  have longer := run_complete.mp (Prod.ext rfl longer)
  simpa using shorter.symm.trans longer

theorem endsOutside_of_readsFiltered {limits : Limits} {aliases : AliasTable}
    {abbreviation : String} {tree : Node}
    (accepted : ((complete (expression limits limits.maxDepth) abbreviation.toList).run []
      { aliases }).2 = .ok tree)
    (filtered : ReadsFiltered limits aliases abbreviation tree) :
    EndsOutside abbreviation.toList := by
  have html : IsFilterName "html" := ⟨by decide, by decide, by decide⟩
  have suffixed := filtered.2 ["html"] (by decide) (by simp [html])
  have chars : (abbreviation ++ "|" ++ "|".intercalate ["html"]).toList =
      abbreviation.toList ++ '|' :: "html".toList := by simp
  cases walked : Place.walk {} abbreviation.toList with
  | none =>
    obtain ⟨body, suffix, middle, split, inside, outside⟩ := walk_eq_none walked
    have split' : splitFilters (abbreviation ++ "|" ++ "|".intercalate ["html"]).toList =
        (body, filterNames suffix ++ ["html"]) := by
      have whole := splitFilters_outside (suffix ++ '|' :: "html".toList) ⟨middle, inside, outside⟩
      rw [filterNames_append] at whole
      rw [chars, split, List.append_assoc]
      exact whole
    rw [read_of_splitFilters split', map_eq_ok] at suffixed
    obtain ⟨shorter, acceptedShorter, same⟩ := suffixed
    have unnamed : filterNames suffix = [] := by
      rw [withFilters, if_neg (by simp)] at same
      simpa using (Node.filtered.inj same).1
    have quote : '"' ∉ suffix := fun mem => by
      rcases filterNames_eq_nil unnamed _ mem with bar | blank
      · exact absurd bar (by decide)
      · exact absurd blank (by decide)
    rw [split] at accepted
    exact absurd accepted (complete_bar acceptedShorter quote)
  | some place =>
    refine ⟨place, walked, ?_⟩
    by_contra hidden
    have inside : place.isOutside = false := Bool.eq_false_iff.mpr hidden
    have suffixWalked : (place.walk ('|' :: "html".toList)).isSome := by
      rw [Place.walk_cons inside]
      exact Place.walk_of_bar_not_mem _ (by decide)
    obtain ⟨last, suffixWalked⟩ := Option.isSome_iff_exists.mp suffixWalked
    have whole : Place.walk {} (abbreviation ++ "|" ++ "|".intercalate ["html"]).toList =
        some last := by
      rw [chars, Place.walk_append, walked]
      exact suffixWalked
    rw [read_of_no_filters (splitFilters_of_walk whole), chars] at suffixed
    exact absurd suffixed (complete_bar accepted (by decide))

/-- An accepted abbreviation is read alike with and without filters exactly if it ends
outside, and it does so if all its attributes are plain. -/
theorem readsFiltered_iff {limits : Limits} {aliases : AliasTable} {abbreviation : String}
    {tree : Node}
    (accepted : ((complete (expression limits limits.maxDepth) abbreviation.toList).run []
      { aliases }).2 = .ok tree) :
    (ReadsFiltered limits aliases abbreviation tree ↔ EndsOutside abbreviation.toList) ∧
    ((∀ entry ∈ writtenAttributes abbreviation.toList, IsPlain entry) →
      ReadsFiltered limits aliases abbreviation tree) := by
  refine ⟨⟨endsOutside_of_readsFiltered accepted, readsFiltered_of_endsOutside accepted⟩, ?_⟩
  intro plain
  have whole := run_complete.mp (Prod.ext rfl accepted)
  have taken : Takes abbreviation.toList [] := (expression_takes _ _ _).run whole
  obtain ⟨tokens, split, walked⟩ := taken.walk plain
  rw [List.append_nil] at split
  exact readsFiltered_of_endsOutside accepted ⟨{}, split ▸ walked, rfl⟩

theorem complete_tagWith {s : List Char} (below : List Char) {name key value : String}
    (start : s.head?.any isNameStart) (named : tagName s = (name.toList, true, '[' :: below))
    (template : Template.ofSelector name.toList = .ofText name)
    (listed : attributes below = .ok ([(key, .ofText value)], []))
    (noFiller : fillerWords? name.toList = none) :
    ((complete (expression {} 64) s).run [] { aliases := [] }).2 =
      .ok (.tag (tagWith name key value)) :=
  congrArg Prod.snd
    (run_complete_tag (run_atom_tagWith below start named template listed noFiller))

theorem readsFiltered_quoted_bar :
    ((complete (expression {} 64) "p[a=\"x|y\"]".toList).run [] { aliases := [] }).2 =
      .ok (.tag (tagWith "p" "a" "x|y")) ∧
    ReadsFiltered {} [] "p[a=\"x|y\"]" (.tag (tagWith "p" "a" "x|y")) := by
  have accepted : ((complete (expression {} 64) "p[a=\"x|y\"]".toList).run []
      { aliases := [] }).2 = .ok (.tag (tagWith "p" "a" "x|y")) :=
    complete_tagWith "a=\"x|y\"]".toList (by decide) (by cbv) (by cbv) (by cbv) (by decide)
  exact ⟨accepted, (readsFiltered_iff accepted).1.mpr ⟨{}, by decide, rfl⟩⟩

/-- An attribute may be named by a brace, but then the suffix is taken for text. -/
theorem brace_hides_suffix :
    ((complete (expression {} 64) "p[\x7b]".toList).run [] { aliases := [] }).2 =
      .ok (.tag (tagWith "p" "\x7b" "")) ∧
    IsFilterName "html" ∧
    (read {} [] ("p[\x7b]" ++ "|" ++ "|".intercalate ["html"])).2 ≠
      .ok (.filtered ["html"] (.tag (tagWith "p" "\x7b" ""))) := by
  have accepted : ((complete (expression {} 64) "p[\x7b]".toList).run []
      { aliases := [] }).2 = .ok (.tag (tagWith "p" "\x7b" "")) :=
    complete_tagWith "\x7b]".toList (by decide) (by cbv) (by cbv) (by cbv) (by decide)
  have walked : Place.walk {} "p[\x7b]|html".toList =
      some { inText := true, inBrackets := false } := by decide
  refine ⟨accepted, ⟨by decide, by decide, by decide⟩, ?_⟩
  have unfiltered : (read {} [] "p[\x7b]|html").2 =
      ((complete (expression {} 64) "p[\x7b]|html".toList).run [] { aliases := [] }).2 :=
    read_of_no_filters (splitFilters_of_walk walked)
  intro filtered
  exact complete_bar accepted (by decide) (unfiltered.symm.trans filtered)

end Shorthand.Abbreviation
