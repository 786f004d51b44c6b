import Shorthand.Proofs.Markup.Chain
import Shorthand.Proofs.Text.Lines

/-! Escaped text. The ampersand is replaced first, so no replacement touches what another one has
put in, and each character is written on its own. Where the entities of an escaped text are read
from left to right, the text comes back, whatever it looked like; so as many readings undo as many
escapes. -/
namespace Shorthand.Markup

/-- The characters with a meaning in markup, and their entities. -/
def entities : List (Char × String) := [('&', "&amp;"), ('<', "&lt;"), ('>', "&gt;")]

/-- What a character is written as in escaped text. -/
def entityOf (c : Char) : List Char := ((entities.lookup c).map String.toList).getD [c]

/-- The character whose entity stands at the front of the text, and what follows the entity. -/
def leadingEntity? (s : List Char) : Option (Char × List Char) :=
  entities.findSome? fun (c, name) => (dropLead? name.toList s).map fun rest => (c, rest)

theorem leadingEntity?_length_lt {s rest : List Char} {c : Char}
    (h : leadingEntity? s = some (c, rest)) : rest.length < s.length := by
  obtain ⟨⟨d, name⟩, member, found⟩ := List.exists_of_findSome?_eq_some h
  obtain ⟨_, read, same⟩ := Option.map_eq_some_iff.mp found
  obtain ⟨rfl, rfl⟩ := Prod.mk.inj same
  have filled : ∀ entry ∈ entities, 0 < entry.2.toList.length := by decide
  have positive : 0 < name.toList.length := filled _ member
  rw [dropLead?_eq_some read, List.length_append]
  omega

/-- Reads entities from left to right; what is none stays. -/
def decode : List Char → List Char
  | [] => []
  | c :: s =>
    match _hs : leadingEntity? (c :: s) with
    | some (d, rest) => d :: decode rest
    | none => c :: decode s
termination_by s => s.length
decreasing_by
  · exact leadingEntity?_length_lt _hs
  · exact Nat.lt_succ_self _

theorem decode_entity {s rest : List Char} {c : Char} (h : leadingEntity? s = some (c, rest)) :
    decode s = c :: decode rest := by
  cases s with
  | nil => exact absurd (leadingEntity?_length_lt h) (Nat.not_lt_zero _)
  | cons d s =>
    rw [decode]
    split
    · next found =>
      obtain ⟨rfl, rfl⟩ := Prod.mk.inj (Option.some.inj (found.symm.trans h))
      rfl
    · next none => rw [none] at h; contradiction

theorem decode_plain {s : List Char} {c : Char} (h : leadingEntity? (c :: s) = none) :
    decode (c :: s) = c :: decode s := by
  rw [decode]
  split
  · next found => rw [found] at h; contradiction
  · rfl

/-- The text with its entities read. -/
def unescape (text : String) : String := String.ofList (decode text.toList)

section Characters

variable {c : Char} {s : List Char} {entry : Char × String}

theorem entityOf_cases (c : Char) :
    (∃ name, (c, name) ∈ entities ∧ entityOf c = name.toList) ∨
      (c ≠ '&' ∧ c ≠ '<' ∧ c ≠ '>') ∧ entityOf c = [c] := by
  by_cases special : c = '&' ∨ c = '<' ∨ c = '>'
  · left
    obtain rfl | rfl | rfl := special
    · exact ⟨"&amp;", by decide⟩
    · exact ⟨"&lt;", by decide⟩
    · exact ⟨"&gt;", by decide⟩
  · right
    simp only [not_or] at special
    obtain ⟨ampersand, less, greater⟩ := special
    refine ⟨⟨ampersand, less, greater⟩, ?_⟩
    simp [entityOf, entities, List.lookup, beq_eq_false_iff_ne.mpr, ampersand, less, greater]

/-- Three replacements, one after the other, make one of each character. -/
theorem toList_escape (text : String) : (escape text).toList = text.toList.flatMap entityOf := by
  simp only [escape, replaceChar, String.toList_ofList, List.flatMap_assoc]
  refine List.flatMap_congr fun c _ => ?_
  obtain ⟨name, member, spelt⟩ | ⟨⟨ampersand, less, greater⟩, spelt⟩ := entityOf_cases c
  · rw [spelt]
    have replaced : ∀ entry ∈ entities,
        ((if entry.1 = '&' then "&amp;".toList else [entry.1]).flatMap fun d =>
          (if d = '<' then "&lt;".toList else [d]).flatMap fun e =>
            if e = '>' then "&gt;".toList else [e]) = entry.2.toList := by decide
    exact replaced _ member
  · simp [spelt, ampersand, less, greater]

theorem leadingEntity?_entity (member : entry ∈ entities) (s : List Char) :
    leadingEntity? (entry.2.toList ++ s) = some (entry.1, s) := by
  simp only [entities, List.mem_cons, List.not_mem_nil, or_false] at member
  obtain rfl | rfl | rfl := member <;> simp [leadingEntity?, entities, dropLead?]

theorem leadingEntity?_plain (plain : c ≠ '&') (s : List Char) :
    leadingEntity? (c :: s) = none := by
  simp [leadingEntity?, entities, dropLead?, Ne.symm plain]

theorem decode_entityOf (c : Char) (s : List Char) : decode (entityOf c ++ s) = c :: decode s := by
  obtain ⟨name, member, spelt⟩ | ⟨⟨plain, -⟩, spelt⟩ := entityOf_cases c
  · rw [spelt, decode_entity (leadingEntity?_entity member s)]
  · rw [spelt, List.singleton_append, decode_plain (leadingEntity?_plain plain s)]

theorem decode_flatMap_entityOf (s : List Char) : decode (s.flatMap entityOf) = s := by
  induction s with
  | nil => rw [List.flatMap_nil, decode]
  | cons c s ih => rw [List.flatMap_cons, decode_entityOf, ih]

/-- No character is written with a bracket. -/
theorem bracket_not_mem_entityOf (c : Char) : '<' ∉ entityOf c ∧ '>' ∉ entityOf c := by
  obtain ⟨name, member, spelt⟩ | ⟨⟨-, less, greater⟩, spelt⟩ := entityOf_cases c
  · have clean : ∀ entry ∈ entities, '<' ∉ entry.2.toList ∧ '>' ∉ entry.2.toList := by decide
    exact spelt ▸ clean _ member
  · simp [spelt, Ne.symm less, Ne.symm greater]

/-- An ampersand that a character is written with begins the entity. -/
theorem entity_of_ampersand {before behind : List Char}
    (spelt : entityOf c = before ++ '&' :: behind) :
    before = [] ∧ ∃ entry ∈ entities, entry.2.toList = '&' :: behind := by
  obtain ⟨name, member, whole⟩ | ⟨⟨ampersand, -, -⟩, alone⟩ := entityOf_cases c
  · have first : ∀ entry ∈ entities, '&' ∉ entry.2.toList.tail := by decide
    rw [whole] at spelt
    have behindFirst : '&' ∉ name.toList.tail := first _ member
    cases before with
    | nil => exact ⟨rfl, _, member, spelt⟩
    | cons d before =>
      rw [spelt] at behindFirst
      exact absurd List.mem_append_cons_self behindFirst
  · have inside : '&' ∈ [c] := alone ▸ spelt ▸ List.mem_append_cons_self
    exact absurd (List.mem_singleton.mp inside).symm ampersand

/-- Every ampersand in escaped text begins an entity. -/
theorem exists_entity_of_ampersand {text : List Char}
    (begins : '&' :: s <:+ text.flatMap entityOf) :
    ∃ entry ∈ entities, entry.2.toList <+: '&' :: s := by
  induction text with
  | nil => exact absurd (List.suffix_nil.mp begins) (List.cons_ne_nil _ _)
  | cons c text ih =>
    obtain ⟨before, same⟩ := begins
    rw [List.flatMap_cons, List.append_eq_append_iff] at same
    obtain ⟨middle, spelt, whole⟩ | ⟨middle, -, later⟩ := same
    · cases middle with
      | nil => exact ih (whole ▸ List.suffix_rfl)
      | cons d middle =>
        obtain ⟨rfl, -⟩ := List.cons.inj whole
        obtain ⟨-, entry, member, entity⟩ := entity_of_ampersand spelt
        exact ⟨entry, member, entity ▸ whole ▸ List.prefix_append _ _⟩
    · exact ih ⟨middle, later.symm⟩

end Characters

section Undoing

variable {options : RenderOptions} {expander : Expander} {tree : Node}

theorem escape_append (first last : String) :
    escape (first ++ last) = escape first ++ escape last := by
  simp only [escape, replaceChar_append]

theorem unescape_escape : Function.LeftInverse unescape escape := by
  intro text
  rw [unescape, toList_escape, decode_flatMap_entityOf, String.ofList_toList]

/-- What is escaped so often is the text again when it is read as often. -/
theorem map_unescape (count : Nat) (result : Except Failure String) :
    (result.map escape^[count]).map unescape^[count] = result := by
  cases result with
  | error failure => rfl
  | ok text => exact congrArg Except.ok (unescape_escape.iterate count text)

theorem refine_escapes (count : Nat) (text : String) :
    refine (List.replicate count .escape) text = .ok (escape^[count] text) := by
  have escapes : (List.replicate count Filter.escape).findSome? Filter.dialect? = none :=
    List.findSome?_eq_none_iff.mpr fun filter member => List.eq_of_mem_replicate member ▸ rfl
  rw [refine_eq, escapes, List.length_replicate]

theorem refine_append_escapes (filters : List Filter) (count : Nat) (text : String) :
    refine (filters ++ List.replicate count .escape) text =
      (refine filters text).map escape^[count] := by
  induction filters generalizing text with
  | nil => exact refine_escapes count text
  | cons filter rest ih =>
    cases filter with
    | render dialect => rfl
    | escape => exact ih (escape text)

/-- Escapes at the end of a chain escape what the chain gives. -/
theorem run_append_escapes (first : Filter) (rest : List Filter) (count : Nat) :
    (run (first :: rest ++ List.replicate count .escape) tree options expander).1 =
      (run (first :: rest) tree options expander).1.map escape^[count] := by
  cases first with
  | render dialect => exact refine_append_escapes rest count _
  | escape =>
    have each (text : String) := refine_append_escapes rest count (escape text)
    simp only [List.cons_append, run, each]
    cases (runRenderer (defaultChain expander.tables options) tree options expander).1 <;> rfl

/-- Escapes alone escape what the default chain gives. -/
theorem run_escapes (count : Nat) :
    (run (List.replicate (count + 1) .escape) tree options expander).1 =
      (runRenderer (defaultChain expander.tables options) tree options expander).1.map
        escape^[count + 1] := by
  have each (text : String) := refine_escapes count (escape text)
  simp only [List.replicate_succ, run, each]
  cases (runRenderer (defaultChain expander.tables options) tree options expander).1 <;> rfl

end Undoing

/-- Escaping writes each character on its own, leaves no bracket, and no ampersand but in front of
an entity. Reading the entities as often as a text was escaped gives the text; so a chain with
escapes at its end, or of nothing but escapes, is read back to what they were given. -/
theorem escape_spells (text : String) :
    (escape text).toList = text.toList.flatMap entityOf ∧
    (∀ more, escape (text ++ more) = escape text ++ escape more) ∧
    ('<' ∉ (escape text).toList ∧ '>' ∉ (escape text).toList) ∧
    (∀ behind, '&' :: behind <:+ (escape text).toList →
      ∃ entry ∈ entities, entry.2.toList <+: '&' :: behind) ∧
    (∀ count, unescape^[count] (escape^[count] text) = text) ∧
    ∀ count tree options expander,
      (∀ first rest,
        (run (first :: rest ++ List.replicate count .escape) tree options expander).1.map
            unescape^[count] =
          (run (first :: rest) tree options expander).1) ∧
      (run (List.replicate (count + 1) .escape) tree options expander).1.map
          unescape^[count + 1] =
        (runRenderer (defaultChain expander.tables options) tree options expander).1 := by
  have spelt := toList_escape text
  refine ⟨spelt, escape_append text, ⟨?_, ?_⟩, fun behind begins => ?_,
    fun count => unescape_escape.iterate count text,
    fun count tree options expander => ⟨fun first rest => ?_, ?_⟩⟩
  · rw [spelt, List.mem_flatMap]
    exact fun ⟨c, _, member⟩ => (bracket_not_mem_entityOf c).1 member
  · rw [spelt, List.mem_flatMap]
    exact fun ⟨c, _, member⟩ => (bracket_not_mem_entityOf c).2 member
  · exact exists_entity_of_ampersand (spelt ▸ begins)
  · rw [run_append_escapes, map_unescape]
  · rw [run_escapes, map_unescape]

/-- A text that looks escaped already. -/
theorem escape_spells_entity :
    escape "&lt;" = "&amp;lt;" ∧ unescape^[2] (escape^[2] "&lt;") = "&lt;" ∧
      '&' :: "amp;lt;".toList <:+ (escape "&lt;").toList ∧
      ∃ entry ∈ entities, entry.2.toList <+: "&amp;lt;".toList := by
  have whole : escape "&lt;" = "&amp;lt;" := by decide
  obtain ⟨-, -, -, begins, undone, -⟩ := escape_spells "&lt;"
  have suffix : '&' :: "amp;lt;".toList <:+ (escape "&lt;").toList := by
    rw [whole]
    exact List.suffix_rfl
  exact ⟨whole, undone 2, suffix, begins _ suffix⟩

end Shorthand.Markup
