import Shorthand.Proofs.Grammar.Composition
import Shorthand.Proofs.Printing.Template
import Shorthand.Proofs.Grammar.Tokens
import Shorthand.Proofs.Suffix.Plain

/-! Printed tags. A tag is printed with all its parts in the order in which the grammar
reads them: name, `/`, id, classes, one list of quoted attributes, and text. Reading what
is printed gives the tag back, in spite of what the characters of one part mean in
another. -/
namespace Shorthand

variable {x : List Char}

/-- The characters of a selector are allowed in its place, and none would begin a token. -/
structure Template.IsSelector (allowed : Char → Bool) (t : Template) : Prop where
  printable : t.TokensPrintable
  ends : t.TokensEnd
  chars : ∀ c, Piece.char c ∈ t.pieces → allowed c ∧ c ≠ '$'

theorem Template.IsSelector.ofSelector_asSelector {allowed : Char → Bool} {t : Template}
    (selector : t.IsSelector allowed) : ofSelector t.asSelector = t :=
  Template.ofSelector_asSelector selector.printable selector.ends fun c mem =>
    (selector.chars c mem).2

theorem Template.IsSelector.asSelector_ne_nil {allowed : Char → Bool} {t : Template}
    (selector : t.IsSelector allowed) (nonempty : t.pieces ≠ []) : t.asSelector ≠ [] := by
  intro empty
  obtain ⟨piece, pieces, hp⟩ := List.exists_cons_of_ne_nil nonempty
  have written : piece.written (fun c => [c]) = [] :=
    List.flatMap_eq_nil_iff.mp empty piece (hp ▸ List.mem_cons_self)
  cases piece with
  | char c => exact nomatch written
  | number n =>
    obtain ⟨t, spelt, -⟩ := Numbering.read_written
      (selector.printable n (hp ▸ List.mem_cons_self)) stops_nil
    change n.written = [] at written
    rw [written] at spelt
    exact nomatch spelt

/-- What is allowed in a selector besides its own characters. -/
structure AllowsTokens (allowed : Char → Bool) : Prop where
  dollar : allowed '$'
  at_ : allowed '@'
  minus : allowed '-'
  digit : ∀ c, c.isDigit → allowed c

theorem Numbering.forall_mem_written {allowed : Char → Bool} (tokens : AllowsTokens allowed)
    (n : Numbering) : ∀ c ∈ n.written, allowed c := by
  intro c hc
  rcases List.mem_append.mp hc with run | suffix
  · exact List.eq_of_mem_replicate run ▸ tokens.dollar
  · rcases List.mem_cons.mp suffix with rfl | rest
    · exact tokens.at_
    · rcases List.mem_append.mp rest with direction | digits
      · cases h : n.ascending with
        | false =>
          rw [h] at direction
          exact List.mem_singleton.mp direction ▸ tokens.minus
        | true =>
          rw [h] at direction
          exact absurd direction List.not_mem_nil
      · exact tokens.digit c (isDigit_of_mem_toDigits digits)

theorem Template.IsSelector.forall_mem {allowed : Char → Bool} {t : Template}
    (selector : t.IsSelector allowed) (tokens : AllowsTokens allowed) :
    ∀ c ∈ t.asSelector, allowed c := by
  intro c hc
  obtain ⟨piece, mem, hc⟩ := List.mem_flatMap.mp hc
  cases piece with
  | char d =>
    obtain rfl : c = d := List.mem_singleton.mp hc
    exact (selector.chars c mem).1
  | number n => exact Numbering.forall_mem_written tokens n c hc

namespace Abbreviation

theorem allowsTokens_isNameChar : AllowsTokens isNameChar where
  dollar := by decide
  at_ := by decide
  minus := by decide
  digit c h := by simp [isNameChar, Char.isAlphanum, h]

theorem allowsTokens_isIdentifierChar : AllowsTokens isIdentifierChar where
  dollar := by decide
  at_ := by decide
  minus := by decide
  digit c h := by simp [isIdentifierChar, Char.isAlphanum, h]

theorem allowsTokens_isUnquoted : AllowsTokens (· ≠ '"') where
  dollar := by decide
  at_ := by decide
  minus := by decide
  digit c h := decide_eq_true fun quote => absurd (quote ▸ h) (by decide)

theorem identifier_asSelector (missing : Expected) {t : Template}
    (selector : t.IsSelector isIdentifierChar) (nonempty : t.pieces ≠ [])
    (stop : Stops isIdentifierChar x) :
    identifier missing (t.asSelector ++ x) = .ok (t, x) := by
  have chars := selector.forall_mem allowsTokens_isIdentifierChar
  rw [identifier_run (selector.asSelector_ne_nil nonempty) chars stop,
    selector.ofSelector_asSelector]

/-- An attribute with its value in quotes. -/
def writtenAttribute (property : String × Template) : List Char :=
  property.1.toList ++ '=' :: '"' :: (property.2.asSelector ++ ['"'])

/-- An attribute list with its closing bracket. -/
def writtenList (properties : List (String × Template)) : List Char :=
  [' '].intercalate (properties.map writtenAttribute) ++ [']']

/-- The name has only characters of a name, no brace among them; the value only such as
stand between quotes. -/
structure IsAttribute (property : String × Template) : Prop where
  nonempty : property.1 ≠ ""
  key : ∀ c ∈ property.1.toList, isKeyChar c ∧ c ≠ '{'
  value : property.2.IsSelector (· ≠ '"')

/-- An attribute as it comes out of the list. -/
def listed (property : String × Template) : List Char × Written :=
  (property.1.toList, .quoted property.2.asSelector)

theorem attributeList_congr (before : List (List Char × Written)) {s t : List Char}
    (h : trimStart s = trimStart t) : attributeList before s = attributeList before t := by
  rw [attributeList, attributeList]
  simp only [h]

theorem attributeList_writtenAttribute (before : List (List Char × Written))
    {property : String × Template} (valid : IsAttribute property) :
    attributeList before (writtenAttribute property ++ x) =
      attributeList (listed property :: before) x := by
  have spelt : writtenAttribute property ++ x =
      property.1.toList ++ '=' :: '"' :: (property.2.asSelector ++ '"' :: x) := by
    simp [writtenAttribute]
  have named : property.1.toList ≠ [] := fun h => valid.nonempty (String.toList_inj.mp h)
  have all : ∀ c ∈ property.1.toList, isKeyChar c := fun c hc => (valid.key c hc).1
  have closed : '"' ∉ property.2.asSelector := fun mem =>
    of_decide_eq_true (valid.value.forall_mem allowsTokens_isUnquoted _ mem) rfl
  rw [spelt, attributeList_quoted before named all closed]
  rfl

theorem attributeList_writtenList (before : List (List Char × Written))
    {properties : List (String × Template)}
    (valid : ∀ property ∈ properties, IsAttribute property) :
    attributeList before (writtenList properties ++ x) =
      .ok (before.reverse ++ properties.map listed, x) := by
  induction properties generalizing before with
  | nil =>
    have close : attributeList before (']' :: x) = .ok (before.reverse, x) :=
      attributeList_close before rfl
    simpa [writtenList] using close
  | cons property properties ih =>
    have later := ih (listed property :: before) fun q mem =>
      valid q (List.mem_cons_of_mem _ mem)
    cases properties with
    | nil =>
      have spelt : writtenList [property] ++ x = writtenAttribute property ++ ']' :: x := by
        simp [writtenList]
      rw [spelt, attributeList_writtenAttribute before (valid property List.mem_cons_self),
        attributeList_close _ rfl]
      simp
    | cons next properties =>
      have spelt : writtenList (property :: next :: properties) ++ x =
          writtenAttribute property ++ ' ' :: (writtenList (next :: properties) ++ x) := by
        simp [writtenList, List.intercalate_cons_cons]
      have blank : trimStart (' ' :: (writtenList (next :: properties) ++ x)) =
          trimStart (writtenList (next :: properties) ++ x) := rfl
      rw [spelt, attributeList_writtenAttribute before (valid property List.mem_cons_self),
        attributeList_congr _ blank, later]
      simp

theorem attributeOf_listed {property : String × Template} (valid : IsAttribute property) :
    attributeOf (listed property) = property := by
  refine Prod.ext ?_ valid.value.ofSelector_asSelector
  exact String.ofList_toList

theorem attributes_writtenList {properties : List (String × Template)}
    (valid : ∀ property ∈ properties, IsAttribute property) :
    attributes (writtenList properties ++ x) = .ok (properties, x) := by
  have same : properties.map (attributeOf ∘ listed) = properties.map id :=
    List.map_congr_left fun property mem => attributeOf_listed (valid property mem)
  refine attributes_eq_ok.mpr ⟨_, attributeList_writtenList [] valid, ?_⟩
  rw [List.reverse_nil, List.nil_append, List.map_map, same, List.map_id]

end Abbreviation

/-- Id, classes and attributes of a tag. -/
def Tag.writtenQualifiers (tag : Tag) : List Char :=
  (tag.id.elim [] fun id => '#' :: id.asSelector) ++
    (tag.classes.flatMap (fun name => '.' :: name.asSelector) ++
      if tag.properties = [] then [] else '[' :: Abbreviation.writtenList tag.properties)

def Tag.writtenText (tag : Tag) : List Char :=
  tag.text.elim [] fun text => '{' :: (text.asText ++ ['}'])

/-- The tag as an abbreviation. -/
def Tag.written (tag : Tag) : List Char :=
  tag.name.asSelector ++
    ((if tag.hasBody then [] else ['/']) ++ (tag.writtenQualifiers ++ tag.writtenText))

namespace Abbreviation

theorem qualifiers_writtenClasses (before : List Qualifier) {classes : List Template}
    (valid : ∀ name ∈ classes, name.pieces ≠ [] ∧ name.IsSelector isIdentifierChar)
    (stop : Stops isIdentifierChar x) :
    qualifiers before (classes.flatMap (fun name => '.' :: name.asSelector) ++ x) =
      qualifiers ((classes.map Qualifier.className).reverse ++ before) x := by
  induction classes generalizing before with
  | nil => rfl
  | cons name classes ih =>
    have later := ih (.className name :: before) fun n mem => valid n (List.mem_cons_of_mem _ mem)
    obtain ⟨nonempty, selector⟩ := valid name List.mem_cons_self
    have next : Stops isIdentifierChar (classes.flatMap (fun name => '.' :: name.asSelector) ++ x) := by
      cases classes with
      | nil => exact stop
      | cons name classes => exact stops_cons.mpr (by decide)
    rw [List.flatMap_cons, List.append_assoc, List.cons_append,
      qualifiers_className before (identifier_asSelector _ selector nonempty next), later]
    simp

/-- What the qualifiers of a tag are read as. -/
def qualifiersOf (tag : Tag) : List Qualifier :=
  (tag.id.elim [] fun id => [.id id]) ++
    (tag.classes.map Qualifier.className ++
      if tag.properties = [] then [] else [.attributes tag.properties])

theorem tagOf_qualifiersOf (tag : Tag) :
    tagOf tag.name tag.hasBody (qualifiersOf tag) tag.text = tag := by
  obtain ⟨name, hasBody, id, classes, properties, text⟩ := tag
  have noId : (classes.map Qualifier.className).filterMap Qualifier.id? = [] := by
    simp [Qualifier.id?]
  have allClasses : (classes.map Qualifier.className).filterMap Qualifier.className? = classes := by
    simp [List.filterMap_map, Qualifier.className?, Function.comp_def]
  have noEntries : (classes.map Qualifier.className).flatMap Qualifier.entries = [] := by
    simp [Qualifier.entries]
  cases id <;> cases properties <;>
    simp [tagOf, qualifiersOf, List.filterMap_cons, noId, allClasses, noEntries, Qualifier.id?,
      Qualifier.className?, Qualifier.entries]

/-- The parts of a tag that can be printed where these aliases apply. -/
structure IsPrintable (aliases : AliasTable) (tag : Tag) : Prop where
  name : tag.name.IsSelector isNameChar
  start : (tag.name.pieces.head?.bind Piece.char?).any isNameStart
  noFiller : fillerWords? tag.name.asSelector = none
  noAlias : ∀ name, tag.name.literal? = some name → aliases.get? name = none
  id : ∀ id ∈ tag.id, id.pieces ≠ [] ∧ id.IsSelector isIdentifierChar
  classes : ∀ name ∈ tag.classes, name.pieces ≠ [] ∧ name.IsSelector isIdentifierChar
  properties : ∀ property ∈ tag.properties, IsAttribute property
  text : ∀ text ∈ tag.text, text.TokensPrintable

variable {aliases : AliasTable} {tag : Tag}

theorem stops_writtenText {p : Char → Bool} (h : p '{' = false) (tag : Tag) :
    Stops p tag.writtenText := by
  unfold Tag.writtenText
  cases tag.text with
  | none => exact stops_nil
  | some text => exact stops_cons.mpr h

theorem qualifiers_writtenAttributes (before : List Qualifier) (printable : IsPrintable aliases tag) :
    qualifiers before
        ((if tag.properties = [] then [] else '[' :: writtenList tag.properties) ++
          tag.writtenText) =
      .ok (before.reverse ++ (if tag.properties = [] then [] else [.attributes tag.properties]),
        tag.writtenText) := by
  have last (before : List Qualifier) :
      qualifiers before tag.writtenText = .ok (before.reverse, tag.writtenText) := by
    apply qualifiers_end before
    intro c hc
    have brace : Stops (fun c => c == '#' || c == '.' || c == '[') tag.writtenText :=
      stops_writtenText (by decide) tag
    simpa [and_assoc] using brace c hc
  by_cases none : tag.properties = []
  · simpa [none] using last before
  · rw [if_neg none, if_neg none, List.cons_append,
      qualifiers_attributes before (attributes_writtenList printable.properties), last]
    simp

theorem qualifiers_written (printable : IsPrintable aliases tag) :
    qualifiers [] (tag.writtenQualifiers ++ tag.writtenText) =
      .ok (qualifiersOf tag, tag.writtenText) := by
  have listStop : Stops isIdentifierChar
      ((if tag.properties = [] then [] else '[' :: writtenList tag.properties) ++
        tag.writtenText) := by
    split
    · exact stops_writtenText (by decide) tag
    · exact stops_cons.mpr (by decide)
  have fromClasses (before : List Qualifier) :
      qualifiers before (tag.classes.flatMap (fun name => '.' :: name.asSelector) ++
        ((if tag.properties = [] then [] else '[' :: writtenList tag.properties) ++
          tag.writtenText)) =
      .ok (before.reverse ++ (tag.classes.map Qualifier.className ++
        if tag.properties = [] then [] else [.attributes tag.properties]), tag.writtenText) := by
    rw [qualifiers_writtenClasses before printable.classes listStop,
      qualifiers_writtenAttributes _ printable]
    simp
  unfold Tag.writtenQualifiers qualifiersOf
  cases hid : tag.id with
  | none =>
    have whole := fromClasses []
    simpa using whole
  | some id =>
    obtain ⟨nonempty, selector⟩ := printable.id id hid
    have next : Stops isIdentifierChar (tag.classes.flatMap (fun name => '.' :: name.asSelector) ++
        ((if tag.properties = [] then [] else '[' :: writtenList tag.properties) ++
          tag.writtenText)) := by
      cases tag.classes with
      | nil => exact listStop
      | cons name classes => exact stops_cons.mpr (by decide)
    have named := identifier_asSelector .idName selector nonempty next
    have whole := (qualifiers_id [] named).trans (fromClasses [.id id])
    simpa using whole

theorem optionalText_written (printable : IsPrintable aliases tag) :
    optionalText tag.writtenText = .ok (tag.text, []) := by
  unfold Tag.writtenText
  cases htext : tag.text with
  | none => rfl
  | some text =>
    have braced := Template.braced?_asText (printable.text text htext) [] []
    exact map_eq_ok.mpr ⟨(text, []), bracedText_eq_ok.mpr braced, rfl⟩

theorem stops_writtenBody {p : Char → Bool}
    (h : ['#', '.', '[', '{'].all fun c => p c = false) (tag : Tag) :
    Stops p (tag.writtenQualifiers ++ tag.writtenText) := by
  have h := forall_mem_of_all h
  unfold Tag.writtenQualifiers
  cases tag.id with
  | some id => exact stops_cons.mpr (h '#' (by decide))
  | none =>
    cases tag.classes with
    | cons name classes => exact stops_cons.mpr (h '.' (by decide))
    | nil =>
      by_cases none : tag.properties = []
      · simpa [none] using stops_writtenText (h '{' (by decide)) tag
      · simpa [none] using h '[' (by decide)

theorem head?_asSelector {t : Template} {p : Char → Bool}
    (start : (t.pieces.head?.bind Piece.char?).any p) (x : List Char) :
    (t.asSelector ++ x).head?.any p := by
  obtain ⟨pieces⟩ := t
  cases pieces with
  | nil => exact nomatch start
  | cons piece pieces =>
    cases piece with
    | char c => exact start
    | number n => exact nomatch start

theorem tagName_written (printable : IsPrintable aliases tag) :
    tagName tag.written =
      (tag.name.asSelector, tag.hasBody, tag.writtenQualifiers ++ tag.writtenText) := by
  have chars := printable.name.forall_mem allowsTokens_isNameChar
  unfold Tag.written
  cases tag.hasBody with
  | false =>
    have slash : Stops isNameChar ('/' :: (tag.writtenQualifiers ++ tag.writtenText)) :=
      stops_cons.mpr (by decide)
    have named := tagName_slash (dropWhile_run chars slash)
    rw [takeWhile_run chars slash] at named
    exact named
  | true =>
    have slash := stops_writtenBody (p := (· == '/')) (by decide) tag
    have name := stops_writtenBody (p := isNameChar) (by decide) tag
    have plain : (tag.writtenQualifiers ++ tag.writtenText).head? ≠ some '/' := fun h =>
      absurd (slash '/' h) (by decide)
    have named := tagName_plain (s := tag.name.asSelector ++ (tag.writtenQualifiers ++ tag.writtenText))
      (by rwa [dropWhile_run chars name])
    rw [takeWhile_run chars name, dropWhile_run chars name] at named
    exact named

theorem run_atom_written (printable : IsPrintable aliases tag) (expression : Reader) :
    (atom expression tag.written).run [] { aliases } = ({ aliases }, .ok (.tag tag, [])) := by
  have body : tagBody tag.name tag.hasBody (tag.writtenQualifiers ++ tag.writtenText) =
      .ok (tag, []) :=
    tagBody_eq_ok.mpr ⟨_, _, tag.text, qualifiers_written printable,
      optionalText_written printable, (tagOf_qualifiersOf tag).symm⟩
  refine run_atom_tag ?_ (tagName_written printable) ?_ printable.noFiller printable.noAlias
  · exact head?_asSelector printable.start _
  · rw [printable.name.ofSelector_asSelector]
    exact body

theorem writtenAttributes_run {run : List Char} (h : ∀ c ∈ run, c ≠ '{' ∧ c ≠ '[')
    (x : List Char) : writtenAttributes (run ++ x) = writtenAttributes x := by
  induction run with
  | nil => rfl
  | cons c run ih =>
    obtain ⟨text, list⟩ := h c List.mem_cons_self
    rw [List.cons_append, writtenAttributes_sign _ text list]
    exact ih fun d hd => h d (List.mem_cons_of_mem c hd)

theorem ne_brackets {p : Char → Bool} (text : p '{' = false) (list : p '[' = false) {c : Char}
    (hc : p c) : c ≠ '{' ∧ c ≠ '[' := by
  constructor <;> rintro rfl
  · exact Bool.false_ne_true (text.symm.trans hc)
  · exact Bool.false_ne_true (list.symm.trans hc)

theorem ne_brackets_identifier {t : Template} (selector : t.IsSelector isIdentifierChar) :
    ∀ c ∈ t.asSelector, c ≠ '{' ∧ c ≠ '[' := fun c hc =>
  ne_brackets (by decide) (by decide) (selector.forall_mem allowsTokens_isIdentifierChar c hc)

theorem writtenAttributes_writtenText (printable : IsPrintable aliases tag) :
    writtenAttributes tag.writtenText = [] := by
  unfold Tag.writtenText
  cases htext : tag.text with
  | none => exact writtenAttributes.eq_1
  | some text =>
    have braced := Template.braced?_asText (printable.text text htext) [] []
    exact (writtenAttributes_text braced).trans writtenAttributes.eq_1

theorem writtenAttributes_written (printable : IsPrintable aliases tag) :
    writtenAttributes tag.written = tag.properties.map listed := by
  have nameChars : ∀ c ∈ tag.name.asSelector, c ≠ '{' ∧ c ≠ '[' := fun c hc =>
    ne_brackets (by decide) (by decide) (printable.name.forall_mem allowsTokens_isNameChar c hc)
  have slashChars : ∀ c ∈ (if tag.hasBody then [] else ['/']), c ≠ '{' ∧ c ≠ '[' := by
    cases tag.hasBody with
    | true => nofun
    | false => exact forall_mem_of_all (by decide)
  have idChars : ∀ c ∈ tag.id.elim [] (fun id => '#' :: id.asSelector), c ≠ '{' ∧ c ≠ '[' := by
    cases hid : tag.id with
    | none => exact nofun
    | some id =>
      exact List.forall_mem_cons.mpr ⟨by decide, ne_brackets_identifier (printable.id id hid).2⟩
  have classChars : ∀ c ∈ tag.classes.flatMap (fun name => '.' :: name.asSelector),
      c ≠ '{' ∧ c ≠ '[' := by
    intro c hc
    obtain ⟨name, mem, hc⟩ := List.mem_flatMap.mp hc
    rcases List.mem_cons.mp hc with rfl | hc
    · decide
    · exact ne_brackets_identifier (printable.classes name mem).2 c hc
  have list : writtenAttributes ((if tag.properties = [] then [] else
      '[' :: writtenList tag.properties) ++ tag.writtenText) = tag.properties.map listed := by
    have text := writtenAttributes_writtenText printable
    by_cases none : tag.properties = []
    · simpa [none] using text
    · rw [if_neg none, List.cons_append,
        writtenAttributes_list (attributeList_writtenList [] printable.properties), text]
      simp
  unfold Tag.written Tag.writtenQualifiers
  rw [writtenAttributes_run nameChars, writtenAttributes_run slashChars, List.append_assoc,
    writtenAttributes_run idChars, List.append_assoc, writtenAttributes_run classChars, list]

/-- No place in a printed tag begins a suffix. -/
theorem splitFilters_written (printable : IsPrintable aliases tag) :
    splitFilters tag.written = (tag.written, []) := by
  have taken : Takes tag.written [] :=
    (atom_takes (expression_takes {} 0) tag.written).run (run_atom_written printable _)
  have plain : ∀ entry ∈ writtenAttributes tag.written, IsPlain entry := by
    rw [writtenAttributes_written printable]
    simp only [List.forall_mem_map]
    intro property mem
    refine ⟨?_, nofun⟩
    intro brace
    exact ((printable.properties property mem).key _ brace).2 rfl
  obtain ⟨tokens, split, walked⟩ := taken.walk plain
  rw [List.append_nil] at split
  exact splitFilters_of_walk (split ▸ walked)

/-- Reading what a tag is printed as gives the tag, if anything may be read at all. -/
theorem read_written_tag (limits : Limits) (printable : IsPrintable aliases tag) :
    read limits aliases (String.ofList tag.written) =
      (aliases, if limits.maxDepth = 0 then .error (.exceeded .nesting 0) else .ok (.tag tag)) := by
  unfold read
  rw [String.toList_ofList, splitFilters_written printable]
  dsimp only
  cases hroom : limits.maxDepth with
  | zero => simp [complete, expression, hroom, Inquiry.run_bind, Except.map]
  | succ room =>
    rw [run_complete_tag (run_atom_written printable _)]
    rfl

theorem isSelector_ofText {allowed : Char → Bool} {text : String}
    (h : text.toList.all fun c => allowed c ∧ c ≠ '$') : (Template.ofText text).IsSelector allowed where
  printable := by simp [Template.TokensPrintable, Template.ofText, Template.ofChars]
  ends := by
    refine (List.isChain_map _).mpr ?_
    generalize text.toList = s
    induction s with
    | nil => exact .nil
    | cons c s ih =>
      cases s with
      | nil => exact .singleton c
      | cons d s => exact .cons_cons nofun ih
  chars := by simpa [Template.ofText, Template.ofChars] using forall_mem_of_all h

/-- A tag with something of everything, and with characters that mean something elsewhere. -/
def motley : Tag where
  name := ⟨[.char 'h', .number ⟨2, false, 3⟩, .char 'x']⟩
  hasBody := false
  id := some (.ofText "a-b")
  classes := [.ofText "c", ⟨[.number ⟨1, true, 5⟩]⟩]
  properties := [("k|", .ofText "]|"), ("[", .empty)]
  text := some ⟨[.char '|', .number ⟨1, true, 1⟩, .char '2']⟩

example : String.ofList motley.written =
    "h$$@-3x/#a-b.c.$@5[k|=\"]|\" [=\"\"]\x7b\\|$@1\\2\x7d" := by decide

theorem motley_isPrintable : IsPrintable [] motley where
  name := {
    printable := by simp [Template.TokensPrintable, motley, Numbering.isPrintable_iff, wordMax]
    ends := .cons_cons nofun (.cons_cons (fun _ => by decide +kernel) (.singleton _))
    chars := by simp [motley]; decide }
  start := by decide
  noFiller := by decide
  noAlias := fun _ _ => rfl
  id := by
    simp only [motley, Option.mem_some_iff, forall_eq']
    exact ⟨by decide, isSelector_ofText (by decide)⟩
  classes := by
    have token : Template.IsSelector isIdentifierChar ⟨[.number ⟨1, true, 5⟩]⟩ := {
      printable := by simp [Template.TokensPrintable, Numbering.isPrintable_iff, wordMax]
      ends := .singleton _
      chars := by simp }
    simp only [motley, List.forall_mem_cons]
    exact ⟨⟨by decide, isSelector_ofText (by decide)⟩, ⟨by decide, token⟩, nofun⟩
  properties := by
    have first : Template.IsSelector (· ≠ '"') (.ofText "]|") := isSelector_ofText (by decide)
    have second : Template.IsSelector (· ≠ '"') (.ofText "") := isSelector_ofText (by decide)
    simp only [motley, List.forall_mem_cons]
    exact ⟨⟨by decide, forall_mem_of_all (by decide), first⟩,
      ⟨by decide, forall_mem_of_all (by decide), second⟩, nofun⟩
  text := by simp [Template.TokensPrintable, motley, Numbering.isPrintable_iff, wordMax]

theorem read_written_motley :
    IsPrintable [] motley ∧
      read {} [] (String.ofList motley.written) = ([], .ok (.tag motley)) :=
  ⟨motley_isPrintable, read_written_tag {} motley_isPrintable⟩

end Abbreviation

end Shorthand
