import Shorthand.Markup.Chain
import Shorthand.Proofs.Session.Coherence

/-! Default chains. The check of the tables looks at the first filter of a chain and at the
names of all of them. A chain that passes ends in text unless a second renderer stands in it,
and then it fails whatever tree it is run on. -/
namespace Shorthand

theorem filterChain_cons (name : String) (rest : List String) :
    filterChain (name :: rest) =
      match Filter.named? name with
      | some filter => (filterChain rest).map (filter :: ·)
      | none => .error (.unknownFilter name) := by
  rw [filterChain, List.mapM_cons]
  cases Filter.named? name with
  | none => rfl
  | some filter =>
    change (filterChain rest).bind (fun filters => .ok (filter :: filters)) =
      (filterChain rest).map (filter :: ·)
    cases filterChain rest <;> rfl

theorem filterChain_eq_ok {names : List String} {filters : List Filter} :
    filterChain names = .ok filters ↔ names.map Filter.named? = filters.map some := by
  induction names generalizing filters with
  | nil =>
    rw [List.map_nil, eq_comm (a := []), List.map_eq_nil_iff]
    exact ⟨fun same => (Except.ok.inj same).symm, fun same => same ▸ rfl⟩
  | cons name rest ih =>
    rw [filterChain_cons]
    cases named : Filter.named? name with
    | none => cases filters <;> simp [named]
    | some filter =>
      cases filters with
      | nil => cases filterChain rest <;> simp [Except.map]
      | cons first filters =>
        rw [List.map_cons, List.map_cons, List.cons_eq_cons, ← ih, named]
        cases filterChain rest <;> simp [Except.map]

theorem exists_filterChain_eq_ok {names : List String} :
    (∃ filters, filterChain names = .ok filters) ↔
      names.find? (fun name => (Filter.named? name).isNone) = none := by
  simp only [filterChain_eq_ok, List.find?_eq_none]
  refine ⟨fun ⟨filters, same⟩ name member => ?_, fun named => ?_⟩
  · have found : Filter.named? name ∈ filters.map some := same ▸ List.mem_map_of_mem member
    obtain ⟨filter, -, named⟩ := List.mem_map.mp found
    simp [← named]
  · refine ⟨names.filterMap Filter.named?, ?_⟩
    rw [List.map_filterMap_some_eq_filter_map_isSome, eq_comm, List.filter_eq_self]
    exact List.forall_mem_map.mpr fun name member => by
      simpa [Option.isSome_iff_ne_none] using named name member

namespace Tables

variable {tables : Tables}

/-- A chain passes the check if it can be read and starts with a renderer. -/
theorem checkChain_eq_ok {extension : String} {names : List String} :
    checkChain extension names = .ok () ↔
      ∃ dialect rest, filterChain names = .ok (.render dialect :: rest) := by
  cases names with
  | nil => simp [checkChain, filterChain_eq_ok]
  | cons first others =>
    rw [checkChain]
    cases named : Filter.named? first with
    | none => simp [filterChain_eq_ok, named]
    | some filter =>
      cases filter with
      | escape => simp [filterChain_eq_ok, named, Filter.dialect?]
      | render dialect =>
        have readable : (∃ rest, filterChain others = .ok rest) ↔
            ∃ found rest, filterChain (first :: others) = .ok (.render found :: rest) := by
          simp [filterChain_eq_ok, named]
        rw [← readable, exists_filterChain_eq_ok, if_neg (by simp [Filter.dialect?]),
          List.find?_cons_of_neg (by simp [named])]
        split <;> simp [*]

/-- The chains of tables that pass the check pass it as well. -/
theorem checkChain_of_check (checked : tables.check = .ok ()) :
    ∀ entry ∈ tables.defaultFilters, checkChain entry.1 entry.2 = .ok () := by
  simp only [check, seq_eq_ok] at checked
  obtain ⟨-, -, -, -, -, chains⟩ := checked
  generalize tables.defaultFilters = entries at chains
  induction entries with
  | nil => exact List.forall_mem_nil _
  | cons entry rest ih =>
    obtain ⟨first, others⟩ := seq_eq_ok.mp chains
    exact List.forall_mem_cons.mpr ⟨first, ih others⟩

end Tables

/-- An expander can be built over the tables, or they can take the place of others. -/
def Expander.Accepts (tables : Tables) : Prop :=
  (∃ source limits built, Expander.build (some tables) source limits = .ok built) ∨
    ∃ expander replaced, Expander.replaceTables expander tables = .ok replaced

theorem Expander.Accepts.check {tables : Tables} (accepted : Accepts tables) :
    tables.check = .ok () := by
  obtain ⟨_, _, _, built⟩ | ⟨_, _, replaced⟩ := accepted
  · exact (build_eq_ok.mp built).1
  · exact (replaceTables_eq_ok.mp replaced).1

theorem Expander.Consistent.accepts {expander : Expander} (consistent : expander.Consistent) :
    Accepts expander.tables :=
  .inl ⟨expander.source, {}, _, consistent.build_again expander.source {}⟩

namespace Markup

variable {tables : Tables} {options : RenderOptions}

/-- Text is escaped as often as the chain says, but it cannot be rendered. -/
theorem refine_eq (filters : List Filter) (text : String) :
    refine filters text =
      match filters.findSome? Filter.dialect? with
      | some dialect => .error (.filterOrder dialect.filterName)
      | none => .ok (escape^[filters.length] text) := by
  induction filters generalizing text with
  | nil => rfl
  | cons filter rest ih =>
    cases filter with
    | render dialect => rfl
    | escape => exact ih (escape text)

/-- The first renderer behind the head of the chain for the document extension. -/
def lateRenderer? (tables : Tables) (options : RenderOptions) : Option Dialect :=
  ((options.extension.bind tables.defaultFilters.get?).getD []).tail.findSome? fun name =>
    (Filter.named? name).bind Filter.dialect?

theorem defaultChain_eq (checked : tables.check = .ok ()) (options : RenderOptions) :
    ∃ dialect rest, defaultChain tables options = .render dialect :: rest ∧
      rest.findSome? Filter.dialect? = lateRenderer? tables options := by
  unfold defaultChain lateRenderer?
  cases mapped : options.extension.bind tables.defaultFilters.get? with
  | none => exact ⟨options.dialect, [], rfl, rfl⟩
  | some names =>
    obtain ⟨extension, -, held⟩ := Option.bind_eq_some_iff.mp mapped
    obtain ⟨dialect, rest, read⟩ := Tables.checkChain_eq_ok.mp
      (Tables.checkChain_of_check checked _ (Table.mem_of_get? held))
    refine ⟨dialect, rest, by rw [Option.map_some, read], ?_⟩
    have others : names.tail.map Filter.named? = rest.map some := by
      rw [List.map_tail, filterChain_eq_ok.mp read]
      rfl
    calc rest.findSome? Filter.dialect?
      _ = (rest.map some).findSome? (·.bind Filter.dialect?) := by
        rw [List.findSome?_map]
        rfl
      _ = names.tail.findSome? fun name => (Filter.named? name).bind Filter.dialect? := by
        rw [← others, List.findSome?_map]
        rfl

/-- The chain that accepted tables have for a document runs on every tree unless a renderer
stands behind its head. Then it runs on none, and the failure names that renderer. -/
theorem run_defaultChain (accepted : Expander.Accepts tables) (options : RenderOptions)
    (tree : Node) (expander : Expander) :
    ((∃ text, (run (defaultChain tables options) tree options expander).1 = .ok text) ↔
      lateRenderer? tables options = none) ∧
    ∀ dialect, lateRenderer? tables options = some dialect →
      (run (defaultChain tables options) tree options expander).1 =
        .error (.filterOrder dialect.filterName) := by
  obtain ⟨first, rest, chain, late⟩ := defaultChain_eq accepted.check options
  have ran : (run (defaultChain tables options) tree options expander).1 =
      refine rest (render first options tree expander).1 := by
    rw [chain]
    rfl
  rw [ran, refine_eq, ← late]
  cases rest.findSome? Filter.dialect? <;> simp

/-- Tables that know one kind of document. -/
def tablesOfX (names : List String) : Tables :=
  { Tables.empty with defaultFilters := [("x", names)] }

/-- A chain that escapes what it rendered, after a session. -/
theorem run_defaultChain_escaped :
    ∃ start, Expander.setup (some (tablesOfX ["html", "e"])) 0 {} = .ok start ∧
      Expander.Accepts (start.performAll [.read "p>b"]).tables ∧
      ∃ text, (run (defaultChain (start.performAll [.read "p>b"]).tables { extension := "x" })
        (.tag { name := .ofText "p" }) { extension := "x" } (start.performAll [.read "p>b"])).1 =
          .ok text := by
  have built : Expander.setup (some (tablesOfX ["html", "e"])) 0 {} =
      .ok { tables := tablesOfX ["html", "e"], source := .ofSeed 0 } := rfl
  have accepted := ((Expander.Consistent.build built).performAll [.read "p>b"]).accepts
  exact ⟨_, built, accepted, (run_defaultChain accepted _ _ _).1.mpr (by cbv)⟩

/-- The check passes a chain that fails on every document. -/
theorem second_renderer_fails :
    Expander.Accepts (tablesOfX ["html", "haml"]) ∧ ∀ expander,
      (run (defaultChain (tablesOfX ["html", "haml"]) { extension := "x" })
        (.tag { name := .ofText "p" }) { extension := "x" } expander).1 =
          .error (.filterOrder "haml") :=
  ⟨.inl ⟨.ofSeed 0, {}, _, rfl⟩, fun _ => rfl⟩

end Markup

end Shorthand
