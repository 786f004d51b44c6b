import Mathlib
import Shorthand.Proofs.Session.Change

/-! Sessions. Whatever is done with an expander, what it keeps compiled stays what its
tables hold, so a style abbreviation is expanded as by an expander that is set up anew. -/
namespace Shorthand

/-- One failing check is enough. -/
theorem seq_eq_ok {ε α : Type} {first : Except ε Unit} {second : Except ε α} {value : α} :
    (do first; second) = .ok value ↔ first = .ok () ∧ second = .ok value := by
  cases first <;> simp [bind, Except.bind]

namespace Expander

variable {expander : Expander}

theorem build_eq_ok {tables : Tables} {source : Filler.ChaCha} {limits : Limits} :
    Expander.build (some tables) source limits = .ok expander ↔
      tables.check = .ok () ∧ { tables, limits, source } = expander :=
  seq_eq_ok.trans (and_congr_right fun _ => ⟨Except.ok.inj, congrArg Except.ok⟩)

theorem replaceTables_eq_ok {tables : Tables} {replaced : Expander} :
    expander.replaceTables tables = .ok replaced ↔
      tables.check = .ok () ∧
        { expander with tables, snippets := [], formatters := [] } = replaced :=
  seq_eq_ok.trans (and_congr_right fun _ => ⟨Except.ok.inj, congrArg Except.ok⟩)

theorem snippet?_fst (coherent : expander.Coherent)
    (dialect : Dialect) (name : String) :
    (expander.snippet? dialect name).1 =
      (expander.tables.tagSnippet? dialect name).map Snippet.compile := by
  unfold snippet?
  split
  · next snippet kept =>
    obtain ⟨source, held, rfl⟩ := coherent.snippets dialect.family name _ (Table.mem_of_get? kept)
    exact (congrArg (Option.map Snippet.compile) held).symm
  · split
    · next held => rw [held]; rfl
    · next held => rw [held]; rfl

/-- What the formatter of a declaration is compiled from, looked up and compiled anew. -/
def freshFormatter (tables : Tables) (flavour : StyleFlavour) (key : String) :
    Option Style.Formatter :=
  (tables.styleSnippet? flavour key).map Style.Formatter.compile

theorem formatter?_fst (coherent : expander.Coherent) (flavour : StyleFlavour) (key : String) :
    (expander.formatter? flavour key).1 = freshFormatter expander.tables flavour key := by
  unfold formatter? freshFormatter
  split
  · next formatter kept =>
    obtain ⟨source, held, rfl⟩ := coherent.formatters flavour key _ (Table.mem_of_get? kept)
    exact (congrArg (Option.map Style.Formatter.compile) held).symm
  · split
    · next held => rw [held]; rfl
    · next held => rw [held]; rfl

theorem formatter?_snd (expander : Expander) (flavour : StyleFlavour) (key : String) :
    ∃ formatters, (expander.formatter? flavour key).2 = { expander with formatters } := by
  unfold formatter?
  split
  · exact ⟨expander.formatters, rfl⟩
  · split
    · exact ⟨expander.formatters, rfl⟩
    · exact ⟨_, rfl⟩

/-- The lines of a declaration. -/
def freshLines (tables : Tables) (flavour : StyleFlavour) (token : List Char) : String :=
  let declaration := Style.declaration tables token
  Style.writeWith tables (freshFormatter tables flavour declaration.key) flavour declaration

theorem writeAll_fst (coherent : expander.Coherent) (flavour : StyleFlavour)
    (tokens : List (List Char)) :
    (Style.writeAll expander flavour tokens).1 =
      tokens.map (freshLines expander.tables flavour) := by
  induction tokens generalizing expander with
  | nil => rfl
  | cons token rest ih =>
    let key := (Style.declaration expander.tables token).key
    have coherent' := (Evolves.formatter? expander flavour key).coherent coherent
    have found := formatter?_fst coherent flavour key
    obtain ⟨formatters, eq⟩ := formatter?_snd expander flavour key
    have same : (expander.formatter? flavour key).2.tables = expander.tables := by rw [eq]
    have later := ih coherent'
    rw [same] at later
    have line : (Style.write expander flavour (Style.declaration expander.tables token)).1 =
        freshLines expander.tables flavour token := by
      change Style.writeWith (expander.formatter? flavour key).2.tables
        (expander.formatter? flavour key).1 flavour _ = _
      rw [same, found]
      rfl
    exact List.cons_eq_cons.mpr ⟨line, later⟩

theorem writeAll_snd (expander : Expander) (flavour : StyleFlavour) (tokens : List (List Char)) :
    ∃ formatters, (Style.writeAll expander flavour tokens).2 = { expander with formatters } := by
  induction tokens generalizing expander with
  | nil => exact ⟨expander.formatters, rfl⟩
  | cons token rest ih =>
    obtain ⟨first, eq⟩ := formatter?_snd expander flavour
      (Style.declaration expander.tables token).key
    obtain ⟨formatters, later⟩ := ih { expander with formatters := first }
    refine ⟨formatters, Eq.trans ?_ later⟩
    rw [← eq]
    rfl

/-- What a coherent expander makes of a style abbreviation depends on its tables alone. -/
theorem expandStyle_fst_eq {other : Expander} (coherent : expander.Coherent)
    (coherent' : other.Coherent) (same : expander.tables = other.tables)
    (abbreviation : String) (options : RenderOptions) :
    (expander.expandStyle abbreviation options).1 = (other.expandStyle abbreviation options).1 := by
  unfold expandStyle
  split
  · rfl
  · simp only [writeAll_fst coherent, writeAll_fst coherent', same]

/-- Expanding a style abbreviation compiles formatters and does nothing else. -/
theorem expandStyle_snd (expander : Expander) (abbreviation : String) (options : RenderOptions) :
    ∃ formatters, (expander.expandStyle abbreviation options).2 = { expander with formatters } := by
  unfold expandStyle
  split
  · exact ⟨expander.formatters, rfl⟩
  · exact writeAll_snd expander options.flavour _

/-- What a caller may do with an expander. -/
inductive Operation where
  | expandMarkup (abbreviation : String) (options : RenderOptions)
  | expandStyle (abbreviation : String) (options : RenderOptions)
  | read (abbreviation : String)
  | render (dialect : Dialect) (options : RenderOptions) (tree : Node)
  | replaceTables (tables : Tables)

/-- The expander after an operation, whatever came of it. -/
def perform (expander : Expander) : Operation → Expander
  | .expandMarkup abbreviation options => (expander.expandMarkup abbreviation options).2
  | .expandStyle abbreviation options => (expander.expandStyle abbreviation options).2
  | .read abbreviation => (expander.read abbreviation).2
  | .render dialect options tree => (Markup.render dialect options tree expander).2
  | .replaceTables tables =>
    match expander.replaceTables tables with
    | .ok replaced => replaced
    | .error _ => expander

def performAll (expander : Expander) (operations : List Operation) : Expander :=
  operations.foldl perform expander

/-- An expander that holds checked tables and what is compiled from them. -/
structure Consistent (expander : Expander) : Prop where
  checked : expander.tables.check = .ok ()
  coherent : expander.Coherent

theorem Evolves.consistent {after : Expander} (evolves : Evolves expander after)
    (consistent : expander.Consistent) : after.Consistent :=
  ⟨evolves.check.trans consistent.checked, evolves.coherent consistent.coherent⟩

/-- Nothing is compiled yet. -/
theorem coherent_of_empty (h : expander.snippets = [] ∧ expander.formatters = []) :
    expander.Coherent := by
  obtain ⟨snippets, formatters⟩ := h
  constructor
  · simp [snippets]
  · simp [formatters]

theorem Consistent.build {tables : Option Tables} {source : Filler.ChaCha} {limits : Limits}
    (built : Expander.build tables source limits = .ok expander) : expander.Consistent := by
  cases tables with
  | none => contradiction
  | some tables =>
    obtain ⟨checked, rfl⟩ := build_eq_ok.mp built
    exact ⟨checked, coherent_of_empty ⟨rfl, rfl⟩⟩

theorem Consistent.replaceTables {tables : Tables} {replaced : Expander}
    (accepted : expander.replaceTables tables = .ok replaced) : replaced.Consistent := by
  obtain ⟨checked, rfl⟩ := replaceTables_eq_ok.mp accepted
  exact ⟨checked, coherent_of_empty ⟨rfl, rfl⟩⟩

/-- An operation puts other tables in, or else the expander evolves. -/
theorem evolves_or_replaced (expander : Expander) (operation : Operation) :
    Evolves expander (expander.perform operation) ∨
      ∃ tables, operation = .replaceTables tables ∧
        expander.replaceTables tables = .ok (expander.perform operation) := by
  cases operation with
  | expandMarkup abbreviation options => exact .inl (.expandMarkup expander abbreviation options)
  | expandStyle abbreviation options => exact .inl (.expandStyle expander abbreviation options)
  | read abbreviation => exact .inl (.read expander abbreviation)
  | render dialect options tree => exact .inl (.render tree expander)
  | replaceTables tables =>
    unfold Expander.perform
    dsimp only
    split
    · next accepted => exact .inr ⟨tables, rfl, accepted⟩
    · exact .inl (.refl expander)

theorem Consistent.perform (consistent : expander.Consistent) (operation : Operation) :
    (expander.perform operation).Consistent := by
  obtain evolves | ⟨tables, -, accepted⟩ := evolves_or_replaced expander operation
  · exact evolves.consistent consistent
  · exact .replaceTables accepted

theorem Consistent.performAll (consistent : expander.Consistent) (operations : List Operation) :
    (expander.performAll operations).Consistent := by
  induction operations generalizing expander with
  | nil => exact consistent
  | cons operation rest ih => exact ih (consistent.perform operation)

/-- The tables of a consistent expander do for building another one. -/
theorem Consistent.build_again (consistent : expander.Consistent) (source : Filler.ChaCha)
    (limits : Limits) :
    Expander.build (some expander.tables) source limits =
      .ok { tables := expander.tables, limits, source } :=
  build_eq_ok.mpr ⟨consistent.checked, rfl⟩

/-- After any session, whatever the random source was, what is kept compiled is what the tables
hold, refused tables change nothing, and style abbreviations are expanded as by a new expander
over the same tables; of the expander they change nothing but the formatters that it keeps. -/
theorem coherent_performAll {tables : Option Tables} {source : Filler.ChaCha} {limits : Limits}
    {start : Expander} (built : Expander.build tables source limits = .ok start)
    (operations : List Operation) :
    (start.performAll operations).Coherent ∧
    (∀ refused failure, (start.performAll operations).replaceTables refused = .error failure →
      (start.performAll operations).perform (.replaceTables refused) =
        start.performAll operations) ∧
    ∀ source limits, ∃ fresh,
      Expander.build (some (start.performAll operations).tables) source limits = .ok fresh ∧
      ∀ abbreviation options,
        ((start.performAll operations).expandStyle abbreviation options).1 =
          (fresh.expandStyle abbreviation options).1 ∧
        ∃ formatters, ((start.performAll operations).expandStyle abbreviation options).2 =
          { start.performAll operations with formatters } := by
  have consistent := (Consistent.build built).performAll operations
  generalize start.performAll operations = reached at consistent ⊢
  refine ⟨consistent.coherent, fun refused failure h => ?_, fun source limits => ?_⟩
  · unfold Expander.perform
    dsimp only
    rw [h]
  · have again := consistent.build_again source limits
    have fresh := Consistent.build again
    refine ⟨_, again, fun abbreviation options => ⟨?_, ?_⟩⟩
    · exact expandStyle_fst_eq consistent.coherent fresh.coherent rfl abbreviation options
    · exact expandStyle_snd reached abbreviation options

/-- Tables with one way to write `m`. -/
def tablesOfM (source : String) : Tables := Tables.empty.withStyleSnippet .standard "m" source

/-- Formatters are compiled, the tables are replaced, others are refused, and formatters are
compiled again. -/
def swap : List Operation :=
  [.expandStyle "m5" {}, .expandMarkup "p*2|e" {}, .replaceTables (tablesOfM "max-width: |;"),
    .replaceTables {}, .read "p>", .expandStyle "m5" {}]

/-- After the tables were replaced, `m` is what the new ones say. -/
theorem coherent_performAll_swap :
    ∃ start, Expander.setup (some (tablesOfM "margin: |;")) 0 {} = .ok start ∧
      (start.performAll swap).formatters.length = 1 ∧ (start.performAll swap).Coherent ∧
        ((start.performAll swap).expandStyle "m10" {}).1 = .ok "max-width: 10px;" := by
  have built : Expander.setup (some (tablesOfM "margin: |;")) 0 {} =
      .ok { tables := tablesOfM "margin: |;", source := .ofSeed 0 } := rfl
  refine ⟨_, built, by cbv, ?_⟩
  obtain ⟨coherent, -, again⟩ := coherent_performAll built swap
  refine ⟨coherent, ?_⟩
  obtain ⟨fresh, set, same⟩ := again (.ofSeed 0) {}
  have tables : (Expander.performAll { tables := tablesOfM "margin: |;", source := .ofSeed 0 }
      swap).tables = tablesOfM "max-width: |;" := by cbv
  rw [tables] at set
  obtain rfl := Except.ok.inj set
  rw [(same "m10" {}).1]
  cbv

end Expander

end Shorthand
