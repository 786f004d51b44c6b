import Shorthand.Proofs.Session.Coherence
import Shorthand.Proofs.Style.Token
import Shorthand.Proofs.Text.Trim

/-! Expanding a sum. Two style abbreviations with a `+` between them are expanded as one
below the other, provided that the second begins a declaration: neither are the tokens of
the first shifted, nor do formatters that it leaves compiled change the second. -/
namespace Shorthand.Expander

variable {expander : Expander} {options : RenderOptions}

/-- Tokens are written one by one, each with what the ones before it left compiled. -/
theorem writeAll_append (expander : Expander) (flavour : StyleFlavour)
    (first last : List (List Char)) :
    Style.writeAll expander flavour (first ++ last) =
      ((Style.writeAll expander flavour first).1 ++
          (Style.writeAll (Style.writeAll expander flavour first).2 flavour last).1,
        (Style.writeAll (Style.writeAll expander flavour first).2 flavour last).2) := by
  induction first generalizing expander with
  | nil => rfl
  | cons token rest ih => simp only [List.cons_append, Style.writeAll, ih]

/-- The tokens of a whole abbreviation. -/
def styleTokens (abbreviation : String) : List (List Char) :=
  Style.tokens (trim abbreviation.toList)

theorem expandStyle_of_tokens {abbreviation : String} (some : styleTokens abbreviation ≠ []) :
    expander.expandStyle abbreviation options =
      (.ok ("\n".intercalate
          (Style.writeAll expander options.flavour (styleTokens abbreviation)).1),
        (Style.writeAll expander options.flavour (styleTokens abbreviation)).2) := by
  unfold expandStyle
  split
  · next none => exact absurd none some
  · rfl

theorem tokens_of_expandStyle {abbreviation text : String}
    (expanded : (expander.expandStyle abbreviation options).1 = .ok text) :
    styleTokens abbreviation ≠ [] := by
  intro none
  unfold expandStyle at expanded
  split at expanded
  · contradiction
  · next some => exact some none

/-- Neither end of the sum is trimmed, if neither end of its parts is. -/
theorem styleTokens_plus {first last : String} (firstTrimmed : trimmed first = first)
    (lastTrimmed : trimmed last = last) (begins : Style.BeginsDeclaration last.toList) :
    styleTokens (first ++ "+" ++ last) = styleTokens first ++ styleTokens last := by
  have toList : ∀ {text : String}, trimmed text = text → trim text.toList = text.toList :=
    fun same => by simpa [trimmed] using congrArg String.toList same
  have whole : (first ++ "+" ++ last).toList = first.toList ++ '+' :: last.toList := by simp
  rw [styleTokens, styleTokens, styleTokens, whole, trim_append_cons (by decide),
    trimStart_eq_self_of_trim (toList firstTrimmed), trimEnd_eq_self_of_trim (toList lastTrimmed),
    toList firstTrimmed, toList lastTrimmed, Style.tokens_plus _ begins]

/-- What was compiled for one text makes no difference to the next. -/
theorem writeAll_after (coherent : expander.Coherent) (flavour : StyleFlavour)
    (first last : List (List Char)) :
    (Style.writeAll (Style.writeAll expander flavour first).2 flavour last).1 =
      (Style.writeAll expander flavour last).1 := by
  obtain ⟨formatters, compiled⟩ := writeAll_snd expander flavour first
  have later := (Evolves.writeAll expander flavour first).coherent coherent
  rw [writeAll_fst later, writeAll_fst coherent, compiled]

/-- In front of a text that begins a declaration a `+` separates tokens. After any session,
the sum of two abbreviations that can be expanded is then expanded as the first and, on
lines of its own, the second; the expander is left as by one after the other. -/
theorem expandStyle_plus {first last : String} (begins : Style.BeginsDeclaration last.toList) :
    Style.tokens (first ++ "+" ++ last).toList =
        Style.tokens first.toList ++ Style.tokens last.toList ∧
      ∀ {tables : Option Tables} {source : Filler.ChaCha} {limits : Limits} {start : Expander},
        Expander.build tables source limits = .ok start →
      ∀ (operations : List Operation) (options : RenderOptions) {above below : String},
        trimmed first = first → trimmed last = last →
        ((start.performAll operations).expandStyle first options).1 = .ok above →
        ((start.performAll operations).expandStyle last options).1 = .ok below →
        (start.performAll operations).expandStyle (first ++ "+" ++ last) options =
          (.ok (above ++ "\n" ++ below),
            (((start.performAll operations).expandStyle first options).2.expandStyle last
              options).2) := by
  constructor
  · rw [← Style.tokens_plus _ begins]
    simp
  · intro tables source limits start built operations options above below firstTrimmed lastTrimmed
    have coherent := ((Consistent.build built).performAll operations).coherent
    generalize start.performAll operations = reached at coherent ⊢
    intro firstExpanded lastExpanded
    have firstTokens := tokens_of_expandStyle firstExpanded
    have lastTokens := tokens_of_expandStyle lastExpanded
    have sum := styleTokens_plus firstTrimmed lastTrimmed begins
    have sumTokens : styleTokens (first ++ "+" ++ last) ≠ [] := by simp [sum, firstTokens]
    have lines : ∀ {tokens}, tokens ≠ [] →
        (Style.writeAll reached options.flavour tokens).1 ≠ [] := by
      intro tokens some
      rwa [writeAll_fst coherent, ne_eq, List.map_eq_nil_iff]
    rw [expandStyle_of_tokens firstTokens] at firstExpanded ⊢
    rw [expandStyle_of_tokens lastTokens] at lastExpanded ⊢
    rw [expandStyle_of_tokens sumTokens, sum, writeAll_append, writeAll_after coherent,
      String.intercalate_append_of_ne_nil (lines firstTokens) (lines lastTokens)]
    rw [Except.ok.inj firstExpanded, Except.ok.inj lastExpanded]

/-- A declaration whose arguments hold a `+`, and one with a prefix for all vendors, after the
formatter of the second was compiled. -/
theorem expandStyle_plus_prefixed :
    ∃ start, Expander.setup (some (tablesOfM "margin: |;")) 0 {} = .ok start ∧
      Style.BeginsDeclaration "-m2".toList ∧
      Style.tokens "bd1+#000+-m2".toList = ["bd1+#000".toList, "-m2".toList] ∧
      ((start.performAll [.expandStyle "m5" {}]).expandStyle "bd1+#000+-m2" {}).1 =
        .ok ("\n".intercalate ["bd: 1px #000;", "-webkit-margin: 2px;", "-moz-margin: 2px;",
          "-ms-margin: 2px;", "-o-margin: 2px;", "margin: 2px;"]) := by
  have begins : Style.BeginsDeclaration "-m2".toList := by decide
  have built : Expander.setup (some (tablesOfM "margin: |;")) 0 {} =
      .ok { tables := tablesOfM "margin: |;", source := .ofSeed 0 } := rfl
  obtain ⟨tokens, expanded⟩ := @expandStyle_plus "bd1+#000" "-m2" begins
  refine ⟨_, built, begins, tokens.trans (by decide), ?_⟩
  have whole := @expanded _ _ _ _ built [.expandStyle "m5" {}] {} "bd: 1px #000;" _
    (by cbv) (by cbv) (by cbv) (by cbv)
  exact congrArg Prod.fst whole

end Shorthand.Expander
