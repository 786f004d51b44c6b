import Shorthand.Proofs.Style.Mark
import Shorthand.Proofs.Style.Plus

/-! Marked declarations. The templates of the library are rows of slots, and no token holds an
exclamation mark but the one that is its flag. So a declaration is marked once and last unless
the suffix of a color is followed by something, be it an argument, a slot without one, or the
flag. -/
namespace Shorthand.Style

section Rows

variable {tables : Tables} {flavour : StyleFlavour} {front : List Char} {line : String}

/-- The slots among the pieces and the characters behind the last; `gap` stands before them. -/
def slotsOf (gap : List Char) : List FormatPiece → List Slot × List Char
  | [] => ([], gap)
  | .char c :: rest => slotsOf (gap ++ [c]) rest
  | .slot _ fallback :: rest => (⟨gap, fallback⟩ :: (slotsOf [] rest).1, (slotsOf [] rest).2)

theorem exists_row_builtin : ∀ entry ∈ Tables.declarationSnippets, ∃ slots body,
    IsRow slots body ∧ Formatter.compile entry.2 = .ofSlots slots (body ++ [';']) := by
  have checked : ∀ entry ∈ Tables.declarationSnippets,
      let row := slotsOf [] (Formatter.compile entry.2).pieces
      (∀ slot ∈ row.1.drop 2, slot.gap = [' ']) ∧
        (∀ slot ∈ row.1, (slot.gap ++ slot.fallback).all fun c => IsQuiet c) ∧
        (row.2.dropLast.all fun c => IsQuiet c) ∧ (row.1 ≠ [] → row.2.dropLast = []) ∧
        Formatter.compile entry.2 = .ofSlots row.1 (row.2.dropLast ++ [';']) := by
    decide +kernel
  intro entry member
  obtain ⟨spaced, quiet, quietBody, closed, same⟩ := checked entry member
  exact ⟨_, _, ⟨spaced, fun slot here => forall_mem_of_all (quiet slot here),
    forall_mem_of_all quietBody, closed⟩, same⟩

/-- How many slots a declaration has for its arguments. Without a formatter it has one. -/
def slotCountOf (formatter : Option Formatter) : Nat := (formatter.map Formatter.slotCount).getD 1

/-- The line without a flag. -/
def plainLine (formatter : Option Formatter) (key : String) (args : List String) : String :=
  match formatter with
  | some formatter => formatter.format args
  | none => key ++ ": " ++ " ".intercalate args ++ ";"

theorem styleSnippet?_builtin (builtin : tables.IsBuiltin) (flavour : StyleFlavour)
    (key : String) : tables.styleSnippet? flavour key = Tables.declarationSnippets.get? key := by
  obtain ⟨aliases, rfl⟩ := builtin
  cases flavour <;> rfl

theorem exists_row (builtin : tables.IsBuiltin) (flavour : StyleFlavour) {key : String}
    (quiet : ∀ c ∈ key.toList, IsQuiet c) :
    ∃ slots body, IsRow slots body ∧
      slots.length = slotCountOf (Expander.freshFormatter tables flavour key) ∧
      ∀ args, (plainLine (Expander.freshFormatter tables flavour key) key args).toList =
        Slot.fill slots args ++ body ++ [';'] := by
  rw [Expander.freshFormatter, styleSnippet?_builtin builtin]
  cases held : Tables.declarationSnippets.get? key with
  | some source =>
    obtain ⟨slots, body, row, same⟩ := exists_row_builtin _ (Table.mem_of_get? held)
    dsimp only at same
    refine ⟨slots, body, row, ?_, fun args => ?_⟩
    · rw [Option.map_some, same, slotCountOf, Option.map_some, slotCount_ofSlots]
      rfl
    · rw [Option.map_some, same, plainLine, format_ofSlots, List.append_assoc]
  | none =>
    refine ⟨[⟨key.toList ++ [':', ' '], []⟩], [], ⟨List.forall_mem_nil _, ?_, List.forall_mem_nil _,
      fun _ => rfl⟩, rfl, fun args => ?_⟩
    · refine List.forall_mem_singleton.mpr ?_
      simp only [List.forall_mem_append]
      exact ⟨⟨quiet, forall_mem_of_all (by decide)⟩, List.forall_mem_nil _⟩
    · have filled : Slot.fill [⟨key.toList ++ [':', ' '], []⟩] args =
          key.toList ++ [':', ' '] ++ (" ".intercalate args).toList := by
        cases args with
        | nil => simp only [Slot.fill, String.intercalate_nil, String.toList_empty]
        | cons arg args => rw [Slot.fill]
      rw [filled]
      simp only [Option.map_none, plainLine, String.toList_append, List.append_nil]
      rfl

theorem dropLast?_concat (c : Char) (s : List Char) : dropLast? c (s ++ [c]) = some s := by
  simp [dropLast?]

theorem toList_markImportant (closed : line.toList = front ++ [';']) :
    (markImportant line).toList = front ++ ' ' :: mark.toList ++ [';'] := by
  rw [markImportant, closed, dropLast?_concat]
  have text : " !important;".toList = ' ' :: mark.toList ++ [';'] := rfl
  simp only [String.toList_append, String.toList_ofList, text, List.append_assoc]

theorem toList_dropSemicolon (closed : line.toList = front ++ [';']) :
    (dropSemicolon line).toList = front := by
  rw [dropSemicolon, closed, dropLast?_concat]
  exact String.toList_ofList

theorem toList_mainLine {formatter : Option Formatter} {declaration : Declaration}
    {args : List String}
    (closed : (plainLine formatter declaration.key args).toList = front ++ [';']) :
    (mainLine formatter flavour declaration args).toList =
      front ++ (if declaration.important then ' ' :: mark.toList else []) ++
        if flavour = .indented then [] else [';'] := by
  have flagged : (if declaration.important then
      markImportant (plainLine formatter declaration.key args)
      else plainLine formatter declaration.key args).toList =
        front ++ (if declaration.important then ' ' :: mark.toList else []) ++ [';'] := by
    split
    · exact toList_markImportant closed
    · rw [closed, List.append_nil]
  change (if flavour = .indented then dropSemicolon (if declaration.important then
    markImportant (plainLine formatter declaration.key args)
    else plainLine formatter declaration.key args) else _).toList = _
  split
  · rw [toList_dropSemicolon flagged, List.append_nil]
  · exact flagged

end Rows

section Declaration

variable {tables : Tables} {token : List Char}

/-- The only exclamation mark of the token is read as the flag. -/
theorem free_importantPart (single : '!' ∉ token.dropLast) :
    '!' ∉ (importantPart (trim token)).1 := by
  obtain rfl | ⟨front, c, rfl⟩ := token.eq_nil_or_concat
  · decide
  rw [List.concat_eq_append] at single ⊢
  rw [List.dropLast_concat] at single
  by_cases flag : c = '!'
  · subst flag
    have whole : trim (front ++ ['!']) = trimStart front ++ ['!'] :=
      trim_append_cons (by decide) front []
    rw [whole, importantPart, dropLast?_concat]
    exact fun member => single ((List.dropWhile_suffix _).subset member)
  · intro member
    have inside := trim_subset _ (importantPart_subset _ member)
    obtain before | last := List.mem_append.mp inside
    · exact single before
    · exact flag (List.mem_singleton.mp last).symm

theorem quiet_key (single : '!' ∉ token.dropLast) :
    ∀ c ∈ (declaration tables token).key.toList, IsQuiet c := by
  have free := free_importantPart single
  generalize body : (vendorPart (importantPart (trim token)).1).2 = b
  have whole : (declaration tables token).key = String.ofList (keyPart b).1 := by
    rw [← body]
    rfl
  have keyChars : ∀ c ∈ (keyPart b).1, isKeyChar c := by
    obtain same | ⟨key, mark, -, split, same⟩ := keyPart_eq b
    · rw [same]
      exact fun c member => List.mem_takeWhile_imp member
    · rw [same]
      exact fun c member => List.mem_takeWhile_imp (split ▸ List.mem_append_left _ member)
  rw [whole, String.toList_ofList]
  intro c member
  constructor
  · rintro rfl
    have inside : '!' ∈ b := keyPart_append b ▸ List.mem_append_left _ member
    exact free ((vendorPart_suffix _).subset (body ▸ inside))
  · rintro rfl
    exact absurd (keyChars _ member) (by decide)

theorem quiet_args (builtin : tables.IsBuiltin) (single : '!' ∉ token.dropLast) :
    ∀ arg ∈ (declaration tables token).args, HasQuietText tables.preferences arg := by
  refine hasQuietText_arguments builtin fun member => free_importantPart single ?_
  have whole := keyPart_append (vendorPart (importantPart (trim token)).1).2
  exact (vendorPart_suffix _).subset (whole ▸ List.mem_append_right _ member)

theorem explicit_subset {s : List Char} {names : List String}
    (spelled : (vendorPart s).1 = .explicit names) : names ⊆ defaultVendors := by
  have known (c : Char) : vendorName c ∈ defaultVendors := by
    unfold vendorName
    split <;> decide
  unfold vendorPart at spelled
  split at spelled
  · split at spelled
    · obtain rfl := Vendors.explicit.inj spelled
      intro name member
      obtain ⟨c, -, rfl⟩ := List.mem_map.mp (List.mem_eraseDups.mp member)
      exact known c
    · cases spelled
  · cases spelled

theorem vendorsOf_subset (builtin : tables.IsBuiltin) (property : String) (token : List Char) :
    vendorsOf tables property (declaration tables token) ⊆ defaultVendors := by
  obtain ⟨aliases, rfl⟩ := builtin
  have table : ∀ entry ∈ Tables.builtinVendors, entry.2 ⊆ defaultVendors := by decide
  unfold vendorsOf
  split
  · exact List.nil_subset _
  · next names spelled => exact explicit_subset spelled
  · have found (key : String) : ∀ names ∈ Tables.builtinVendors.get? key, names ⊆ defaultVendors :=
      fun names held => table _ (Table.mem_of_get? held)
    generalize (declaration { Tables.builtin with aliases } token).key = key
    cases own : Tables.builtinVendors.get? key with
    | some names =>
      change (((Tables.builtinVendors.get? _) <|> _).getD _) ⊆ _
      rw [own]
      exact found _ names own
    | none =>
      change (((Tables.builtinVendors.get? _) <|> Tables.builtinVendors.get? property).getD _) ⊆ _
      rw [own]
      cases shared : Tables.builtinVendors.get? property with
      | some names => exact found _ names shared
      | none => exact List.Subset.refl _

end Declaration

section Write

variable {tables : Tables} {flavour : StyleFlavour} {declaration : Declaration}

/-- All lines are one line behind vendors. -/
theorem forall_lines_iff {vendors : List String} {line : String} {holds : Prop}
    (known : vendors ⊆ defaultVendors) (single : '\n' ∉ line.toList)
    (each : ∀ lead : String, (∀ c ∈ lead.toList, IsQuiet c) →
      (MarkedOnce (lead ++ line).toList ↔ holds)) :
    (∀ written ∈ linesOf ("\n".intercalate
        (vendors.map (fun vendor => "-" ++ vendor ++ "-" ++ line) ++ [line])),
      MarkedOnce written.toList) ↔ holds := by
  have quiet : ∀ vendor ∈ vendors, ∀ c ∈ ("-" ++ vendor ++ "-").toList, IsQuiet c := by
    have checked : ∀ vendor ∈ defaultVendors,
        ("-" ++ vendor ++ "-").toList.all fun c => IsQuiet c := by decide
    exact fun vendor member => forall_mem_of_all (checked vendor (known member))
  have whole : ∀ written ∈ vendors.map (fun vendor => "-" ++ vendor ++ "-" ++ line) ++ [line],
      isMultiline written = false := by
    refine List.forall_mem_append.mpr ⟨List.forall_mem_map.mpr fun vendor member => ?_,
      List.forall_mem_singleton.mpr (by simpa [isMultiline] using single)⟩
    have front : '\n' ∉ ("-" ++ vendor ++ "-").toList := fun here =>
      (quiet vendor member _ here).2 rfl
    rw [isMultiline_append]
    simp only [isMultiline, List.contains_eq_mem, front, single, decide_false, Bool.or_false]
  rw [linesOf_intercalate (by simp) whole, List.forall_mem_append, List.forall_mem_map,
    List.forall_mem_singleton]
  have alone := each "" (List.forall_mem_nil _)
  rw [String.empty_append] at alone
  rw [alone]
  exact and_iff_right_of_imp fun held vendor member => (each _ (quiet vendor member)).mpr held

/-- Of a row all lines are marked as the row is. -/
theorem forall_lines_row {slots : List Slot} {body final : List Char} {args : List Argument}
    {flagged unitless : Bool} {vendors : List String} {line : String} (row : IsRow slots body)
    (ends : final = [] ∨ final = [';'])
    (quiet : ∀ arg ∈ args, HasQuietText tables.preferences arg)
    (known : vendors ⊆ defaultVendors)
    (written : line.toList = rowText slots body
      (args.flatMap (Argument.texts tables.preferences unitless)) flagged final) :
    (∀ written ∈ linesOf ("\n".intercalate
        (vendors.map (fun vendor => "-" ++ vendor ++ "-" ++ line) ++ [line])),
      MarkedOnce written.toList) ↔ MarksOnce slots.length flagged args := by
  refine forall_lines_iff known ?_ fun lead quietLead => ?_
  · rw [written]
    exact fun member => single_row row ends (single_texts quiet unitless) _ member rfl
  · rw [String.toList_append, written]
    exact markedOnce_row_iff row quietLead ends quiet unitless

theorem forall_lines_writeWith (builtin : tables.IsBuiltin) (flavour : StyleFlavour)
    (quietKey : ∀ c ∈ declaration.key.toList, IsQuiet c)
    (quiet : ∀ arg ∈ declaration.args, HasQuietText tables.preferences arg)
    (known : ∀ property, vendorsOf tables property declaration ⊆ defaultVendors) :
    (∀ line ∈ linesOf (writeWith tables
        (Expander.freshFormatter tables flavour declaration.key) flavour declaration),
      MarkedOnce line.toList) ↔
    MarksOnce (slotCountOf (Expander.freshFormatter tables flavour declaration.key))
      (declaration.important && declaration.key ≠ "") declaration.args := by
  generalize formatted : Expander.freshFormatter tables flavour declaration.key = formatter
  let property := propertyOf formatter declaration
  by_cases keyless : declaration.key = ""
  · -- Arguments on their own are a row of one slot with nothing around it.
    have row : IsRow [⟨[], []⟩] [] :=
      ⟨List.forall_mem_nil _, by simp, List.forall_mem_nil _, fun _ => rfl⟩
    have line : (" ".intercalate (argumentTexts tables property declaration)).toList =
        rowText [⟨[], []⟩] [] (argumentTexts tables property declaration) false [] := by
      cases argumentTexts tables property declaration <;> simp [rowText, Slot.fill]
    have count : slotCountOf formatter = 1 := by
      rw [← formatted, Expander.freshFormatter, styleSnippet?_builtin builtin, keyless]
      decide
    have flagged : (declaration.important && declaration.key ≠ "") = false := by simp [keyless]
    have each := forall_lines_row row (.inl rfl) quiet (List.nil_subset _) line
    rw [List.map_nil, List.nil_append, String.intercalate_singleton] at each
    rw [writeWith, if_pos keyless, count, flagged]
    exact each
  · obtain ⟨slots, body, row, count, shown⟩ := exists_row builtin flavour quietKey
    rw [formatted] at count shown
    have ends : (if flavour = .indented then [] else [';']) = [] ∨
        (if flavour = .indented then [] else [';']) = [';'] := by
      split
      · exact .inl rfl
      · exact .inr rfl
    have line : (mainLine formatter flavour declaration
        (argumentTexts tables property declaration)).toList =
          rowText slots body (argumentTexts tables property declaration) declaration.important
            (if flavour = .indented then [] else [';']) :=
      toList_mainLine (shown (argumentTexts tables property declaration))
    have flagged : (declaration.important && declaration.key ≠ "") = declaration.important := by
      simp [keyless]
    rw [writeWith, if_neg keyless, ← count, flagged]
    exact forall_lines_row row ends quiet (known property) line

end Write

/-- With the tables of the library, after any session, and for a token with no exclamation mark
but a final one: the mark of importance stands in every line once at most, and then at the end
or in front of the final semicolon, exactly in these cases. No argument is a color with a suffix;
or the template of the key has no slots; or only the last argument is such a color, the mark that
it stands for takes the last slot or goes there with surplus arguments, and no flag adds a second
mark. -/
theorem forall_markedOnce_iff {expander : Expander} (coherent : expander.Coherent)
    (builtin : expander.tables.IsBuiltin) (flavour : StyleFlavour) {token : List Char}
    (single : '!' ∉ token.dropLast) :
    (∀ line ∈ linesOf (write expander flavour (declaration expander.tables token)).1,
      MarkedOnce line.toList) ↔
    MarksOnce (slotCountOf (expander.formatter? flavour (declaration expander.tables token).key).1)
      ((declaration expander.tables token).important &&
        (declaration expander.tables token).key ≠ "")
      (declaration expander.tables token).args := by
  obtain ⟨formatters, same⟩ :=
    Expander.formatter?_snd expander flavour (declaration expander.tables token).key
  have tables : (expander.formatter? flavour (declaration expander.tables token).key).2.tables =
      expander.tables := by rw [same]
  have written : (write expander flavour (declaration expander.tables token)).1 =
      writeWith (expander.formatter? flavour (declaration expander.tables token).key).2.tables
        (expander.formatter? flavour (declaration expander.tables token).key).1 flavour
        (declaration expander.tables token) := rfl
  rw [written, tables, Expander.formatter?_fst coherent]
  exact forall_lines_writeWith builtin flavour (quiet_key single) (quiet_args builtin single)
    fun property => vendorsOf_subset builtin property token

def freshExpander : Expander := { tables := Tables.builtin, source := .ofSeed 0 }

/-- A border with the suffix at its last color, which goes into the last slot. -/
theorem forall_markedOnce_border :
    freshExpander.Coherent ∧ freshExpander.tables.IsBuiltin ∧
      '!' ∉ "-wm-bd1 solid #fffi".toList.dropLast ∧
      (write freshExpander .standard
          (declaration freshExpander.tables "-wm-bd1 solid #fffi".toList)).1 =
        "\n".intercalate ["-webkit-border: 1px solid #fff !important;",
          "-moz-border: 1px solid #fff !important;", "border: 1px solid #fff !important;"] ∧
      ∀ line ∈ linesOf (write freshExpander .standard
          (declaration freshExpander.tables "-wm-bd1 solid #fffi".toList)).1,
        MarkedOnce line.toList := by
  have coherent : freshExpander.Coherent :=
    ⟨fun _ _ _ kept => (nomatch kept), fun _ _ _ kept => (nomatch kept)⟩
  have builtin : freshExpander.tables.IsBuiltin := ⟨_, rfl⟩
  have single : '!' ∉ "-wm-bd1 solid #fffi".toList.dropLast := by decide
  have read : declaration freshExpander.tables "-wm-bd1 solid #fffi".toList =
      { key := "bd", vendors := .explicit ["webkit", "moz"]
        args := [.numeric "1" "px" true, .word "solid", .color "ffffff" false (some "i")] } := by
    cbv
  have slots : slotCountOf (freshExpander.formatter? .standard "bd").1 = 3 := by cbv
  refine ⟨coherent, builtin, single, by cbv,
    (forall_markedOnce_iff coherent builtin _ single).mpr ?_⟩
  rw [read, slots]
  exact .inr (.inr ⟨by decide, rfl, by decide⟩)

/-- A flag adds a second mark to that of a suffix; behind a suffix that is not last stands the
fallback of the next slot. -/
theorem suffix_is_not_last :
    '!' ∉ "c#fffi!".toList.dropLast ∧
      (write freshExpander .standard (declaration freshExpander.tables "c#fffi!".toList)).1 =
        "color: #fff !important !important;" ∧
      ¬MarkedOnce "color: #fff !important !important;".toList ∧
      (write freshExpander .standard (declaration freshExpander.tables "bd#fffi".toList)).1 =
        "border: #fff !important #000;" ∧
      ¬MarkedOnce "border: #fff !important #000;".toList := by
  refine ⟨by decide, by cbv, fun marked => ?_, by cbv, fun marked => ?_⟩
  · exact absurd (@marked.last "color: #fff ".toList " !important;".toList rfl) (by decide)
  · exact absurd (@marked.last "border: #fff ".toList " #000;".toList rfl) (by decide)

end Shorthand.Style
