import Mathlib
import Shorthand.Expander
import Shorthand.Proofs.Aliases.Alike
import Shorthand.Proofs.Aliases.Fixed

/-! Remembering changes no meaning. Where every cycle is noticed, an abbreviation that can
be read afresh is read to the same tree when other abbreviations have been read before.
A cycle that goes unnoticed makes the difference: the tree of one of its aliases may be
remembered as it is where the cycle was entered. -/
namespace Shorthand.Abbreviation

variable {limits : Limits} {aliases : AliasTable} {memory : Memory}

/-- Before anything is read, there is nothing to be wrong about. -/
theorem sound_start (limits : Limits) (aliases : AliasTable) : Sound limits aliases { aliases } where
  entries := fun _ => .inl rfl
  cyclic := by simp

/-- Between two abbreviations only the alias table is kept. -/
theorem Sound.forget (sound : Sound limits aliases memory) :
    Sound limits aliases { aliases := memory.aliases } where
  entries := sound.entries
  cyclic := by simp

theorem Sound.extends_start (sound : Sound limits aliases memory) :
    Extends aliases memory.aliases := by
  apply (sound_start limits aliases).extends sound
  intro name tree parsed
  rcases sound.entries name with same | ⟨tree', met, settles, -, -⟩
  · exact .inl (same.trans parsed)
  · obtain ⟨text, source⟩ := settles.source
    rw [source] at parsed
    simp at parsed

/-- The text to be read, without the filters behind it. -/
abbrev unfiltered (abbreviation : String) : List Char := (splitFilters abbreviation.toList).1

theorem Sound.read (notices : NoticesCycles limits aliases) (sound : Sound limits aliases memory)
    (abbreviation : String) :
    Sound limits aliases { aliases := (read limits memory.aliases abbreviation).1 } :=
  (sound.forget.run notices (whole_asksWith limits limits.maxDepth (unfiltered abbreviation))
    opened_nil fun _ _ => asked_nil).sound.forget

/-- What is known when reading starts does not matter to what is read, unless the reading that
knows nothing is given up inside an alias that is known. -/
theorem Sound.read_alike (notices : NoticesCycles limits aliases)
    (sound : Sound limits aliases memory) (abbreviation : String) :
    GivenUpInside memory.aliases (whole limits limits.maxDepth (unfiltered abbreviation)) []
        { aliases } ∨
      (Abbreviation.read limits aliases abbreviation).2 =
        (Abbreviation.read limits memory.aliases abbreviation).2 := by
  have beside : Beside memory.aliases { aliases } { aliases := memory.aliases } :=
    ⟨sound.extends_start, fun _ _ => .inr⟩
  have alike := run_alike notices (whole_asksWith limits limits.maxDepth (unfiltered abbreviation))
    opened_nil (fun _ _ => asked_nil) (sound_start limits aliases) sound.forget beside
  exact alike.imp_right fun ⟨same, _⟩ => congrArg (Except.map (withFilters _)) same

theorem tooDeep_read {abbreviation : String} :
    TooDeep (read limits aliases abbreviation).2 ↔
      TooDeep ((whole limits limits.maxDepth (unfiltered abbreviation)).run [] { aliases }).2 :=
  exists_congr fun _ => map_eq_error

/-- So what can be read without is read the same. -/
theorem Sound.read_again (notices : NoticesCycles limits aliases)
    (sound : Sound limits aliases memory) {abbreviation : String} {tree : Node}
    (fresh : (Abbreviation.read limits aliases abbreviation).2 = .ok tree) :
    (Abbreviation.read limits memory.aliases abbreviation).2 = .ok tree := by
  obtain inside | same := sound.read_alike notices abbreviation
  · obtain ⟨limit, deep⟩ := tooDeep_read.mpr inside.1
    rw [fresh] at deep
    contradiction
  · exact same.symm.trans fresh

end Shorthand.Abbreviation

namespace Shorthand.Expander

open Abbreviation

/-- The expander after it has read the abbreviations, whatever came of them. -/
def readAll (expander : Expander) (abbreviations : List String) : Expander :=
  abbreviations.foldl (fun expander abbreviation => (expander.read abbreviation).2) expander

variable {expander : Expander}

theorem readAll_cons (abbreviation : String) (abbreviations : List String) :
    expander.readAll (abbreviation :: abbreviations) =
      (expander.read abbreviation).2.readAll abbreviations := rfl

theorem limits_readAll (abbreviations : List String) :
    (expander.readAll abbreviations).limits = expander.limits := by
  induction abbreviations generalizing expander with
  | nil => rfl
  | cons abbreviation abbreviations ih => exact ih

theorem sound_readAll {aliases : AliasTable} (notices : NoticesCycles expander.limits aliases)
    (sound : Sound expander.limits aliases { aliases := expander.tables.aliases })
    (abbreviations : List String) :
    Sound expander.limits aliases
      { aliases := (expander.readAll abbreviations).tables.aliases } := by
  induction abbreviations generalizing expander with
  | nil => exact sound
  | cons abbreviation abbreviations ih =>
    rw [readAll_cons]
    exact @ih (expander.read abbreviation).2 notices (sound.read notices abbreviation)

/-- Where every cycle is noticed, what was read before does not change what is read. -/
theorem read_readAll (notices : NoticesCycles expander.limits expander.tables.aliases)
    (abbreviations : List String) (abbreviation : String) {tree : Node}
    (fresh : (expander.read abbreviation).1 = .ok tree) :
    ((expander.readAll abbreviations).read abbreviation).1 = .ok tree := by
  have sound := sound_readAll notices (sound_start _ _) abbreviations
  have again : (Abbreviation.read expander.limits _ abbreviation).2 = .ok tree :=
    sound.read_again notices fresh
  rw [← limits_readAll abbreviations] at again
  exact again

/-- An expander without other tables. -/
def ofAliases (texts : List (String × String)) : Expander :=
  { tables := { aliases := texts.map fun (name, text) => (name, .source text) }
    source := .ofSeed 0 }

/-- The aliases `x` and `y` reach each other, wherever one begins. -/
def ring : Expander := ofAliases [("x", "y.fromx"), ("y", "x.fromy"), ("z", "x"), ("x+", "z>y")]

/-- Reading aliases of a cycle, with and without success, leaves their meaning as it was. -/
theorem read_readAll_ring :
    ((ring.readAll ["x", "z>", "z"]).read "z+").1 = .ok (.nested
      { name := .ofText "x", classes := [.ofText "fromy", .ofText "fromx"] }
      (.tag { name := .ofText "y", classes := [.ofText "fromx", .ofText "fromy"] })) := by
  have notices : NoticesCycles ring.limits ring.tables.aliases :=
    noticesCycles_of_joinsOperands _ (by decide)
  exact read_readAll notices _ _ (by cbv)

/-- The aliases `n` and `q` reach each other, but not where `n` begins: inside `n`, the
text of `q` asks for `m+` and not for `q+`. -/
def crossing : Expander :=
  ofAliases [("q", "m+"), ("m", "q"), ("m+", "z"), ("q+", "n"), ("n", "m")]

/-- So what `q` stands for inside `n` is remembered for `n`, and changes what `q` is. -/
theorem read_changes_unnoticed_cycle :
    (crossing.read "q").1 = .ok (.tag { name := .ofText "q" }) ∧
      ((crossing.readAll ["n"]).read "q").1 ≠ .ok (.tag { name := .ofText "q" }) := by
  have used : ((crossing.readAll ["n"]).read "q").1 = .ok (.tag { name := .ofText "z" }) := by cbv
  constructor
  · cbv
  · rw [used]
    intro same
    have name := congrArg Tag.name (Node.tag.inj (Except.ok.inj same))
    exact absurd name (by decide)

end Shorthand.Expander
