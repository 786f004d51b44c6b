import Mathlib
import Shorthand.Proofs.Aliases.Remembering

/-! How deep reading goes, with and without what was read before. The limit on nesting is there
for the reading itself: the text of an alias takes room where it is read, and a tree that is
remembered takes none. So reading before never makes reading too deep, and spares it that only
inside the text of an alias whose tree is remembered. -/
namespace Shorthand.Expander

open Abbreviation

variable {expander : Expander}

/-- The aliases inside whose texts the reading of an abbreviation ends, the latest first. -/
def endsInside (expander : Expander) (abbreviation : String) : List String :=
  (whole expander.limits expander.limits.maxDepth (unfiltered abbreviation)).endsInside []
    { aliases := expander.tables.aliases }

/-- Where every cycle is noticed, an abbreviation that is nested too deep after others have been
read is nested too deep by itself; and one that is so by itself is so after others, too, unless
its reading is given up inside an alias whose tree has been remembered from them. -/
theorem tooDeep_readAll (notices : NoticesCycles expander.limits expander.tables.aliases)
    (abbreviations : List String) (abbreviation : String) :
    (TooDeep ((expander.readAll abbreviations).read abbreviation).1 →
        TooDeep (expander.read abbreviation).1) ∧
      (TooDeep (expander.read abbreviation).1 →
        TooDeep ((expander.readAll abbreviations).read abbreviation).1 ∨
          ∃ name ∈ expander.endsInside abbreviation, ∃ tree,
            (expander.readAll abbreviations).tables.aliases.get? name = some (.parsed tree)) := by
  have sound := sound_readAll notices (sound_start _ _) abbreviations
  have used : ((expander.readAll abbreviations).read abbreviation).1 =
      (Abbreviation.read expander.limits (expander.readAll abbreviations).tables.aliases
        abbreviation).2 := by
    rw [← limits_readAll abbreviations]
    rfl
  have fresh : (expander.read abbreviation).1 =
      (Abbreviation.read expander.limits expander.tables.aliases abbreviation).2 := rfl
  rw [used, fresh]
  obtain ⟨deep, inside⟩ | same := sound.read_alike notices abbreviation
  · exact ⟨fun _ => tooDeep_read.mpr deep, fun _ => .inr inside⟩
  · rw [same]
    exact ⟨id, .inl⟩

/-- The text of `x` takes two levels; there is room for three. -/
def shallow : Expander := { ofAliases [("x", "a>b")] with limits := { maxDepth := 3 } }

/-- What is nested too deep outside the alias is so whether the alias is known or not. -/
theorem tooDeep_readAll_shallow :
    TooDeep ((shallow.readAll ["x"]).read "x>p>(p>q)").1 ∧
      TooDeep (shallow.read "x>p>(p>q)").1 := by
  have notices : NoticesCycles shallow.limits shallow.tables.aliases :=
    noticesCycles_of_joinsOperands _ (by decide)
  have deep : TooDeep (shallow.read "x>p>(p>q)").1 := ⟨3, by cbv⟩
  have outside : shallow.endsInside "x>p>(p>q)" = [] := by cbv
  obtain ⟨alone, after⟩ := tooDeep_readAll notices ["x"] "x>p>(p>q)"
  obtain known | ⟨name, inside, -⟩ := after deep
  · exact ⟨known, alone known⟩
  · rw [outside] at inside
    contradiction

/-- The aliases `n` and `q` reach each other, but not where `n` begins; the text of `z+` takes
all the room there is. -/
def detour : Expander :=
  { ofAliases [("q", "m+"), ("m", "q"), ("m+", "z"), ("q+", "n"), ("n", "m"),
      ("z+", "((((((a))))))")] with limits := { maxDepth := 6 } }

/-- Reading before spares an abbreviation the limit where it would be passed inside an alias.
And where a cycle goes unnoticed, it makes another abbreviation pass the limit: `q` is
remembered as `z` from inside `n`, so that `z+` is read in place of `q+`. -/
theorem tooDeep_changes_with_reading :
    (TooDeep (shallow.read "p>p>x").1 ∧ ¬TooDeep ((shallow.readAll ["x"]).read "p>p>x").1) ∧
      ¬TooDeep (detour.read "q+").1 ∧ TooDeep ((detour.readAll ["n"]).read "q+").1 := by
  have known : ((shallow.readAll ["x"]).read "p>p>x").1.toOption.isSome := by cbv
  have fresh : (detour.read "q+").1.toOption.isSome := by cbv
  refine ⟨⟨⟨3, by cbv⟩, ?_⟩, ?_, ⟨6, by cbv⟩⟩
  · rintro ⟨limit, deep⟩
    rw [deep] at known
    contradiction
  · rintro ⟨limit, deep⟩
    rw [deep] at fresh
    contradiction

end Shorthand.Expander
