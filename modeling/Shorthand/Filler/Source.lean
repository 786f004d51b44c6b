/-! Random sources. A source gives whole numbers between two bounds, each time leaving the
source that gives the next. A stream of words is one: a choice among `n` scales a word by `n` and
takes the high part of the product. Words whose low part lies beyond the zone would favour some
choices, and are drawn again for as long as there are such words. -/
namespace Shorthand.Filler

/-- The type that numbers are drawn in, by its size. -/
inductive Width where
  | long
  | short

def Width.bits : Width → Nat
  | .long => 64
  | .short => 32

/-- A source of whole numbers between two bounds, which it keeps. -/
class Source (σ : Type) where
  /-- A number from `first` to `last`. -/
  choose (width : Width) (first last : Nat) : σ → Nat × σ
  choose_mem {width : Width} {first last : Nat} (ordered : first ≤ last)
    (fits : last < Nat.pow 2 width.bits) (s : σ) :
    first ≤ (choose width first last s).1 ∧ (choose width first last s).1 ≤ last

/-- A source of words. -/
class Stream (σ : Type) where
  word64 : σ → UInt64 × σ
  word32 : σ → UInt32 × σ

namespace Stream

variable {σ : Type} [Stream σ] {width : Width} {n : Nat}

/-- A word of the width. -/
def word : (width : Width) → σ → Fin (Nat.pow 2 width.bits) × σ
  | .long, s => let (word, s) := word64 s; (⟨word.toNat, word.toNat_lt⟩, s)
  | .short, s => let (word, s) := word32 s; (⟨word.toNat, word.toNat_lt⟩, s)

/-- The greatest low part that is accepted: `n` shifted to the top of a word, less one. -/
def zone (bits n : Nat) : Nat := n * Nat.pow 2 (bits - 1 - n.log2) - 1

theorem high_lt (word : Fin (Nat.pow 2 width.bits)) (positive : 0 < n) :
    word.val * n / Nat.pow 2 width.bits < n :=
  Nat.div_lt_of_lt_mul (Nat.mul_lt_mul_of_pos_right word.isLt positive)

/-- One draw for a choice among `n`: the high part of the product, or, where the word is refused,
the source that is left. -/
def attempt (width : Width) (positive : 0 < n) (s : σ) : σ ⊕ Fin n × σ :=
  let (drawn, s) := word width s
  if drawn.val * n % Nat.pow 2 width.bits ≤ zone width.bits n then
    .inr (⟨_, high_lt drawn positive⟩, s)
  else .inl s

/-- A choice among `n`: attempts, until a word is accepted. They go on for ever in a stream whose
words are all refused. -/
def scaled (width : Width) (positive : 0 < n) (s : σ) : Fin n × σ :=
  haveI : Nonempty (Fin n × σ) := ⟨⟨0, positive⟩, s⟩
  (repeatM (fun s => pure (attempt width positive s)) s : Id (Fin n × σ)).run

theorem scaled_eq (width : Width) (positive : 0 < n) (s : σ) :
    scaled width positive s =
      match attempt width positive s with
      | .inl s => scaled width positive s
      | .inr chosen => chosen := by
  have : Nonempty (Fin n × σ) := ⟨⟨0, positive⟩, s⟩
  refine (congrArg Id.run (repeatM_eq_of_monadTail s)).trans ?_
  simp only [repeatM.body, pure_bind]
  cases attempt width positive s <;> rfl

end Stream

instance {σ : Type} [Stream σ] : Source σ where
  choose width first last s :=
    let (offset, s) := Stream.scaled width (Nat.succ_pos (last - first)) s
    (first + offset.val, s)
  choose_mem {width first last} ordered _ s := by
    have bound := (Stream.scaled width (Nat.succ_pos (last - first)) s).1.isLt
    dsimp only
    omega

/-- A source that plays back a list of words and then zeros. A 32-bit word is the low
half of the next entry. -/
structure Recording where
  words : List UInt64

namespace Recording

def next (recording : Recording) : UInt64 × Recording :=
  match recording.words with
  | [] => (0, ⟨[]⟩)
  | word :: words => (word, ⟨words⟩)

instance : Stream Recording where
  word64 := next
  word32 recording := let (word, rest) := recording.next; (word.toUInt32, rest)

/-- A recording that has run out chooses the first number. -/
theorem choose_nil (width : Width) (first last : Nat) :
    Source.choose width first last (⟨[]⟩ : Recording) = (first, ⟨[]⟩) := by
  have accepted : Stream.attempt width (Nat.succ_pos (last - first)) (⟨[]⟩ : Recording) =
      .inr (0, ⟨[]⟩) := by
    cases width <;> simp [Stream.attempt, Stream.word, Stream.word64, Stream.word32, next]
  simp only [Source.choose, Stream.scaled_eq, accepted]
  rfl

end Recording

end Shorthand.Filler
