import Shorthand.Filler.Source

/-! Filler text. Text is written sentence by sentence. A sentence draws its length,
which is cut to the words still owed, a place in the corpus to read from, and its
closing mark; it begins with a capital letter and loses the marks that its last
word had in the corpus. -/
namespace Shorthand.Filler

def corpus : Vector String 198 :=
  #v["lorem", "ipsum", "dolor", "sit", "amet,", "consectetur", "adipisicing", "elit.", "sed",
    "do", "eiusmod", "tempor", "incididunt", "ut", "labore", "et", "dolore", "magna", "aliqua.",
    "ut", "enim", "ad", "minim", "veniam,", "quis", "nostrud", "exercitation", "ullamco",
    "laboris", "nisi", "ut", "aliquip", "ex", "ea", "commodo", "consequat.", "duis", "aute",
    "irure", "dolor", "in", "reprehenderit", "in", "voluptate", "velit", "esse", "cillum",
    "dolore", "eu", "fugiat", "nulla", "pariatur.", "excepteur", "sint", "occaecat",
    "cupidatat", "non", "proident,", "sunt", "in", "culpa", "qui", "officia", "deserunt",
    "mollit", "anim", "id", "est", "laborum.", "sed", "ut", "perspiciatis", "unde", "omnis",
    "iste", "natus", "error", "sit", "voluptatem", "accusantium", "doloremque", "laudantium,",
    "totam", "rem", "aperiam,", "eaque", "ipsa", "quae", "ab", "illo", "inventore", "veritatis",
    "et", "quasi", "architecto", "beatae", "vitae", "dicta", "sunt", "explicabo.", "nemo",
    "enim", "ipsam", "voluptatem", "quia", "voluptas", "sit", "aspernatur", "aut", "odit",
    "aut", "fugit,", "sed", "quia", "consequuntur", "magni", "dolores", "eos", "qui", "ratione",
    "voluptatem", "sequi", "nesciunt.", "neque", "porro", "quisquam", "est,", "qui", "dolorem",
    "ipsum", "quia", "dolor", "sit", "amet,", "consectetur,", "adipisci", "velit,", "sed",
    "quia", "non", "numquam", "eius", "modi", "tempora", "incidunt", "ut", "labore", "et",
    "dolore", "magnam", "aliquam", "quaerat", "voluptatem.", "ut", "enim", "ad", "minima",
    "veniam,", "quis", "nostrum", "exercitationem", "ullam", "corporis", "suscipit",
    "laboriosam,", "nisi", "ut", "aliquid", "ex", "ea", "commodi", "consequatur?", "quis",
    "autem", "vel", "eum", "iure", "reprehenderit", "qui", "in", "ea", "voluptate", "velit",
    "esse", "quam", "nihil", "molestiae", "consequatur,", "vel", "illum", "qui", "dolorem",
    "eum", "fugiat", "quo", "voluptas", "nulla", "pariatur?"]

def minSentence : Nat := 5

def maxSentence : Nat := 30

/-- Consecutive words of the corpus, from the top again after its end. -/
def wordsFrom (start length : Nat) : List String :=
  (List.range length).map fun i => corpus[(start + i) % 198]

def capitalize (word : String) : String :=
  match word.toList with
  | [] => ""
  | c :: rest => String.ofList (c.toUpper :: rest)

def isMark (c : Char) : Bool := c == ',' || c == '.' || c == '?' || c == '!'

/-- A word with the closing mark in place of its own marks. -/
def closeWord (mark : Char) (word : String) : String :=
  String.ofList ((word.toList.reverse.dropWhile isMark).reverse ++ [mark])

/-- A full stop is twice as likely as either other mark. -/
def closingMark : Nat → Char
  | 0 => '!'
  | 1 => '?'
  | _ => '.'

def capitalizeFirst : List String → List String
  | [] => []
  | word :: rest => capitalize word :: rest

def closeLast (mark : Char) : List String → List String
  | [] => []
  | [word] => [closeWord mark word]
  | word :: next :: rest => word :: closeLast mark (next :: rest)

section
variable {σ : Type} [Source σ]

def sentence (length : Nat) (s : σ) : String × σ :=
  let (start, s) := Source.choose .long 0 197 s
  let (mark, s) := Source.choose .short 0 3 s
  (" ".intercalate (closeLast (closingMark mark) (capitalizeFirst (wordsFrom start length))), s)

/-- How many words the next sentence takes of those that are owed. -/
def sentenceLength (owed : Nat) (s : σ) : Nat × σ :=
  let (length, s) := Source.choose .long minSentence maxSentence s
  (min length owed, s)

theorem sentenceLength_spec (owed : Nat) (s : σ) :
    ∃ drawn, minSentence ≤ drawn ∧ drawn ≤ maxSentence ∧ (sentenceLength owed s).1 = min drawn owed := by
  let drawn := (Source.choose .long minSentence maxSentence s).1
  have bounds : minSentence ≤ drawn ∧ drawn ≤ maxSentence :=
    Source.choose_mem (by decide) (by decide) s
  exact ⟨drawn, bounds.1, bounds.2, rfl⟩

/-- The sentences still owed; `before` holds those written, last first. -/
def sentences (before : List String) (owed : Nat) (s : σ) : List String × σ :=
  if owed = 0 then (before.reverse, s)
  else
    let drawn := sentenceLength owed s
    let written := sentence drawn.1 drawn.2
    sentences (written.1 :: before) (owed - drawn.1) written.2
termination_by owed
decreasing_by
  -- a sentence takes some word, as long as any is owed
  obtain ⟨length, least, -, taken⟩ := sentenceLength_spec owed s
  simp only [minSentence] at least
  omega

/-- Text of `count` words. -/
def text (count : Nat) (s : σ) : String × σ :=
  let (parts, s) := sentences [] count s
  (" ".intercalate parts, s)

end

end Shorthand.Filler
