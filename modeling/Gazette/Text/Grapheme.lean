import Gazette.Text.Grapheme.Table

/-!
# Grapheme clusters

What a reader sees as one character can be a sequence of code points: a letter with its marks, a
syllable, a flag, a family of pictographs.  `clusters` divides a text into these sequences by the
rules of Unicode for extended grapheme clusters, and `leading` keeps the first of them.
-/

namespace Gazette.Text.Grapheme

/-! ## Classes of characters -/

/-- What a character is for the places where clusters end. -/
inductive BreakClass where
  | carriageReturn | lineFeed | control | extending | joiner | regional | prepended | spacing
  | leadingConsonant | vowel | trailingConsonant | openSyllable | closedSyllable | pictographic
  | other
  deriving DecidableEq, Repr

/-- The code point of the first syllable of Hangul. -/
def firstSyllable : Nat := 0xAC00

/-- The code point of the last syllable of Hangul. -/
def lastSyllable : Nat := 0xD7A3

/-- The code point of the sign of width zero that joins characters. -/
def joinerCode : Nat := 0x200D

/-- The code point of the sign of width zero that keeps characters apart. -/
def nonJoinerCode : Nat := 0x200C

/-- The class of a character. -/
def breakClass (c : Char) : BreakClass :=
  let n := c.toNat
  if n = 13 then .carriageReturn
  else if n = 10 then .lineFeed
  else if n = joinerCode then .joiner
  else if firstSyllable ≤ n ∧ n ≤ lastSyllable then
    if (n - firstSyllable) % 28 = 0 then .openSyllable else .closedSyllable
  else if 0x1F1E6 ≤ n ∧ n ≤ 0x1F1FF then .regional
  else if Table.contains n Table.control then .control
  else if Table.contains n Table.extending then .extending
  else if Table.contains n Table.spacing then .spacing
  else if Table.contains n Table.prepended then .prepended
  else if Table.contains n Table.leadingConsonant then .leadingConsonant
  else if Table.contains n Table.vowel then .vowel
  else if Table.contains n Table.trailingConsonant then .trailingConsonant
  else if Table.contains n Table.pictographic then .pictographic
  else .other

/-- What a character is in a conjunct: a consonant, the sign that links it to the next consonant, or
a mark that may stand between them. -/
inductive ConjunctClass where
  | consonant | linker | extending | none
  deriving DecidableEq, Repr

/-- The part of a character in conjuncts.  Marks that extend may stand in a conjunct unless they
link, and so may the joiner, but not the sign that keeps characters apart. -/
def conjunctClass (c : Char) : ConjunctClass :=
  let n := c.toNat
  if Table.contains n Table.consonant then .consonant
  else if Table.contains n Table.linker then .linker
  else if n = nonJoinerCode then .none
  else if n = joinerCode ∨ Table.contains n Table.extending then .extending
  else .none

/-! ## Clusters -/

/-- Where a text stands in a sequence of pictographs: not in one, after a pictograph and its marks,
or after a joiner that follows these. -/
inductive PictographState where
  | outside | after | joined
  deriving DecidableEq, Repr

/-- Where a text stands in a conjunct: not in one, after a consonant and its marks, or with a linker
among these. -/
inductive ConjunctState where
  | outside | after | linked
  deriving DecidableEq, Repr

/-- What has to be known of the text before a character: the class of the character before, whether
an odd number of regional indicators ends there, and the states of pictographs and conjuncts. -/
structure Context where
  last : BreakClass
  oddRegionals : Bool
  pictograph : PictographState
  conjunct : ConjunctState
  deriving DecidableEq, Repr

namespace Context

/-- The state of pictographs after a character of class `k`. -/
def nextPictograph (state : PictographState) (k : BreakClass) : PictographState :=
  match state, k with
  | _, .pictographic => .after
  | .after, .extending => .after
  | .after, .joiner => .joined
  | _, _ => .outside

/-- The state of conjuncts after a character of class `k`. -/
def nextConjunct (state : ConjunctState) (k : ConjunctClass) : ConjunctState :=
  match state, k with
  | _, .consonant => .after
  | .after, .linker => .linked
  | .after, .extending => .after
  | .linked, .linker => .linked
  | .linked, .extending => .linked
  | _, _ => .outside

/-- What is known after the first character of a text. -/
def start (c : Char) : Context :=
  let k := breakClass c
  ⟨k, k = .regional, nextPictograph .outside k, nextConjunct .outside (conjunctClass c)⟩

/-- What is known after one more character. -/
def next (context : Context) (c : Char) : Context :=
  let k := breakClass c
  ⟨k, k = .regional && !context.oddRegionals, nextPictograph context.pictograph k,
    nextConjunct context.conjunct (conjunctClass c)⟩

/-- Whether a class of characters stands alone in its cluster. -/
def isControl (k : BreakClass) : Bool := k = .control || k = .carriageReturn || k = .lineFeed

/-- Whether Hangul letters of these classes, in this order, belong to one syllable. -/
def isSyllable : BreakClass → BreakClass → Bool
  | .leadingConsonant, k =>
    k = .leadingConsonant || k = .vowel || k = .openSyllable || k = .closedSyllable
  | .openSyllable, k | .vowel, k => k = .vowel || k = .trailingConsonant
  | .closedSyllable, k | .trailingConsonant, k => k = .trailingConsonant
  | _, _ => false

/-- Whether `c` belongs to the cluster of the text before it. -/
def joins (context : Context) (c : Char) : Bool :=
  let k := breakClass c
  if context.last = .carriageReturn ∧ k = .lineFeed then true
  else if isControl context.last || isControl k then false
  else
    isSyllable context.last k || k = .extending || k = .joiner || k = .spacing ||
      context.last = .prepended ||
      (context.conjunct = .linked && conjunctClass c = .consonant) ||
      (context.pictograph = .joined && k = .pictographic) ||
      (context.oddRegionals && k = .regional)

end Context

/-- The characters that still belong to a cluster, and the text after them. -/
def takeRest (context : Context) : List Char → List Char × List Char
  | [] => ([], [])
  | c :: rest =>
    if context.joins c then
      let (cluster, after) := takeRest (context.next c) rest
      (c :: cluster, after)
    else ([], c :: rest)

theorem takeRest_append (context : Context) (cs : List Char) :
    (takeRest context cs).1 ++ (takeRest context cs).2 = cs := by
  induction cs generalizing context with
  | nil => rfl
  | cons c rest ih =>
    simp only [takeRest]
    split
    · simpa using ih (context.next c)
    · rfl

theorem length_takeRest_le (context : Context) (cs : List Char) :
    (takeRest context cs).2.length ≤ cs.length := by
  have h := congrArg List.length (takeRest_append context cs)
  simp only [List.length_append] at h
  omega

/-- The clusters of a text, in order. -/
def clusters : List Char → List (List Char)
  | [] => []
  | c :: rest =>
    (c :: (takeRest (.start c) rest).1) :: clusters (takeRest (.start c) rest).2
termination_by cs => cs.length
decreasing_by
  have := length_takeRest_le (.start c) rest
  simp only [List.length_cons]
  omega

/-- The first `n` clusters of a text. -/
def leading (n : Nat) (cs : List Char) : List Char := ((clusters cs).take n).flatten

/-- Nothing is lost. -/
theorem flatten_clusters (cs : List Char) : (clusters cs).flatten = cs := by
  fun_induction clusters cs with
  | case1 => rfl
  | case2 c rest ih => simp [ih, takeRest_append]

end Gazette.Text.Grapheme
