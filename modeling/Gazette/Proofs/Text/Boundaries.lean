import Gazette.Text.Grapheme
import Mathlib.Data.List.DropRight
import Mathlib.Data.List.Induction
import Mathlib.Tactic.Common

/-!
# Boundaries of grapheme clusters

The rules of Unicode for extended grapheme clusters say of each place in a text whether a cluster
ends there, by the whole text before the place and the character after it (`Together`,
`IsBoundary`).  A segmentation is a list of pieces that end exactly at the boundaries
(`IsSegmentation`).

Clusters are found by a state that starts again with each cluster.  The state of the text from its
beginning (`contextOf`) holds what the rules ask for (`joins_contextOf_iff`), and where a cluster
ends nothing of it is left (`next_contextOf`); so `clusters` is the only segmentation of a text
(`isSegmentation_iff`), and its first pieces are the segmentation of what they make up
(`IsSegmentation.take`).
-/

namespace Gazette.Text.Grapheme

/-! ## Ranges of code points -/

namespace Table

variable {code : Nat} {ranges others : List (Nat × Nat)} {r : Nat × Nat}

theorem exists_range_of_contains (h : contains code ranges) :
    ∃ r ∈ ranges, r.1 ≤ code ∧ code ≤ r.2 := by
  induction ranges with
  | nil => cases h
  | cons q rest ih =>
    rw [contains] at h
    split at h
    · cases h
    · rename_i hlo
      rcases Bool.or_eq_true_iff.1 h with hhi | h
      · exact ⟨q, by simp, Nat.le_of_not_lt hlo, of_decide_eq_true hhi⟩
      · obtain ⟨r, hr, hcode⟩ := ih h
        exact ⟨r, List.mem_cons_of_mem _ hr, hcode⟩

theorem contains_of_mem (hsorted : ranges.Pairwise fun r q => r.1 ≤ q.1) (hr : r ∈ ranges)
    (hlo : r.1 ≤ code) (hhi : code ≤ r.2) : contains code ranges := by
  induction ranges with
  | nil => cases hr
  | cons q rest ih =>
    rw [List.pairwise_cons] at hsorted
    rw [contains]
    rcases List.mem_cons.1 hr with rfl | hr
    · simp [Nat.not_lt.2 hlo, hhi]
    · simp [Nat.not_lt.2 ((hsorted.1 r hr).trans hlo), ih hsorted.2 hr]

/-- Whether each range lies within one of the others. -/
def isWithin (ranges others : List (Nat × Nat)) : Bool :=
  ranges.all fun r => others.any fun q => q.1 ≤ r.1 && r.2 ≤ q.2

/-- Whether no range meets one of the others. -/
def isApart (ranges others : List (Nat × Nat)) : Bool :=
  ranges.all fun r => others.all fun q => r.2 < q.1 || q.2 < r.1

theorem contains_of_isWithin (h : isWithin ranges others)
    (hsorted : others.Pairwise fun r q => r.1 ≤ q.1) (hcode : contains code ranges) :
    contains code others := by
  obtain ⟨r, hr, hlo, hhi⟩ := exists_range_of_contains hcode
  simp only [isWithin, List.all_eq_true, List.any_eq_true, Bool.and_eq_true,
    decide_eq_true_iff] at h
  obtain ⟨q, hq, hqlo, hqhi⟩ := h r hr
  exact contains_of_mem hsorted hq (hqlo.trans hlo) (hhi.trans hqhi)

theorem not_mem_of_isApart (h : isApart ranges others) (hcode : contains code ranges)
    (hr : r ∈ others) : ¬(r.1 ≤ code ∧ code ≤ r.2) := by
  obtain ⟨q, hq, hlo, hhi⟩ := exists_range_of_contains hcode
  simp only [isApart, List.all_eq_true, Bool.or_eq_true, decide_eq_true_iff] at h
  have hapart := h q hq r hr
  omega

/-- The code points that are looked at before those of the tables: the ends of lines, Hangul
syllables and regional indicators. -/
def calculated : List (Nat × Nat) :=
  [(10, 10), (13, 13), (firstSyllable, lastSyllable), (0x1F1E6, 0x1F1FF)]

/-- What a code point is not, if its ranges are apart from these. -/
theorem outside_of_isApart (h : isApart ranges (calculated ++ control))
    (hcode : contains code ranges) : code ≠ 10 ∧ code ≠ 13 ∧
      ¬(firstSyllable ≤ code ∧ code ≤ lastSyllable) ∧ ¬(0x1F1E6 ≤ code ∧ code ≤ 0x1F1FF) ∧
      ¬contains code control := by
  have hapart : ∀ r ∈ calculated ++ control, ¬(r.1 ≤ code ∧ code ≤ r.2) :=
    fun r => not_mem_of_isApart h hcode
  have hcontrol : ¬contains code control := fun hcontrol => by
    obtain ⟨r, hr, hrange⟩ := exists_range_of_contains hcontrol
    exact hapart r (List.mem_append_right _ hr) hrange
  simp only [calculated, List.cons_append, List.nil_append, List.mem_cons, forall_eq_or_imp]
    at hapart
  obtain ⟨hfeed, hreturn, hsyllable, hregional, -⟩ := hapart
  exact ⟨by omega, by omega, hsyllable, hregional, hcontrol⟩

theorem extending_apart : isApart extending (calculated ++ control) := by decide +kernel

theorem consonant_apart : isApart consonant (calculated ++ control) := by decide +kernel

theorem linker_within : isWithin linker extending := by decide +kernel

theorem extending_sorted : extending.Pairwise fun r q => r.1 ≤ q.1 := by
  have hchain : extending.IsChain fun r q => r.1 ≤ q.1 := by decide +kernel
  have : IsTrans (Nat × Nat) fun r q => r.1 ≤ q.1 := ⟨fun _ _ _ => Nat.le_trans⟩
  exact List.isChain_iff_pairwise.1 hchain

end Table

/-! ## Classes of characters -/

variable {c : Char}

theorem breakClass_of_extending (h : Table.contains c.toNat Table.extending) :
    breakClass c = .extending ∨ breakClass c = .joiner := by
  obtain ⟨hfeed, hreturn, hsyllable, hregional, hcontrol⟩ :=
    Table.outside_of_isApart Table.extending_apart h
  unfold breakClass
  dsimp only
  rw [if_neg hreturn, if_neg hfeed, if_neg hsyllable, if_neg hregional, if_neg hcontrol, if_pos h]
  split
  · exact .inr rfl
  · exact .inl rfl

/-- Marks of conjuncts extend the character before them. -/
theorem breakClass_of_mark (h : conjunctClass c = .linker ∨ conjunctClass c = .extending) :
    breakClass c = .extending ∨ breakClass c = .joiner := by
  have hmark : c.toNat = joinerCode ∨ Table.contains c.toNat Table.extending := by
    unfold conjunctClass at h
    dsimp only at h
    split_ifs at h with _ hlinker _ hmark
    · simp at h
    · exact .inr (Table.contains_of_isWithin Table.linker_within Table.extending_sorted hlinker)
    · simp at h
    · exact hmark
    · simp at h
  rcases hmark with hjoiner | hextending
  · refine .inr ?_
    unfold breakClass
    rw [hjoiner]
    rfl
  · exact breakClass_of_extending hextending

theorem isControl_of_consonant (h : conjunctClass c = .consonant) :
    Context.isControl (breakClass c) = false := by
  have hconsonant : Table.contains c.toNat Table.consonant := by
    by_contra hnot
    unfold conjunctClass at h
    dsimp only at h
    rw [if_neg hnot] at h
    split_ifs at h
  obtain ⟨hfeed, hreturn, -, -, hcontrol⟩ :=
    Table.outside_of_isApart Table.consonant_apart hconsonant
  unfold breakClass
  dsimp only
  rw [if_neg hreturn, if_neg hfeed, if_neg hcontrol]
  split_ifs <;> rfl

/-! ## The rules -/

/-- Whether a text ends with a character of a class. -/
def Ends (before : List Char) (k : BreakClass) : Prop :=
  ∃ front last, before = front ++ [last] ∧ breakClass last = k

/-- Whether a text ends with a pictograph and any number of marks that extend it. -/
def EndsPictograph (before : List Char) : Prop :=
  ∃ front first marks, before = front ++ first :: marks ∧ breakClass first = .pictographic ∧
    ∀ m ∈ marks, breakClass m = .extending

/-- Whether a text ends with a consonant and marks of a conjunct, and whether one of these links the
consonant to the next. -/
def EndsConjunct (before : List Char) (linked : Bool) : Prop :=
  ∃ front first marks, before = front ++ first :: marks ∧ conjunctClass first = .consonant ∧
    (∀ m ∈ marks, conjunctClass m = .linker ∨ conjunctClass m = .extending) ∧
    (linked ↔ ∃ m ∈ marks, conjunctClass m = .linker)

/-- Whether a text ends with an odd number of regional indicators. -/
def EndsOddRegionals (before : List Char) : Prop :=
  (before.rtakeWhile fun r => breakClass r = .regional).length % 2 = 1

/-- The rules GB6 to GB13, which keep a character with the text before it. -/
inductive Keeps (before : List Char) (c : Char) : Prop
  -- the letters of a Hangul syllable (GB6, GB7, GB8)
  | leadingConsonant (hbefore : Ends before .leadingConsonant)
    (hc : breakClass c ∈ [.leadingConsonant, .vowel, .openSyllable, .closedSyllable])
  | vowel (hbefore : Ends before .openSyllable ∨ Ends before .vowel)
    (hc : breakClass c ∈ [.vowel, .trailingConsonant])
  | trailingConsonant (hbefore : Ends before .closedSyllable ∨ Ends before .trailingConsonant)
    (hc : breakClass c = .trailingConsonant)
  -- marks after a character and signs before it (GB9, GB9a, GB9b)
  | extending (hc : breakClass c = .extending ∨ breakClass c = .joiner)
  | spacing (hc : breakClass c = .spacing)
  | prepended (hbefore : Ends before .prepended)
  -- linked consonants, joined pictographs and flags (GB9c, GB11, GB12 and GB13)
  | conjunct (hbefore : EndsConjunct before true) (hc : conjunctClass c = .consonant)
  | pictograph (front : List Char) (joiner : Char) (hbefore : before = front ++ [joiner])
    (hfront : EndsPictograph front) (hjoiner : breakClass joiner = .joiner)
    (hc : breakClass c = .pictographic)
  | regional (hbefore : EndsOddRegionals before) (hc : breakClass c = .regional)

/-- Whether a character goes on with the cluster of the text before it: a line feed after a carriage
return, and otherwise, if neither side is a control, by the other rules (GB3 to GB13). -/
def Together (before : List Char) (c : Char) : Prop :=
  (Ends before .carriageReturn ∧ breakClass c = .lineFeed) ∨
    ((∀ k, Ends before k → Context.isControl k = false) ∧
      Context.isControl (breakClass c) = false ∧ Keeps before c)

/-- Whether a cluster ends between two parts of a text.  The ends of the text are boundaries (GB1,
GB2), and so is every place where nothing keeps its sides together (GB999). -/
def IsBoundary (before : List Char) : List Char → Prop
  | [] => True
  | c :: _ => before = [] ∨ ¬Together before c

/-- Whether a text is divided into pieces, none of them empty, that end exactly at its
boundaries. -/
structure IsSegmentation (pieces : List (List Char)) (cs : List Char) : Prop where
  flatten_eq : pieces.flatten = cs
  ne_nil : ∀ piece ∈ pieces, piece ≠ []
  isBoundary_iff : ∀ before after, before ++ after = cs →
    (IsBoundary before after ↔ ∃ n, before = (pieces.take n).flatten)

/-! ## The state of a whole text -/

/-- The state before a text. -/
def Context.blank : Context := ⟨.other, false, .outside, .outside⟩

theorem Context.next_blank (c : Char) : Context.blank.next c = .start c := by
  simp [next, start, blank]

/-- The state after a text, read from its beginning. -/
def contextOf (before : List Char) : Context := before.foldl Context.next .blank

variable {before : List Char} {k : BreakClass}

@[simp]
theorem contextOf_append_singleton (before : List Char) (c : Char) :
    contextOf (before ++ [c]) = (contextOf before).next c := by
  rw [contextOf, List.foldl_append]
  rfl

/-- A part of a text that goes on to its end goes on to the end of the text without the last
character, unless it is that character. -/
theorem exists_suffix_append_singleton_iff {p : Char → List Char → Prop} :
    (∃ front first marks, before ++ [c] = front ++ first :: marks ∧ p first marks) ↔
      p c [] ∨ ∃ front first marks, before = front ++ first :: marks ∧ p first (marks ++ [c]) := by
  constructor
  · rintro ⟨front, first, marks, heq, hp⟩
    rcases List.eq_nil_or_concat marks with rfl | ⟨marks, last, rfl⟩
    · obtain ⟨-, rfl⟩ := List.append_singleton_inj.1 heq
      exact .inl hp
    · rw [List.concat_eq_append, ← List.cons_append, ← List.append_assoc] at heq
      obtain ⟨rfl, rfl⟩ := List.append_singleton_inj.1 heq
      exact .inr ⟨front, first, marks, rfl, by simpa using hp⟩
  · rintro (hp | ⟨front, first, marks, rfl, hp⟩)
    · exact ⟨before, c, [], rfl, hp⟩
    · exact ⟨front, first, marks ++ [c], by simp, hp⟩

/-! ### The last character -/

@[simp]
theorem ends_append_singleton_iff : Ends (before ++ [c]) k ↔ breakClass c = k := by
  refine ⟨?_, fun h => ⟨before, c, rfl, h⟩⟩
  rintro ⟨front, last, heq, h⟩
  obtain ⟨-, rfl⟩ := List.append_singleton_inj.1 heq
  exact h

theorem not_ends_nil : ¬Ends [] k := by
  rintro ⟨front, last, heq, -⟩
  simp at heq

theorem last_contextOf_iff (hk : k ≠ .other) : (contextOf before).last = k ↔ Ends before k := by
  rcases List.eq_nil_or_concat before with rfl | ⟨front, c, rfl⟩
  · exact iff_of_false hk.symm not_ends_nil
  · rw [List.concat_eq_append, contextOf_append_singleton, ends_append_singleton_iff]
    rfl

theorem isControl_last_contextOf_iff : Context.isControl (contextOf before).last = false ↔
    ∀ k, Ends before k → Context.isControl k = false := by
  rcases List.eq_nil_or_concat before with rfl | ⟨front, c, rfl⟩
  · exact iff_of_true rfl fun k h => absurd h not_ends_nil
  · rw [List.concat_eq_append, contextOf_append_singleton]
    simp only [ends_append_singleton_iff, forall_eq']
    rfl

/-! ### Regional indicators -/

theorem endsOddRegionals_append_singleton_iff : EndsOddRegionals (before ++ [c]) ↔
    breakClass c = .regional ∧ ¬EndsOddRegionals before := by
  unfold EndsOddRegionals
  rw [List.rtakeWhile_concat]
  split
  · rename_i hc
    rw [List.length_append, List.length_singleton, decide_eq_true_iff.1 hc]
    simp only [true_and]
    omega
  · rename_i hc
    simp_all

theorem oddRegionals_contextOf_iff : (contextOf before).oddRegionals ↔ EndsOddRegionals before := by
  induction before using List.reverseRecOn with
  | nil => exact iff_of_false Bool.false_ne_true (by simp [EndsOddRegionals])
  | append_singleton before c ih =>
    rw [contextOf_append_singleton, endsOddRegionals_append_singleton_iff, ← ih]
    simp [Context.next]

/-! ### Pictographs -/

theorem endsPictograph_append_singleton_iff : EndsPictograph (before ++ [c]) ↔
    breakClass c = .pictographic ∨ (EndsPictograph before ∧ breakClass c = .extending) := by
  unfold EndsPictograph
  rw [exists_suffix_append_singleton_iff]
  simp only [List.not_mem_nil, false_imp_iff, implies_true, and_true, List.mem_append,
    List.mem_singleton, or_imp, forall_and, forall_eq, ← and_assoc, exists_and_right]

theorem nextPictograph_eq_after_iff {state : PictographState} :
    Context.nextPictograph state k = .after ↔
      k = .pictographic ∨ (state = .after ∧ k = .extending) := by
  cases state <;> cases k <;> simp [Context.nextPictograph]

theorem nextPictograph_eq_joined_iff {state : PictographState} :
    Context.nextPictograph state k = .joined ↔ state = .after ∧ k = .joiner := by
  cases state <;> cases k <;> simp [Context.nextPictograph]

theorem pictograph_contextOf_eq_after_iff :
    (contextOf before).pictograph = .after ↔ EndsPictograph before := by
  induction before using List.reverseRecOn with
  | nil => exact iff_of_false PictographState.noConfusion (by simp [EndsPictograph])
  | append_singleton before c ih =>
    rw [contextOf_append_singleton, endsPictograph_append_singleton_iff, ← ih]
    exact nextPictograph_eq_after_iff

theorem pictograph_contextOf_eq_joined_iff : (contextOf before).pictograph = .joined ↔
    ∃ front joiner, before = front ++ [joiner] ∧ EndsPictograph front ∧
      breakClass joiner = .joiner := by
  rcases List.eq_nil_or_concat before with rfl | ⟨front, c, rfl⟩
  · exact iff_of_false PictographState.noConfusion (by simp)
  · rw [List.concat_eq_append, contextOf_append_singleton]
    refine nextPictograph_eq_joined_iff.trans ?_
    rw [pictograph_contextOf_eq_after_iff]
    refine ⟨fun ⟨hfront, hc⟩ => ⟨front, c, rfl, hfront, hc⟩, ?_⟩
    rintro ⟨front', joiner, heq, hfront, hjoiner⟩
    obtain ⟨rfl, rfl⟩ := List.append_singleton_inj.1 heq
    exact ⟨hfront, hjoiner⟩

/-! ### Conjuncts -/

/-- The state of conjuncts after a consonant and its marks. -/
def ConjunctState.ofLinked (linked : Bool) : ConjunctState := if linked then .linked else .after

theorem endsConjunct_append_singleton_iff {linked : Bool} :
    EndsConjunct (before ++ [c]) linked ↔
      (conjunctClass c = .consonant ∧ linked = false) ∨
      (conjunctClass c = .linker ∧ linked = true ∧ ∃ l, EndsConjunct before l) ∨
      (conjunctClass c = .extending ∧ EndsConjunct before linked) := by
  refine exists_suffix_append_singleton_iff.trans ⟨?_, ?_⟩
  · rintro (⟨hc, -, hlinked⟩ | ⟨front, first, marks, rfl, hfirst, hmarks, hlinked⟩)
    · exact .inl ⟨hc, by simpa using hlinked⟩
    · have hfront : ∀ m ∈ marks, conjunctClass m = .linker ∨ conjunctClass m = .extending :=
        fun m hm => hmarks m (by simp [hm])
      rcases hmarks c (by simp) with hc | hc
      · exact .inr (.inl ⟨hc, hlinked.2 ⟨c, by simp, hc⟩,
          decide (∃ m ∈ marks, conjunctClass m = .linker), front, first, marks, rfl, hfirst, hfront,
          decide_eq_true_iff⟩)
      · exact .inr (.inr ⟨hc, front, first, marks, rfl, hfirst, hfront,
          by simpa [or_and_right, exists_or, hc] using hlinked⟩)
  · rintro (⟨hc, rfl⟩ | ⟨hc, rfl, l, front, first, marks, rfl, hfirst, hmarks, -⟩ |
      ⟨hc, front, first, marks, rfl, hfirst, hmarks, hlinked⟩)
    · exact .inl ⟨hc, by simp, by simp⟩
    · refine .inr ⟨front, first, marks, rfl, hfirst, ?_, iff_of_true rfl ⟨c, by simp, hc⟩⟩
      simpa [or_imp, forall_and, hc] using hmarks
    · refine .inr ⟨front, first, marks, rfl, hfirst, ?_, ?_⟩
      · simpa [or_imp, forall_and, hc] using hmarks
      · simpa [or_and_right, exists_or, hc] using hlinked

theorem nextConjunct_eq_ofLinked_iff {state : ConjunctState} {k : ConjunctClass} {linked : Bool} :
    Context.nextConjunct state k = .ofLinked linked ↔
      (k = .consonant ∧ linked = false) ∨
      (k = .linker ∧ linked = true ∧ ∃ l, state = .ofLinked l) ∨
      (k = .extending ∧ state = .ofLinked linked) := by
  cases state <;> cases k <;> cases linked <;>
    simp [Context.nextConjunct, ConjunctState.ofLinked]

theorem conjunct_contextOf_iff {linked : Bool} :
    (contextOf before).conjunct = .ofLinked linked ↔ EndsConjunct before linked := by
  induction before using List.reverseRecOn generalizing linked with
  | nil =>
    refine iff_of_false ?_ (by simp [EndsConjunct])
    cases linked <;> exact ConjunctState.noConfusion
  | append_singleton before c ih =>
    rw [contextOf_append_singleton, endsConjunct_append_singleton_iff]
    simp only [← ih]
    exact nextConjunct_eq_ofLinked_iff

/-! ### What the state decides -/

theorem isSyllable_iff {last k : BreakClass} : Context.isSyllable last k ↔
    (last = .leadingConsonant ∧ k ∈ [.leadingConsonant, .vowel, .openSyllable, .closedSyllable]) ∨
    ((last = .openSyllable ∨ last = .vowel) ∧ k ∈ [.vowel, .trailingConsonant]) ∨
    ((last = .closedSyllable ∨ last = .trailingConsonant) ∧ k = .trailingConsonant) := by
  cases last <;> simp [Context.isSyllable, or_assoc]

/-- The rules by which the state keeps a character with the text before it. -/
def Context.Keeps (context : Context) (c : Char) : Prop :=
  isSyllable context.last (breakClass c) ∨
    (breakClass c = .extending ∨ breakClass c = .joiner) ∨ breakClass c = .spacing ∨
    context.last = .prepended ∨
    (context.conjunct = .linked ∧ conjunctClass c = .consonant) ∨
    (context.pictograph = .joined ∧ breakClass c = .pictographic) ∨
    (context.oddRegionals ∧ breakClass c = .regional)

theorem Context.joins_iff {context : Context} : context.joins c ↔
    (context.last = .carriageReturn ∧ breakClass c = .lineFeed) ∨
      (isControl context.last = false ∧ isControl (breakClass c) = false ∧ context.Keeps c) := by
  unfold joins Keeps
  dsimp only
  split
  · rename_i h
    exact iff_of_true rfl (.inl h)
  · rename_i h
    rw [or_iff_right h]
    split
    · rename_i hcontrol
      refine iff_of_false Bool.false_ne_true fun hnot => ?_
      simp [hnot.1, hnot.2.1] at hcontrol
    · rename_i hcontrol
      simp only [Bool.not_eq_true, Bool.or_eq_false_iff] at hcontrol
      simp only [hcontrol, true_and, Bool.or_eq_true, Bool.and_eq_true, decide_eq_true_iff,
        or_assoc]

theorem keeps_contextOf_iff : (contextOf before).Keeps c ↔ Keeps before c := by
  unfold Context.Keeps
  rw [isSyllable_iff, oddRegionals_contextOf_iff, pictograph_contextOf_eq_joined_iff,
    show ConjunctState.linked = .ofLinked true from rfl, conjunct_contextOf_iff]
  simp only [last_contextOf_iff, ne_eq, reduceCtorEq, not_false_eq_true]
  constructor
  · rintro ((⟨h, hc⟩ | ⟨h, hc⟩ | ⟨h, hc⟩) | hc | hc | h | ⟨h, hc⟩ |
      ⟨⟨front, joiner, rfl, hfront, hjoiner⟩, hc⟩ | ⟨h, hc⟩)
    · exact .leadingConsonant h hc
    · exact .vowel h hc
    · exact .trailingConsonant h hc
    · exact .extending hc
    · exact .spacing hc
    · exact .prepended h
    · exact .conjunct h hc
    · exact .pictograph front joiner rfl hfront hjoiner hc
    · exact .regional h hc
  · intro h
    cases h with
    | leadingConsonant h hc => exact .inl (.inl ⟨h, hc⟩)
    | vowel h hc => exact .inl (.inr (.inl ⟨h, hc⟩))
    | trailingConsonant h hc => exact .inl (.inr (.inr ⟨h, hc⟩))
    | extending hc => exact .inr (.inl hc)
    | spacing hc => exact .inr (.inr (.inl hc))
    | prepended h => exact .inr (.inr (.inr (.inl h)))
    | conjunct h hc => exact .inr (.inr (.inr (.inr (.inl ⟨h, hc⟩))))
    | pictograph front joiner hbefore hfront hjoiner hc =>
      exact .inr (.inr (.inr (.inr (.inr (.inl ⟨⟨front, joiner, hbefore, hfront, hjoiner⟩, hc⟩)))))
    | regional h hc => exact .inr (.inr (.inr (.inr (.inr (.inr ⟨h, hc⟩)))))

/-- The state of a text decides as the rules do. -/
theorem joins_contextOf_iff : (contextOf before).joins c ↔ Together before c := by
  rw [Context.joins_iff, keeps_contextOf_iff, isControl_last_contextOf_iff,
    last_contextOf_iff (by decide)]
  rfl

/-! ### Where a cluster ends -/

/-- A text that is in a sequence of some kind does not end with a control. -/
theorem isControl_last_contextOf (h : (contextOf before).oddRegionals ∨
    (contextOf before).pictograph = .after ∨ (contextOf before).conjunct ≠ .outside) :
    Context.isControl (contextOf before).last = false := by
  rcases List.eq_nil_or_concat before with rfl | ⟨front, c, rfl⟩
  · rfl
  rw [List.concat_eq_append] at h ⊢
  rw [contextOf_append_singleton]
  show Context.isControl (breakClass c) = false
  rcases h with h | h | h
  · rw [oddRegionals_contextOf_iff, endsOddRegionals_append_singleton_iff] at h
    rw [h.1]
    rfl
  · rw [pictograph_contextOf_eq_after_iff, endsPictograph_append_singleton_iff] at h
    rcases h with h | ⟨-, h⟩ <;> rw [h] <;> rfl
  · obtain ⟨linked, hlinked⟩ : ∃ linked,
        (contextOf (front ++ [c])).conjunct = .ofLinked linked := by
      cases hstate : (contextOf (front ++ [c])).conjunct with
      | outside => exact absurd hstate h
      | after => exact ⟨false, rfl⟩
      | linked => exact ⟨true, rfl⟩
    rw [conjunct_contextOf_iff, endsConjunct_append_singleton_iff] at hlinked
    have hmark (hc : conjunctClass c = .linker ∨ conjunctClass c = .extending) :
        Context.isControl (breakClass c) = false := by
      rcases breakClass_of_mark hc with h | h <;> rw [h] <;> rfl
    rcases hlinked with ⟨hc, -⟩ | ⟨hc, -⟩ | ⟨hc, -⟩
    · exact isControl_of_consonant hc
    · exact hmark (.inl hc)
    · exact hmark (.inr hc)

theorem nextPictograph_outside {state : PictographState} {k : BreakClass}
    (h : state = .after → k ≠ .extending ∧ k ≠ .joiner) :
    Context.nextPictograph state k = Context.nextPictograph .outside k := by
  cases state <;> cases k <;> simp_all [Context.nextPictograph]

theorem nextConjunct_outside {state : ConjunctState} {k : ConjunctClass}
    (h : state ≠ .outside → k ≠ .linker ∧ k ≠ .extending) :
    Context.nextConjunct state k = Context.nextConjunct .outside k := by
  cases state <;> cases k <;> simp_all [Context.nextConjunct]

/-- Where a cluster ends, the state does not depend on the text before. -/
theorem next_contextOf (h : ¬(contextOf before).joins c) :
    (contextOf before).next c = .start c := by
  have hkeeps (hlast : Context.isControl (contextOf before).last = false)
      (hc : Context.isControl (breakClass c) = false) : ¬(contextOf before).Keeps c :=
    fun hkeeps => h (Context.joins_iff.2 (.inr ⟨hlast, hc, hkeeps⟩))
  -- a character that extends the one before it would have joined
  have hextending (hlast : Context.isControl (contextOf before).last = false) :
      breakClass c ≠ .extending ∧ breakClass c ≠ .joiner := by
    refine ⟨fun hc => ?_, fun hc => ?_⟩
    · exact hkeeps hlast (by rw [hc]; rfl) (.inr (.inl (.inl hc)))
    · exact hkeeps hlast (by rw [hc]; rfl) (.inr (.inl (.inr hc)))
  have hregional : (decide (breakClass c = .regional) && !(contextOf before).oddRegionals) =
      decide (breakClass c = .regional) := by
    by_cases hc : breakClass c = .regional
    · have hodd : ¬(contextOf before).oddRegionals := fun hodd =>
        hkeeps (isControl_last_contextOf (.inl hodd)) (by rw [hc]; rfl)
          (.inr (.inr (.inr (.inr (.inr (.inr ⟨hodd, hc⟩))))))
      simp [hodd]
    · simp [hc]
  have hpictograph := nextPictograph_outside (k := breakClass c) fun hstate =>
    hextending (isControl_last_contextOf (.inr (.inl hstate)))
  have hconjunct := nextConjunct_outside (k := conjunctClass c) fun hstate => by
    obtain ⟨hne, hne'⟩ := hextending (isControl_last_contextOf (.inr (.inr hstate)))
    refine ⟨fun hc => ?_, fun hc => ?_⟩
    · exact (breakClass_of_mark (.inl hc)).elim hne hne'
    · exact (breakClass_of_mark (.inr hc)).elim hne hne'
  simp only [Context.next, Context.start, hregional, hpictograph, hconjunct]

/-! ## Clusters are the segmentation -/

/-- After the first piece, pieces end where the others do. -/
theorem exists_take_cons_iff {piece before : List Char} {rest : List (List Char)}
    (hpiece : piece ≠ []) :
    (∃ n, piece ++ before = ((piece :: rest).take n).flatten) ↔
      ∃ n, before = (rest.take n).flatten := by
  constructor
  · rintro ⟨_ | n, hn⟩
    · exact absurd (List.append_eq_nil_iff.1 hn).1 hpiece
    · rw [List.take_succ_cons, List.flatten_cons] at hn
      exact ⟨n, List.append_cancel_left hn⟩
  · rintro ⟨n, rfl⟩
    exact ⟨n + 1, rfl⟩

/-- No pieces end within the first one. -/
theorem not_exists_take_of_within {c d : Char} {before inner : List Char}
    {rest : List (List Char)} :
    ¬ ∃ n, c :: before = (((c :: (before ++ d :: inner)) :: rest).take n).flatten := by
  rintro ⟨_ | n, hn⟩
  · cases hn
  · have hlength := congrArg List.length hn
    simp only [List.take_succ_cons, List.flatten_cons, List.length_append, List.length_cons]
      at hlength
    omega

/-- A text in two parts is cut within the first one, or after it. -/
theorem cut_within_or_after {before after first second : List Char}
    (h : before ++ after = first ++ second) :
    (∃ c inner, first = before ++ c :: inner ∧ after = c :: inner ++ second) ∨
      ∃ inner, before = first ++ inner ∧ second = inner ++ after := by
  rcases List.append_eq_append_iff.1 h with ⟨inner, hinner, hafter⟩ | hinner
  · rcases inner with _ | ⟨c, inner⟩
    · exact .inr ⟨[], by simpa using hinner.symm, by simpa using hafter.symm⟩
    · exact .inl ⟨c, inner, hinner, hafter⟩
  · exact .inr hinner

theorem takeRest_cons_of_joins {context : Context} (h : context.joins c) (rest : List Char) :
    takeRest context (c :: rest) =
      (c :: (takeRest (context.next c) rest).1, (takeRest (context.next c) rest).2) := by
  rw [takeRest, if_pos h]

/-- The characters that are taken go on with the cluster, and the one after them does not. -/
theorem takeRest_contextOf (before cs : List Char) :
    (∀ front c rest, (takeRest (contextOf before) cs).1 = front ++ c :: rest →
      Together (before ++ front) c) ∧
    ∀ c rest, (takeRest (contextOf before) cs).2 = c :: rest →
      ¬Together (before ++ (takeRest (contextOf before) cs).1) c := by
  induction cs generalizing before with
  | nil => exact ⟨by simp [takeRest], by simp [takeRest]⟩
  | cons d rest ih =>
    by_cases hjoins : (contextOf before).joins d
    · rw [takeRest_cons_of_joins hjoins, ← contextOf_append_singleton]
      obtain ⟨htaken, hleft⟩ := ih (before ++ [d])
      refine ⟨fun front c rest' heq => ?_, fun c rest' heq => ?_⟩
      · rcases front with _ | ⟨e, front⟩
        · obtain ⟨rfl, -⟩ := List.cons.inj heq
          rw [List.append_nil]
          exact joins_contextOf_iff.1 hjoins
        · obtain ⟨rfl, htail⟩ := List.cons.inj heq
          simpa using htaken front c rest' htail
      · simpa using hleft c rest' heq
    · rw [takeRest, if_neg hjoins]
      refine ⟨by simp, fun c rest' heq => ?_⟩
      obtain ⟨rfl, -⟩ := List.cons.inj heq
      rw [List.append_nil]
      exact fun h => hjoins (joins_contextOf_iff.2 h)

/-- After a boundary, the clusters end at the boundaries of the whole text. -/
theorem isBoundary_clusters_iff (prior cs : List Char) (hprior : IsBoundary prior cs)
    {before after : List Char} (h : before ++ after = cs) :
    IsBoundary (prior ++ before) after ↔ ∃ n, before = ((clusters cs).take n).flatten := by
  fun_induction clusters cs generalizing prior before with
  | case1 =>
    obtain ⟨rfl, rfl⟩ := List.append_eq_nil_iff.1 h
    exact iff_of_true trivial ⟨0, rfl⟩
  | case2 c rest ih =>
    have hstart : contextOf (prior ++ [c]) = .start c := by
      rw [contextOf_append_singleton]
      rcases hprior with rfl | hprior
      · exact Context.next_blank c
      · exact next_contextOf (joins_contextOf_iff.not.2 hprior)
    obtain ⟨htaken, hleft⟩ := takeRest_contextOf (prior ++ [c]) rest
    rw [hstart] at htaken hleft
    have hrest := takeRest_append (.start c) rest
    generalize (takeRest (.start c) rest).1 = taken at *
    generalize (takeRest (.start c) rest).2 = left at *
    rcases before with _ | ⟨d, before⟩
    · -- the beginning
      rw [List.nil_append] at h
      rw [h, List.append_nil]
      exact iff_of_true hprior ⟨0, rfl⟩
    obtain ⟨rfl, hsplit⟩ := List.cons.inj h
    rw [← hrest] at hsplit
    rcases cut_within_or_after hsplit with ⟨e, inner, rfl, rfl⟩ | ⟨inner, rfl, rfl⟩
    · -- within the first cluster
      refine iff_of_false ?_ not_exists_take_of_within
      have htogether := htaken before e inner rfl
      rw [List.append_assoc] at htogether
      exact fun hboundary => hboundary.elim (by simp) fun hnot => hnot htogether
    · -- after the first cluster
      have hboundary : IsBoundary (prior ++ d :: taken) (inner ++ after) := by
        cases hnext : inner ++ after with
        | nil => trivial
        | cons c rest =>
          refine .inr ?_
          simpa using hleft c rest hnext
      have hmore := ih (prior ++ d :: taken) hboundary rfl
      rw [List.append_assoc, List.cons_append] at hmore
      exact hmore.trans (exists_take_cons_iff (List.cons_ne_nil d taken)).symm

theorem isSegmentation_clusters (cs : List Char) : IsSegmentation (clusters cs) cs where
  flatten_eq := flatten_clusters cs
  ne_nil piece hpiece := by
    fun_induction clusters cs with
    | case1 => cases hpiece
    | case2 c rest ih =>
      rcases List.mem_cons.1 hpiece with rfl | hpiece
      · exact List.cons_ne_nil _ _
      · exact ih hpiece
  isBoundary_iff before after h := by
    refine isBoundary_clusters_iff [] cs ?_ h
    cases cs with
    | nil => trivial
    | cons c rest => exact .inl rfl

/-! ## Segmentations -/

namespace IsSegmentation

variable {pieces others : List (List Char)} {cs : List Char}

/-- Pieces that end at the same places are the same. -/
theorem eq_of_ends {pieces others : List (List Char)} (hpieces : ∀ piece ∈ pieces, piece ≠ [])
    (hothers : ∀ piece ∈ others, piece ≠ []) (h : ∀ before,
      (∃ n, before = (pieces.take n).flatten) ↔ ∃ n, before = (others.take n).flatten) :
    pieces = others := by
  induction pieces generalizing others with
  | nil =>
    cases others with
    | nil => rfl
    | cons other rest' =>
      obtain ⟨n, hn⟩ := (h other).2 ⟨1, by simp⟩
      exact absurd (by simpa using hn) (hothers other (by simp))
  | cons piece rest ih =>
    have hpiece := hpieces piece (by simp)
    cases others with
    | nil =>
      obtain ⟨n, hn⟩ := (h piece).1 ⟨1, by simp⟩
      exact absurd (by simpa using hn) hpiece
    | cons other rest' =>
      have hother := hothers other (by simp)
      -- the first pieces are beginnings of each other
      have hbegins {first second : List Char} {rest : List (List Char)} (hne : first ≠ [])
          (hends : ∃ n, first = ((second :: rest).take n).flatten) : second <+: first := by
        obtain ⟨_ | n, hn⟩ := hends
        · exact absurd hn hne
        · exact ⟨_, hn.symm⟩
      have heq : piece = other := by
        have hlonger := hbegins hpiece ((h piece).1 ⟨1, by simp⟩)
        have hshorter := hbegins hother ((h other).2 ⟨1, by simp⟩)
        exact (hlonger.eq_of_length_le hshorter.length_le).symm
      subst heq
      refine congrArg (piece :: ·) (ih (List.forall_mem_cons.1 hpieces).2
        (List.forall_mem_cons.1 hothers).2 fun before => ?_)
      rw [← exists_take_cons_iff hpiece, h, exists_take_cons_iff hpiece]

/-- A text has one segmentation only. -/
theorem unique (h : IsSegmentation pieces cs) (h' : IsSegmentation others cs) :
    pieces = others := by
  have hends {pieces : List (List Char)} (h : IsSegmentation pieces cs) (before : List Char) :
      (∃ n, before = (pieces.take n).flatten) ↔
        ∃ after, before ++ after = cs ∧ IsBoundary before after := by
    constructor
    · rintro ⟨n, rfl⟩
      have hsplit : (pieces.take n).flatten ++ (pieces.drop n).flatten = cs := by
        rw [← List.flatten_append, List.take_append_drop, h.flatten_eq]
      exact ⟨_, hsplit, (h.isBoundary_iff _ _ hsplit).2 ⟨n, rfl⟩⟩
    · rintro ⟨after, hsplit, hboundary⟩
      exact (h.isBoundary_iff before after hsplit).1 hboundary
  exact eq_of_ends h.ne_nil h'.ne_nil fun before => (hends h before).trans (hends h' before).symm

/-- The first pieces of a segmentation are the segmentation of the text that they make up. -/
theorem take (h : IsSegmentation pieces cs) (n : Nat) :
    IsSegmentation (pieces.take n) (pieces.take n).flatten where
  flatten_eq := rfl
  ne_nil piece hpiece := h.ne_nil piece (List.mem_of_mem_take hpiece)
  isBoundary_iff before after hsplit := by
    cases after with
    | nil =>
      rw [List.append_nil] at hsplit
      exact iff_of_true trivial ⟨n, by rw [hsplit, List.take_take, min_self]⟩
    | cons c after =>
      -- what decides is the text before and the next character, whatever the text goes on with
      have hwhole : before ++ c :: (after ++ (pieces.drop n).flatten) = cs := by
        rw [← List.cons_append, ← List.append_assoc, hsplit, ← List.flatten_append,
          List.take_append_drop, h.flatten_eq]
      refine (h.isBoundary_iff before _ hwhole).trans ⟨?_, ?_⟩
      · rintro ⟨m, hm⟩
        have hle : m ≤ n := by
          by_contra hlt
          obtain ⟨more, hmore⟩ := List.take_prefix_take_left (l := pieces) (Nat.le_of_not_le hlt)
          rw [← hmore, List.flatten_append, ← hsplit] at hm
          have hlength := congrArg List.length hm
          simp only [List.length_append, List.length_cons] at hlength
          omega
        exact ⟨m, by rw [hm, List.take_take, min_eq_left hle]⟩
      · rintro ⟨m, hm⟩
        exact ⟨min m n, by rw [hm, List.take_take]⟩

end IsSegmentation

theorem isSegmentation_iff {pieces : List (List Char)} {cs : List Char} :
    IsSegmentation pieces cs ↔ pieces = clusters cs :=
  ⟨fun h => h.unique (isSegmentation_clusters cs), fun h => h ▸ isSegmentation_clusters cs⟩

end Gazette.Text.Grapheme
