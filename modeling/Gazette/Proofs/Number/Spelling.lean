import Gazette.Number
import Gazette.Text.Quoted
import Mathlib.Algebra.Order.Field.Power
import Mathlib.Data.Rat.Cast.Order
import Mathlib.Tactic.FieldSimp
import Mathlib.Tactic.Ring

/-!
# Spellings of numbers

The text of a number has a sign, digits before and after the point, and an exponent (`Spelling`).
Such a text reads back as these parts (`Spelling.takeLexeme_chars`), and its parts stand for a
rational number (`Lexeme.magnitude`).  A decimal is written with a point or an exponent, in a
spelling that stands for the decimal (`Decimal.magnitude_spelling`).
-/

namespace Gazette

namespace Number

/-! ## Digits -/

/-- The number that a decimal digit stands for. -/
def digitValue (c : Char) : Nat := c.toNat - '0'.toNat

theorem digitOf?_of_isDigit {c : Char} (h : c.isDigit) : digitOf? c = some (digitValue c) := by
  rw [Char.isDigit, Bool.and_eq_true, decide_eq_true_eq, decide_eq_true_eq] at h
  exact if_pos h

theorem takeDigits_append {ds cs : List Char} (hds : ∀ c ∈ ds, c.isDigit)
    (hcs : ∀ c ∈ cs.head?, digitOf? c = none) :
    takeDigits (ds ++ cs) = (ds.map digitValue, cs) := by
  induction ds with
  | nil =>
    cases cs with
    | nil => rfl
    | cons c cs => rw [List.nil_append, takeDigits, hcs c rfl]; rfl
  | cons d ds ih =>
    rw [List.cons_append, takeDigits, digitOf?_of_isDigit (hds d (.head _)),
      ih fun c hc => hds c (.tail _ hc)]
    rfl

theorem isDigit_of_mem_digits {n : Nat} {c : Char} (h : c ∈ digits n) : c.isDigit :=
  Nat.isDigit_of_mem_toDigits (by decide) (by decide) h

theorem digits_ne_nil (n : Nat) : digits n ≠ [] := Nat.toDigits_ne_nil

theorem natOf_map_digitValue (ds : List Char) :
    Lexeme.natOf (ds.map digitValue) = Nat.ofDigitChars 10 ds 0 :=
  List.foldl_map

theorem natOf_digits (n : Nat) : Lexeme.natOf ((digits n).map digitValue) = n := by
  rw [natOf_map_digitValue, digits, Nat.ofDigitChars_ten_toDigits]

/-- The first digit of a positive number is not zero. -/
theorem head?_digits_ne_zero {n : Nat} (h : 0 < n) : (digits n).head? ≠ some '0' := by
  induction n using Nat.strongRecOn with
  | _ n ih =>
    rcases Nat.lt_or_ge n 10 with hn | hn
    · rw [digits, Nat.toDigits_of_lt_base hn]
      have hall : ∀ n < 10, 0 < n → [n.digitChar].head? ≠ some '0' := by decide
      exact hall n hn h
    · have hdiv : 0 < n / 10 := Nat.div_pos hn (by decide)
      have hfirst := ih (n / 10) (Nat.div_lt_self h (by decide)) hdiv
      obtain ⟨d, ds, hds⟩ := List.exists_cons_of_ne_nil (digits_ne_nil (n / 10))
      rw [hds] at hfirst
      rw [digits, Nat.toDigits_of_base_le (by decide) hn, ← digits, hds]
      exact hfirst

/-! ### Digits up to a width -/

theorem isDigit_of_mem_padLeft {width n : Nat} {c : Char} (h : c ∈ Text.padLeft width (digits n)) :
    c.isDigit := by
  rw [Text.padLeft, List.mem_append, List.mem_replicate] at h
  rcases h with ⟨-, rfl⟩ | h
  · rfl
  · exact isDigit_of_mem_digits h

theorem ofDigitChars_padLeft (width n : Nat) :
    Nat.ofDigitChars 10 (Text.padLeft width (digits n)) 0 = n := by
  rw [Text.padLeft, Nat.ofDigitChars_append, Nat.ofDigitChars_replicate_zero, Nat.mul_zero, digits,
    Nat.ofDigitChars_ten_toDigits]

theorem length_padLeft {width n : Nat} (hwidth : 0 < width) (h : n < 10 ^ width) :
    (Text.padLeft width (digits n)).length = width := by
  have hlength : (digits n).length ≤ width := (Nat.length_toDigits_le_iff (by decide) hwidth).2 h
  rw [Text.padLeft, List.length_append, List.length_replicate]
  omega

end Number

/-! ## Spellings -/

/-- The signs and digits that a number is written with. -/
structure Number.Spelling where
  negative : Bool
  whole : List Char
  fraction : Option (List Char)
  exponent : Option (Bool × List Char)
  deriving Inhabited

/-- Whether what stands after a number is no part of it. -/
def Number.IsEnd (cs : List Char) : Prop :=
  ∀ c ∈ cs.head?, digitOf? c = none ∧ c ≠ '.' ∧ c ≠ 'e' ∧ c ≠ 'E'

theorem Number.isEnd_cons {c : Char} (h : digitOf? c = none ∧ c ≠ '.' ∧ c ≠ 'e' ∧ c ≠ 'E')
    (cs : List Char) : IsEnd (c :: cs) := by
  intro d hd
  obtain rfl := Option.some.inj hd
  exact h

namespace Number.Spelling

/-- The characters of a spelling. -/
def chars (s : Spelling) : List Char :=
  (if s.negative then ['-'] else []) ++ s.whole ++ s.fraction.elim [] ('.' :: ·) ++
    s.exponent.elim [] fun (negative, ds) => 'e' :: (if negative then '-' else '+') :: ds

/-- The parts that a spelling is read as. -/
def parts (s : Spelling) : Lexeme where
  negative := s.negative
  whole := s.whole.map digitValue
  fraction := s.fraction.map fun ds => ds.map digitValue
  exponent := s.exponent.map fun (negative, ds) => (negative, ds.map digitValue)

/-- Whether there are digits, and nothing but digits. -/
def AreDigits (ds : List Char) : Prop := ds ≠ [] ∧ ∀ c ∈ ds, c.isDigit

/-- Whether a spelling has digits in all its parts, and no zero before others. -/
structure IsProper (s : Spelling) : Prop where
  whole : AreDigits s.whole
  first : s.whole = ['0'] ∨ s.whole.head? ≠ some '0'
  fraction : ∀ ds ∈ s.fraction, AreDigits ds
  exponent : ∀ e ∈ s.exponent, AreDigits e.2

theorem areDigits_digits (n : Nat) : AreDigits (digits n) :=
  ⟨digits_ne_nil n, fun _ => isDigit_of_mem_digits⟩

theorem takeWhole_append {ds cs : List Char} (hds : AreDigits ds)
    (hfirst : ds = ['0'] ∨ ds.head? ≠ some '0') (hcs : ∀ c ∈ cs.head?, digitOf? c = none) :
    takeWhole (ds ++ cs) = some (ds.map digitValue, cs) := by
  rcases hfirst with rfl | hfirst
  · rfl
  · obtain ⟨d, ds, rfl⟩ := List.exists_cons_of_ne_nil hds.1
    have htake := takeDigits_append hds.2 hcs
    rw [takeWhole, htake]
    · rfl
    · intro rest h
      exact hfirst (congrArg some (List.cons.inj h).1)

theorem takeFraction_append {fraction : Option (List Char)}
    (hds : ∀ ds ∈ fraction, AreDigits ds) {cs : List Char}
    (hcs : ∀ c ∈ cs.head?, digitOf? c = none ∧ c ≠ '.') :
    takeFraction (fraction.elim [] ('.' :: ·) ++ cs) =
      (fraction.map fun ds => ds.map digitValue, cs) := by
  cases fraction with
  | none =>
    cases cs with
    | nil => rfl
    | cons c cs =>
      rw [Option.elim_none, List.nil_append, takeFraction]
      · rfl
      · rintro rest h
        exact (hcs c rfl).2 (List.cons.inj h).1
  | some ds =>
    obtain ⟨d, ds, rfl⟩ := List.exists_cons_of_ne_nil (hds _ rfl).1
    rw [Option.elim_some, List.cons_append, takeFraction,
      takeDigits_append (hds _ rfl).2 fun c hc => (hcs c hc).1]
    rfl

theorem takeExponent_append {exponent : Option (Bool × List Char)}
    (hds : ∀ e ∈ exponent, AreDigits e.2) {cs : List Char} (hcs : IsEnd cs) :
    takeExponent ((exponent.elim [] fun (negative, ds) =>
        'e' :: (if negative then '-' else '+') :: ds) ++ cs) =
      (exponent.map fun (negative, ds) => (negative, ds.map digitValue), cs) := by
  cases exponent with
  | none =>
    cases cs with
    | nil => rfl
    | cons c cs =>
      obtain ⟨-, -, hlower, hupper⟩ := hcs c rfl
      simp [takeExponent, hlower, hupper]
  | some e =>
    obtain ⟨negative, ds⟩ := e
    obtain ⟨hne, hdigits⟩ := hds _ rfl
    obtain ⟨d, ds, rfl⟩ := List.exists_cons_of_ne_nil hne
    have htake := takeDigits_append hdigits fun c hc => (hcs c hc).1
    cases negative
    all_goals
      simp only [Option.elim_some, List.cons_append, takeExponent, true_or, if_true,
        Bool.false_eq_true, if_false] at htake ⊢
      rw [htake]
      rfl

/-- A number that is written out reads back as its parts. -/
theorem takeLexeme_chars {s : Spelling} (h : s.IsProper) {cs : List Char} (hcs : IsEnd cs) :
    takeLexeme (s.chars ++ cs) = some (s.parts, cs) := by
  obtain ⟨negative, whole, fraction, exponent⟩ := s
  obtain ⟨hwhole, hfirst, hfraction, hexponent⟩ := h
  have hafter : ∀ c ∈ ((exponent.elim [] fun (negative, ds) =>
      'e' :: (if negative then '-' else '+') :: ds) ++ cs).head?, digitOf? c = none ∧ c ≠ '.' := by
    cases exponent with
    | none => exact fun c hc => ⟨(hcs c hc).1, (hcs c hc).2.1⟩
    | some e =>
      intro c hc
      obtain rfl := Option.some.inj hc
      decide
  have hrest : ∀ c ∈ (fraction.elim [] ('.' :: ·) ++ ((exponent.elim [] fun (negative, ds) =>
      'e' :: (if negative then '-' else '+') :: ds) ++ cs)).head?, digitOf? c = none := by
    cases fraction with
    | none => exact fun c hc => (hafter c hc).1
    | some ds =>
      intro c hc
      obtain rfl := Option.some.inj hc
      decide
  have hread := takeWhole_append hwhole hfirst hrest
  cases negative with
  | true =>
    simp only [chars, if_true, List.cons_append, List.nil_append, List.append_assoc, takeLexeme,
      hread, Option.map_some, takeFraction_append hfraction hafter,
      takeExponent_append hexponent hcs, parts]
  | false =>
    -- The first digit is no sign.
    obtain ⟨d, ds, rfl⟩ := List.exists_cons_of_ne_nil hwhole.1
    have hd : d ≠ '-' := by
      rintro rfl
      exact absurd (hwhole.2 '-' (.head _)) (by decide)
    simp only [chars, Bool.false_eq_true, if_false, List.nil_append, List.append_assoc,
      takeLexeme]
    split
    · rename_i rest heq
      exact absurd (List.cons.inj heq).1 hd
    · simp only [hread, Option.map_some, takeFraction_append hfraction hafter,
        takeExponent_append hexponent hcs, parts]

end Number.Spelling

/-! ## What a number stands for -/

namespace Number.Lexeme

/-- The power of ten by which the digits of a number count. -/
def power (l : Lexeme) : Int :=
  (l.exponent.elim 0 fun (negative, ds) => if negative then -(natOf ds : Int) else natOf ds) -
    (l.fraction.getD []).length

/-- The absolute value of the number that has these parts. -/
def magnitude (l : Lexeme) : ℚ := natOf (l.whole ++ l.fraction.getD []) * 10 ^ l.power

end Number.Lexeme

namespace Number.Spelling

theorem getD_fraction_parts (s : Spelling) :
    s.parts.fraction.getD [] = (s.fraction.getD []).map digitValue := by
  rw [parts]
  cases s.fraction <;> rfl

/-- A number stands for its digits, counted from the last of them by a power of ten. -/
theorem magnitude_parts {s : Spelling} {n : Nat} {p : Int}
    (hdigits : Nat.ofDigitChars 10 (s.whole ++ s.fraction.getD []) 0 = n)
    (hpower : s.parts.power = p) : s.parts.magnitude = n * 10 ^ p := by
  rw [Lexeme.magnitude, hpower, ← hdigits, ← natOf_map_digitValue, List.map_append,
    getD_fraction_parts, parts]

/-- The spelling of digits without an exponent, where the first digit has the place `lead`. -/
def positional (negative : Bool) (ds : List Char) (lead : Int) : Spelling :=
  if lead < 0 then ⟨negative, ['0'], some (List.replicate ((-lead).toNat - 1) '0' ++ ds), none⟩
  else
    let whole := lead.toNat + 1
    if ds.length ≤ whole then
      ⟨negative, ds ++ List.replicate (whole - ds.length) '0', some ['0'], none⟩
    else ⟨negative, ds.take whole, some (ds.drop whole), none⟩

/-- The spelling of digits with an exponent, where the first digit has the place `lead`. -/
def scientific (negative : Bool) (ds : List Char) (lead : Int) : Spelling where
  negative := negative
  whole := ds.take 1
  fraction := if ds.drop 1 = [] then none else some (ds.drop 1)
  exponent := some (lead < 0, digits lead.natAbs)

theorem chars_positional (negative : Bool) (ds : List Char) (lead : Int) :
    (positional negative ds lead).chars =
      (if negative then ['-'] else []) ++ Number.positional ds lead := by
  unfold positional Number.positional
  split
  · simp [chars]
  · dsimp only
    split <;> simp [chars]

theorem chars_scientific (negative : Bool) (ds : List Char) (lead : Int) :
    (scientific negative ds lead).chars =
      (if negative then ['-'] else []) ++ Number.scientific ds lead := by
  cases hdrop : ds.drop 1 <;> simp [chars, scientific, Number.scientific, hdrop]

variable {ds : List Char} {lead : Int}

theorem isProper_positional (negative : Bool) (hds : AreDigits ds) (hfirst : ds.head? ≠ some '0') :
    (positional negative ds lead).IsProper := by
  have hzeros : ∀ n, ∀ c ∈ List.replicate n '0', c.isDigit := by
    intro n c hc
    obtain rfl := List.eq_of_mem_replicate hc
    rfl
  unfold positional
  split
  · refine ⟨⟨by simp, by simp⟩, .inl rfl, ?_, nofun⟩
    rintro _ ⟨⟩
    refine ⟨by simp [hds.1], fun c hc => ?_⟩
    exact (List.mem_append.1 hc).elim (hzeros _ c) (hds.2 c)
  · dsimp only
    obtain ⟨d, ds, rfl⟩ := List.exists_cons_of_ne_nil hds.1
    split
    · refine ⟨⟨by simp, fun c hc => ?_⟩, .inr hfirst, ?_, nofun⟩
      · exact (List.mem_append.1 hc).elim (hds.2 c) (hzeros _ c)
      · rintro _ ⟨⟩
        exact ⟨by simp, by simp⟩
    · rename_i hlength
      refine ⟨⟨by simp, fun c hc => hds.2 c (List.mem_of_mem_take hc)⟩, .inr hfirst, ?_, nofun⟩
      rintro _ ⟨⟩
      exact ⟨by simpa using hlength, fun c hc => hds.2 c (List.mem_of_mem_drop hc)⟩

theorem isProper_scientific (negative : Bool) (hds : AreDigits ds) (hfirst : ds.head? ≠ some '0') :
    (scientific negative ds lead).IsProper := by
  obtain ⟨d, ds, rfl⟩ := List.exists_cons_of_ne_nil hds.1
  refine ⟨⟨by simp [scientific], fun c hc => hds.2 c (List.mem_of_mem_take hc)⟩, .inr hfirst,
    ?_, ?_⟩
  · intro fraction hf
    simp only [scientific] at hf
    split at hf
    · cases hf
    · rename_i hne
      obtain rfl := Option.some.inj hf
      exact ⟨hne, fun c hc => hds.2 c (List.mem_of_mem_drop hc)⟩
  · rintro _ ⟨⟩
    exact areDigits_digits _

theorem magnitude_positional (negative : Bool) (ds : List Char) (lead : Int) :
    (positional negative ds lead).parts.magnitude =
      Nat.ofDigitChars 10 ds 0 * 10 ^ (lead + 1 - ds.length) := by
  unfold positional
  split
  · refine magnitude_parts ?_ ?_
    · simp [Nat.ofDigitChars_cons, Nat.ofDigitChars_append]
    · simp [parts, Lexeme.power]
      omega
  · dsimp only
    split
    · -- The zeros after the digits make up for their smaller number.
      have hparts := magnitude_parts (s := ⟨negative,
          ds ++ List.replicate (lead.toNat + 1 - ds.length) '0', some ['0'], none⟩)
        (n := 10 * (10 ^ (lead.toNat + 1 - ds.length) * Nat.ofDigitChars 10 ds 0)) (p := -1)
        (by simp [Nat.ofDigitChars_cons, Nat.ofDigitChars_append]) (by simp [parts, Lexeme.power])
      have hpower : lead + 1 - ds.length = ((lead.toNat + 1 - ds.length : Nat) : Int) := by omega
      rw [hparts, hpower, zpow_natCast, zpow_neg_one]
      push_cast
      field_simp
    · refine magnitude_parts ?_ ?_
      · simp
      · simp [parts, Lexeme.power]
        omega

theorem magnitude_scientific (negative : Bool) {ds : List Char} (hds : ds ≠ []) (lead : Int) :
    (scientific negative ds lead).parts.magnitude =
      Nat.ofDigitChars 10 ds 0 * 10 ^ (lead + 1 - ds.length) := by
  obtain ⟨d, ds, rfl⟩ := List.exists_cons_of_ne_nil hds
  have hfraction : (scientific negative (d :: ds) lead).fraction.getD [] = ds := by
    simp only [scientific, List.drop_one, List.tail_cons]
    split <;> simp_all
  refine magnitude_parts ?_ ?_
  · rw [hfraction]
    rfl
  · rw [Lexeme.power, getD_fraction_parts, hfraction]
    simp only [parts, scientific, Option.map_some, Option.elim_some, natOf_digits, List.length_map,
      List.length_cons, decide_eq_true_eq]
    split <;> omega

end Number.Spelling

/-! ## Decimals -/

namespace Decimal

open Number.Spelling

/-- The number that a decimal stands for. -/
def value (d : Decimal) : ℚ := d.coefficient * 10 ^ d.exponent

/-- The spelling of a decimal: positional, or as a power of ten. -/
def spelling (negative : Bool) (d : Decimal) : Number.Spelling :=
  let ds := Number.digits d.coefficient
  let lead := d.exponent + ds.length - 1
  if Number.positionalRange.least ≤ lead ∧ lead ≤ Number.positionalRange.greatest then
    positional negative ds lead
  else scientific negative ds lead

theorem chars_spelling (negative : Bool) (d : Decimal) : (d.spelling negative).chars =
    (if negative then ['-'] else []) ++ Number.decimalChars d := by
  unfold spelling Number.decimalChars
  dsimp only
  split
  · exact chars_positional _ _ _
  · exact chars_scientific _ _ _

theorem negative_spelling (negative : Bool) (d : Decimal) :
    (d.spelling negative).negative = negative := by
  unfold spelling positional scientific
  dsimp only
  split
  · split
    · rfl
    · split <;> rfl
  · rfl

theorem isProper_spelling (negative : Bool) {d : Decimal} (h : 0 < d.coefficient) :
    (d.spelling negative).IsProper := by
  have hdigits := areDigits_digits d.coefficient
  have hfirst := Number.head?_digits_ne_zero h
  unfold spelling
  dsimp only
  split
  · exact isProper_positional negative hdigits hfirst
  · exact isProper_scientific negative hdigits hfirst

theorem magnitude_spelling (negative : Bool) (d : Decimal) :
    (d.spelling negative).parts.magnitude = d.value := by
  have hexponent : d.exponent + (Number.digits d.coefficient).length - 1 + 1 -
      (Number.digits d.coefficient).length = d.exponent := by omega
  have hdigits : Nat.ofDigitChars 10 (Number.digits d.coefficient) 0 = d.coefficient :=
    Nat.ofDigitChars_ten_toDigits
  unfold spelling value
  dsimp only
  split
  · rw [magnitude_positional, hexponent, hdigits]
  · rw [magnitude_scientific _ (Number.digits_ne_nil _), hexponent, hdigits]

/-- A decimal is written with a point or an exponent, which integers are not. -/
theorem isSome_spelling (negative : Bool) (d : Decimal) :
    (d.spelling negative).parts.fraction.isSome ∨ (d.spelling negative).parts.exponent.isSome := by
  unfold spelling positional scientific
  dsimp only
  split
  · split
    · exact .inl rfl
    · split <;> exact .inl rfl
  · exact .inr rfl

end Decimal

end Gazette
