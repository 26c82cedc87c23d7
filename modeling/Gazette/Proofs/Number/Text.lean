import Gazette.Proofs.Number.Shortest

/-!
# Texts of numbers

The text of a number is read as the parts of its spelling (`takeLexeme_chars`), and numbers with the
same parts are equal (`eq_of_parts_eq`): the text of a number determines it, its kind included.
-/

namespace Gazette

namespace Number

/-- Whether a number is an integer or a finite double, as the numbers of documents are. -/
def isFinite : Number → Bool
  | int _ => true
  | float x => x.isFinite

/-- The spelling of a number. -/
def spelling : Number → Spelling
  | int n => ⟨n < 0, digits n.natAbs, none, none⟩
  | float x =>
    if x.isZero then ⟨x.isNegative, ['0'], some ['0'], none⟩
    else ((Decimal.shortest? x).getD default).spelling x.isNegative

/-- The parts that the text of a number is read as. -/
def parts (n : Number) : Lexeme := n.spelling.parts

theorem chars_spelling {n : Number} (h : n.isFinite) : n.spelling.chars = n.chars := by
  cases n with
  | int n =>
    by_cases hn : n < 0 <;> simp [spelling, Spelling.chars, Number.chars, intChars, hn]
  | float x =>
    rw [Number.chars, doubleChars, show x.isFinite = true from h, spelling]
    by_cases hzero : x.isZero
    · rw [if_pos hzero, if_pos hzero]
      cases x.isNegative <;> rfl
    · have hbits : x.magnitudeBits ≠ 0 := by simpa [Double.isZero] using hzero
      obtain ⟨d, hd, -, -⟩ := Decimal.exists_shortest? hbits
      rw [if_neg hzero, if_neg hzero, hd]
      exact Decimal.chars_spelling _ _

theorem isProper_spelling (n : Number) : n.spelling.IsProper := by
  cases n with
  | int n =>
    refine ⟨Spelling.areDigits_digits _, ?_, nofun, nofun⟩
    rcases Nat.eq_zero_or_pos n.natAbs with hzero | hpos
    · left
      rw [spelling, hzero]
      rfl
    · exact .inr (head?_digits_ne_zero hpos)
  | float x =>
    rw [spelling]
    split
    · refine ⟨⟨by simp, by simp⟩, .inl rfl, ?_, nofun⟩
      rintro _ ⟨⟩
      exact ⟨by simp, by simp⟩
    · rename_i hzero
      have hbits : x.magnitudeBits ≠ 0 := by simpa [Double.isZero] using hzero
      obtain ⟨d, hd, hpos, -⟩ := Decimal.exists_shortest? hbits
      rw [hd]
      exact Decimal.isProper_spelling _ hpos

theorem chars_of_not_isFinite {n : Number} (h : ¬ n.isFinite) : n.chars = "null".toList := by
  cases n with
  | int n => exact absurd rfl h
  | float x => rw [chars, doubleChars, if_pos (by simpa [isFinite] using h)]

/-- The text of a number starts with a sign or a digit. -/
theorem exists_chars {n : Number} (h : n.isFinite) :
    ∃ c cs, n.chars = c :: cs ∧ (c = '-' ∨ c.isDigit) := by
  rw [← chars_spelling h]
  obtain ⟨d, ds, hwhole⟩ := List.exists_cons_of_ne_nil (isProper_spelling n).whole.1
  have hd : d.isDigit := (isProper_spelling n).whole.2 d (hwhole ▸ .head _)
  rw [Spelling.chars, hwhole]
  cases n.spelling.negative with
  | true => exact ⟨'-', _, rfl, .inl rfl⟩
  | false => exact ⟨d, _, rfl, .inr hd⟩

/-- The text of a number is read as its parts, up to its end. -/
theorem takeLexeme_chars {n : Number} (h : n.isFinite) {cs : List Char} (hcs : IsEnd cs) :
    takeLexeme (n.chars ++ cs) = some (n.parts, cs) := by
  rw [← chars_spelling h]
  exact Spelling.takeLexeme_chars (isProper_spelling n) hcs

/-- Integers of 64 bits are what their parts stand for, be they signed or unsigned. -/
theorem toNumber?_parts_int {n : Int} (hlow : -2 ^ 63 ≤ n) (hhigh : n < 2 ^ 64) :
    (int n).parts.toNumber? = some (int n) := by
  have hvalue : Lexeme.natOf (int n).parts.whole = n.natAbs := natOf_digits _
  have hnegative : (int n).parts.negative = decide (n < 0) := rfl
  have hplain : ((int n).parts.fraction.isSome || (int n).parts.exponent.isSome) = false := rfl
  unfold Lexeme.toNumber?
  rw [hvalue, hnegative, hplain, if_neg Bool.false_ne_true]
  by_cases hn : n < 0
  · have hsize : n ≠ 0 ∧ n.natAbs ≤ 2 ^ 63 := by omega
    have hself : -(n.natAbs : Int) = n := by omega
    rw [if_neg (by simp [hn]), if_pos (by simpa [hn] using hsize), hself]
  · have hsize : n.natAbs < 2 ^ 64 := by omega
    have hself : (n.natAbs : Int) = n := by omega
    rw [if_pos (by simpa [hn] using hsize), hself]

/-! ## What the parts tell -/

/-- A double is written with a point or an exponent, which integers are not. -/
theorem isSome_parts_float (x : Double) :
    (float x).parts.fraction.isSome ∨ (float x).parts.exponent.isSome := by
  rw [parts, spelling]
  split
  · exact .inl rfl
  · exact Decimal.isSome_spelling _ _

theorem parts_float_ne_parts_int (x : Double) (n : Int) : (float x).parts ≠ (int n).parts := by
  intro h
  have hsome := isSome_parts_float x
  rw [h] at hsome
  rcases hsome with hsome | hsome <;> cases hsome

theorem negative_parts_float (x : Double) : (float x).parts.negative = x.isNegative := by
  rw [parts, spelling]
  split
  · rfl
  · exact Decimal.negative_spelling _ _

/-- The parts of a double stand for a number that rounds to it. -/
theorem magnitude_parts_float (x : Double) :
    x.magnitudeBits = 0 ∧ (float x).parts.magnitude = 0 ∨
      x.magnitudeBits ≠ 0 ∧ 0 < (float x).parts.magnitude ∧
        (Decimal.Interval.ofDouble x).Holds (float x).parts.magnitude := by
  rw [parts, spelling]
  split
  · rename_i hzero
    refine .inl ⟨by simpa [Double.isZero] using hzero, ?_⟩
    rw [Spelling.magnitude_parts rfl rfl]
    simp [Nat.ofDigitChars_cons]
  · rename_i hzero
    have hbits : x.magnitudeBits ≠ 0 := by simpa [Double.isZero] using hzero
    obtain ⟨d, hd, hpos, hholds⟩ := Decimal.exists_shortest? hbits
    rw [hd, Option.getD_some, Decimal.magnitude_spelling]
    refine .inr ⟨hbits, ?_, hholds⟩
    rw [Decimal.value]
    positivity

theorem eq_of_parts_eq {n m : Number} (h : n.parts = m.parts) : n = m := by
  cases n with
  | int n =>
    cases m with
    | int m =>
      have hnegative : decide (n < 0) = decide (m < 0) := congrArg Lexeme.negative h
      have hwhole : (digits n.natAbs).map digitValue = (digits m.natAbs).map digitValue :=
        congrArg Lexeme.whole h
      have habs : n.natAbs = m.natAbs := by
        rw [← natOf_digits n.natAbs, hwhole, natOf_digits]
      rw [decide_eq_decide] at hnegative
      congr 1
      omega
    | float y => exact absurd h.symm (parts_float_ne_parts_int y n)
  | float x =>
    cases m with
    | int m => exact absurd h (parts_float_ne_parts_int x m)
    | float y =>
      have hsign : x.isNegative = y.isNegative := by
        rw [← negative_parts_float, h, negative_parts_float]
      have hbits : x.magnitudeBits = y.magnitudeBits := by
        have hx := magnitude_parts_float x
        rw [h] at hx
        rcases hx with ⟨hx, hmx⟩ | ⟨hx, hposx, hholdsx⟩ <;>
          rcases magnitude_parts_float y with ⟨hy, hmy⟩ | ⟨hy, hposy, hholdsy⟩
        · rw [hx, hy]
        · exact absurd hmx hposy.ne'
        · exact absurd hmy hposx.ne'
        · exact hholdsx.magnitudeBits_eq hholdsy hx hy
      rw [Double.eq_of_bits hsign hbits]

end Number

end Gazette
