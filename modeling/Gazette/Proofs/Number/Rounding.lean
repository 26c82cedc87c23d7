import Gazette.Proofs.Number.Text

/-!
# Rounding

A quotient is rounded to the nearest double (`Double.ofRatio_eq`).  The digits of a number are
multiplied or divided by a power of ten, and if they are below `2 ^ 53` and the power is not above
22, then both are doubles themselves and only the result is rounded.  So such a number is read as
the nearest double (`Number.Lexeme.IsShort.exists_toDouble?_eq`), and a double whose text is such
a number is read back (`Number.toNumber?_parts_float`).
-/

namespace Gazette

namespace Double

/-! ## Quotients -/

/-- Whether `n` is the natural number nearest to `v`, the even one of two equally near. -/
structure IsNearest (n : Nat) (v : ℚ) : Prop where
  low : n - 1 / 2 ≤ v
  high : v ≤ n + 1 / 2
  tie : v = n - 1 / 2 ∨ v = n + 1 / 2 → Even n

theorem isNearest_roundDiv (num : Nat) {den : Nat} (hden : 0 < den) :
    IsNearest (roundDiv num den) (num / den) := by
  have hd : (0 : ℚ) < den := by exact_mod_cast hden
  have hdiv : (num : ℚ) / den = (num / den : Nat) + (num % den : Nat) / den := by
    have hnum : (num : ℚ) = den * (num / den : Nat) + (num % den : Nat) := by
      exact_mod_cast (Nat.div_add_mod num den).symm
    rw [div_eq_iff hd.ne', add_mul, div_mul_cancel₀ _ hd.ne', mul_comm _ (den : ℚ)]
    exact hnum
  have hnonneg : (0 : ℚ) ≤ (num % den : Nat) / den := by positivity
  have hbelow : 2 * (num % den) < den ↔ ((num % den : Nat) / den : ℚ) < 1 / 2 := by
    rw [div_lt_div_iff₀ hd two_pos, one_mul, mul_comm]
    exact_mod_cast Iff.rfl
  have habove : den < 2 * (num % den) ↔ (1 / 2 : ℚ) < (num % den : Nat) / den := by
    rw [div_lt_div_iff₀ two_pos hd, one_mul, mul_comm]
    exact_mod_cast Iff.rfl
  have hlt : ((num % den : Nat) / den : ℚ) < 1 := by
    rw [div_lt_one hd]
    exact_mod_cast Nat.mod_lt num hden
  simp only [roundDiv, hdiv, hbelow, habove]
  generalize ((num % den : Nat) / den : ℚ) = rest at *
  generalize num / den = quotient
  have hsucc : ((quotient + 1 : Nat) : ℚ) = quotient + 1 := Nat.cast_succ _
  split
  case isTrue hrest =>
    refine ⟨by linarith, by linarith, fun htie => ?_⟩
    rcases htie with htie | htie <;> linarith
  case isFalse hrest =>
    split
    case isTrue hrest' =>
      refine ⟨by linarith, by linarith, fun htie => ?_⟩
      rcases htie with htie | htie <;> linarith
    case isFalse hrest' =>
      obtain rfl : rest = 1 / 2 := le_antisymm (not_lt.1 hrest') (not_lt.1 hrest)
      rcases Nat.mod_two_eq_zero_or_one quotient with hmod | hmod
      · rw [hmod, Nat.add_zero]
        exact ⟨by linarith, le_rfl, fun _ => Nat.even_iff.2 hmod⟩
      · rw [hmod]
        exact ⟨by linarith, by linarith, fun _ => by
          rw [Nat.even_add_one, Nat.not_even_iff]
          exact hmod⟩

theorem isNearest_inUnits (num : Nat) {den : Nat} (hden : 0 < den) (q : Int) :
    IsNearest (inUnits num den q) (num / den / 2 ^ q) := by
  rw [inUnits, zpow_eq_div two_ne_zero]
  split
  case isTrue hq =>
    have hpower : 0 < den * 2 ^ q.toNat := by positivity
    have hzero : (-q).toNat = 0 := by omega
    have hnearest := isNearest_roundDiv num hpower
    rw [hzero, pow_zero, div_one, div_div]
    exact_mod_cast hnearest
  case isFalse hq =>
    have hzero : q.toNat = 0 := by omega
    have hnearest := isNearest_roundDiv (num * 2 ^ (-q).toNat) hden
    rw [hzero, pow_zero, div_div_eq_mul_div, div_one, div_mul_eq_mul_div]
    exact_mod_cast hnearest

/-! ## The unit of a quotient -/

theorem atLeastPower_iff (num : Nat) {den : Nat} (hden : 0 < den) (e : Int) :
    atLeastPower num den e ↔ (2 : ℚ) ^ e ≤ num / den := by
  have hd : (0 : ℚ) < den := by exact_mod_cast hden
  rw [atLeastPower, zpow_eq_div two_ne_zero, div_le_div_iff₀ (by positivity) hd]
  split
  case isTrue he =>
    have hzero : (-e).toNat = 0 := by omega
    rw [hzero, decide_eq_true_eq, pow_zero, mul_one, mul_comm]
    exact_mod_cast Iff.rfl
  case isFalse he =>
    have hzero : e.toNat = 0 := by omega
    rw [hzero, decide_eq_true_eq, pow_zero, one_mul]
    exact_mod_cast Iff.rfl

/-- The leading bit of a quotient gets place 52, if the unit is not the smallest one. -/
theorem exists_leading {num den : Nat} (hnum : 0 < num) (hden : 0 < den) :
    ∃ e : Int, unitExponent num den = max (e - 52) minExponent ∧
      (2 : ℚ) ^ e ≤ num / den ∧ (num / den : ℚ) < 2 ^ (e + 1) := by
  have hd : (0 : ℚ) < den := by exact_mod_cast hden
  have hnumLow : (2 : ℚ) ^ num.log2 ≤ num := by exact_mod_cast Nat.log2_self_le hnum.ne'
  have hnumHigh : (num : ℚ) < 2 ^ (num.log2 + 1) := by exact_mod_cast Nat.lt_log2_self
  have hdenLow : (2 : ℚ) ^ den.log2 ≤ den := by exact_mod_cast Nat.log2_self_le hden.ne'
  have hdenHigh : (den : ℚ) < 2 ^ (den.log2 + 1) := by exact_mod_cast Nat.lt_log2_self
  have hhigh : (num / den : ℚ) < 2 ^ ((num.log2 : Int) - den.log2 + 1) := by
    have hexponent : (num.log2 : Int) - den.log2 + 1 = (num.log2 + 1 : Nat) - (den.log2 : Nat) := by
      push_cast
      ring
    rw [hexponent, zpow_sub₀ two_ne_zero, zpow_natCast, zpow_natCast]
    exact div_lt_div₀ hnumHigh hdenLow (by positivity) (by positivity)
  have hlow : (2 : ℚ) ^ ((num.log2 : Int) - den.log2 - 1) ≤ num / den := by
    have hexponent : (num.log2 : Int) - den.log2 - 1 = (num.log2 : Nat) - (den.log2 + 1 : Nat) := by
      push_cast
      ring
    rw [hexponent, zpow_sub₀ two_ne_zero, zpow_natCast, zpow_natCast]
    exact div_le_div₀ (by positivity) hnumLow hd hdenHigh.le
  rw [unitExponent]
  by_cases hpower : atLeastPower num den ((num.log2 : Int) - den.log2)
  · rw [if_pos hpower]
    exact ⟨_, rfl, (atLeastPower_iff num hden _).1 hpower, hhigh⟩
  · rw [if_neg hpower]
    refine ⟨_, rfl, hlow, ?_⟩
    rw [sub_add_cancel]
    exact not_le.1 (mt (atLeastPower_iff num hden _).2 hpower)

/-! ## The nearest double -/

theorem midpoint_mul (b : Nat) :
    midpoint b * quarter = (steps b + 2 ^ place b / 2) * (4 * quarter) := by
  rw [midpoint, steps_succ]
  push_cast
  ring

theorem midpoint_pred_mul {b : Nat} (h : b ≠ 0) :
    midpoint (b - 1) * quarter = (steps b - 2 ^ place (b - 1) / 2) * (4 * quarter) := by
  obtain ⟨a, rfl⟩ := Nat.exists_eq_succ_of_ne_zero h
  rw [Nat.succ_eq_add_one, Nat.add_sub_cancel, midpoint, steps_succ]
  push_cast
  ring

/-- A significand of 53 bits counts from its place, and so does the next one, which is a power. -/
theorem steps_add {p n : Nat} (hn : n ≤ 2 ^ 53) (hp : p ≠ 0 → 2 ^ 52 ≤ n) :
    steps (p * 2 ^ 52 + n) = n * 2 ^ p := by
  rcases Nat.eq_or_lt_of_le hn with rfl | hlt
  · have hplace : place (p * 2 ^ 52 + 2 ^ 53) = p + 1 := by
      rw [place]
      omega
    have hrest : p * 2 ^ 52 + 2 ^ 53 - (p + 1) * 2 ^ 52 = 2 ^ 52 := by omega
    rw [steps, hplace, hrest]
    ring
  · have hplace : place (p * 2 ^ 52 + n) = p := by
      rw [place]
      omega
    rw [steps, hplace, Nat.add_sub_cancel_left]

theorem steps_add_mul {p n : Nat} (hn : n ≤ 2 ^ 53) (hp : p ≠ 0 → 2 ^ 52 ≤ n) :
    (steps (p * 2 ^ 52 + n) : ℚ) * (4 * quarter) = n * (2 ^ p * (4 * quarter)) := by
  rw [steps_add hn hp]
  push_cast
  ring

/-- The next double is at least a unit away. -/
theorem le_midpoint {p n : Nat} (hn : n ≤ 2 ^ 53) (hp : p ≠ 0 → 2 ^ 52 ≤ n) :
    (n + 1 / 2) * (2 ^ p * (4 * quarter)) ≤ midpoint (p * 2 ^ 52 + n) * quarter := by
  have hplace : p ≤ place (p * 2 ^ 52 + n) := by
    rw [place]
    omega
  have hunit : 2 ^ p * (4 * quarter) ≤ 2 ^ place (p * 2 ^ 52 + n) * (4 * quarter) :=
    mul_le_mul_of_nonneg_right (pow_le_pow_right₀ one_le_two hplace)
      (mul_pos four_pos quarter_pos).le
  rw [midpoint_mul, add_mul, add_mul, steps_add_mul hn hp, div_mul_eq_mul_div (2 ^ _),
    one_div_mul_eq_div]
  exact add_le_add_right (div_le_div_of_nonneg_right hunit zero_le_two) _

/-- The double below is a unit away, or less if this double is the first with its unit. -/
theorem midpoint_pred_cases {p n : Nat} (hn : n ≤ 2 ^ 53) (hp : p ≠ 0 → 2 ^ 52 ≤ n)
    (hzero : p * 2 ^ 52 + n ≠ 0) :
    midpoint (p * 2 ^ 52 + n - 1) * quarter = (n - 1 / 2) * (2 ^ p * (4 * quarter)) ∨
      p ≠ 0 ∧ n = 2 ^ 52 ∧
        midpoint (p * 2 ^ 52 + n - 1) * quarter < n * (2 ^ p * (4 * quarter)) := by
  rw [midpoint_pred_mul hzero, sub_mul, steps_add_mul hn hp]
  by_cases hplace : place (p * 2 ^ 52 + n - 1) = p
  · left
    rw [hplace, sub_mul]
    ring
  · have hfirst : p ≠ 0 ∧ n = 2 ^ 52 := by
      rw [place] at hplace
      omega
    exact .inr ⟨hfirst.1, hfirst.2,
      sub_lt_self _ (mul_pos (by positivity) (mul_pos four_pos quarter_pos))⟩

theorem IsNearest.bounds {v : ℚ} {p n : Nat} (hn : IsNearest n v) (hlow : p ≠ 0 → 2 ^ 52 ≤ v)
    (hhigh : v < 2 ^ 53) : n ≤ 2 ^ 53 ∧ (p ≠ 0 → 2 ^ 52 ≤ n) := by
  constructor
  · have hlt : (n : ℚ) < 2 ^ 53 + 1 := by linarith [hn.low]
    exact Nat.lt_succ_iff.1 (by exact_mod_cast hlt)
  · intro hp
    have hlt : (2 : ℚ) ^ 52 < n + 1 := by linarith [hn.high, hlow hp]
    exact Nat.lt_succ_iff.1 (by exact_mod_cast hlt)

/-- A number that is rounded in the unit of its leading bit is rounded to the nearest double. -/
theorem rounds_of_isNearest {v : ℚ} {p n : Nat} (hn : IsNearest n v) (hlow : p ≠ 0 → 2 ^ 52 ≤ v)
    (hhigh : v < 2 ^ 53) : Rounds (v * (2 ^ p * (4 * quarter))) (p * 2 ^ 52 + n) := by
  obtain ⟨hle, hp⟩ := hn.bounds hlow hhigh
  have hunit : (0 : ℚ) < 2 ^ p * (4 * quarter) :=
    mul_pos (by positivity) (mul_pos four_pos quarter_pos)
  have hvLow := mul_le_mul_of_nonneg_right hn.low hunit.le
  have hvHigh := mul_le_mul_of_nonneg_right hn.high hunit.le
  have hfirst : p ≠ 0 → n = 2 ^ 52 → (n : ℚ) * (2 ^ p * (4 * quarter)) ≤
      v * (2 ^ p * (4 * quarter)) := by
    rintro hp0 rfl
    exact mul_le_mul_of_nonneg_right (by exact_mod_cast hlow hp0) hunit.le
  have heven : Even n → Even (p * 2 ^ 52 + n) := fun h => by
    rw [Nat.even_iff] at h ⊢
    omega
  refine ⟨fun hzero => ?_, hvHigh.trans (le_midpoint hle hp), fun htie => ?_⟩
  · rcases midpoint_pred_cases hle hp hzero with heq | ⟨hp0, hn52, hlt⟩
    · rwa [heq]
    · exact hlt.le.trans (hfirst hp0 hn52)
  · rcases htie with htie | htie
    · by_cases hzero : p * 2 ^ 52 + n = 0
      · rw [hzero]
        exact Even.zero
      · rcases midpoint_pred_cases hle hp hzero with heq | ⟨hp0, hn52, hlt⟩
        · rw [heq] at htie
          exact heven (hn.tie (.inl (mul_right_cancel₀ hunit.ne' htie)))
        · exact absurd htie (hlt.trans_le (hfirst hp0 hn52)).ne'
    · have heq : v * (2 ^ p * (4 * quarter)) = (n + 1 / 2) * (2 ^ p * (4 * quarter)) :=
        le_antisymm hvHigh ((le_midpoint hle hp).trans htie.ge)
      exact heven (hn.tie (.inr (mul_right_cancel₀ hunit.ne' heq)))

/-- The bits of the double to which a quotient is rounded, if they do not run over. -/
def quotientBits (num den : Nat) : Nat :=
  (unitExponent num den - minExponent).toNat * 2 ^ 52 + inUnits num den (unitExponent num den)

theorem rounds_quotientBits {num den : Nat} (hnum : 0 < num) (hden : 0 < den) :
    Rounds (num / den) (quotientBits num den) := by
  obtain ⟨e, hunit, hlow, hhigh⟩ := exists_leading hnum hden
  obtain ⟨p, hp⟩ : ∃ p : Nat, unitExponent num den = minExponent + p :=
    ⟨(unitExponent num den - minExponent).toNat, by omega⟩
  have hplace : (unitExponent num den - minExponent).toNat = p := by omega
  have hpower : (2 : ℚ) ^ unitExponent num den = 2 ^ p * (4 * quarter) := by
    rw [hp, two_zpow_minExponent_add]
  have hpos : (0 : ℚ) < 2 ^ unitExponent num den := by positivity
  have hlow' : p ≠ 0 → (2 : ℚ) ^ 52 ≤ num / den / 2 ^ unitExponent num den := by
    intro hp0
    have hexponent : e = (52 : Nat) + unitExponent num den := by omega
    rw [le_div_iff₀ hpos, ← zpow_natCast, ← zpow_add₀ two_ne_zero, ← hexponent]
    exact hlow
  have hhigh' : (num / den / 2 ^ unitExponent num den : ℚ) < 2 ^ 53 := by
    have hexponent : e + 1 ≤ (53 : Nat) + unitExponent num den := by omega
    rw [div_lt_iff₀ hpos, ← zpow_natCast, ← zpow_add₀ two_ne_zero]
    exact hhigh.trans_le (zpow_le_zpow_right₀ one_le_two hexponent)
  have hrounds := rounds_of_isNearest (isNearest_inUnits num hden _) hlow' hhigh'
  rw [← hpower, div_mul_cancel₀ _ hpos.ne'] at hrounds
  rwa [quotientBits, hplace]

theorem exists_rounds {v : ℚ} (hv : 0 < v) : ∃ b, Rounds v b := by
  have hpos : 0 < v.num := Rat.num_pos.2 hv
  have hnum : 0 < v.num.toNat := by omega
  have hcast : ((v.num.toNat : Nat) : ℚ) = v.num := by
    exact_mod_cast Int.toNat_of_nonneg hpos.le
  have hrounds := rounds_quotientBits hnum v.den_pos
  rw [hcast, Rat.num_div_den] at hrounds
  exact ⟨_, hrounds⟩

/-- A quotient is rounded to the nearest double. -/
theorem ofRatio_eq {num den : Nat} (hnum : 0 < num) (hden : 0 < den) {b : Nat}
    (hb : Rounds (num / den) b) (hfinite : b < 2047 * 2 ^ 52) (negative : Bool) :
    ofRatio negative num den = ofMagnitude negative b := by
  obtain rfl := (rounds_quotientBits hnum hden).unique hb
  rw [ofRatio, if_neg hnum.ne']
  exact if_neg (not_le.2 hfinite)

/-! ## Exact numbers -/

theorem rounds_steps (b : Nat) : Rounds (steps b * (4 * quarter)) b := by
  have hunit : (0 : ℚ) < 4 * quarter := mul_pos four_pos quarter_pos
  have hhigh : (steps b : ℚ) * (4 * quarter) < midpoint b * quarter := by
    rw [midpoint_mul]
    exact mul_lt_mul_of_pos_right (lt_add_of_pos_right _ (by positivity)) hunit
  have hlow : b ≠ 0 → midpoint (b - 1) * quarter < steps b * (4 * quarter) := by
    intro hb
    rw [midpoint_pred_mul hb]
    exact mul_lt_mul_of_pos_right (sub_lt_self _ (by positivity)) hunit
  refine ⟨fun hb => (hlow hb).le, hhigh.le, fun htie => ?_⟩
  rcases htie with htie | htie
  · by_cases hb : b = 0
    · rw [hb]
      exact Even.zero
    · exact absurd htie (hlow hb).ne'
  · exact absurd htie hhigh.ne

/-- An integer of at most 53 bits is a double, and so is its product by a power of two. -/
theorem exists_steps {m j : Nat} (hpos : 0 < m) (hm : m < 2 ^ 53) (hj : j ≤ 900) :
    ∃ b, 0 < b ∧ b < 2047 * 2 ^ 52 ∧ (steps b : ℚ) * (4 * quarter) = m * 2 ^ j := by
  have hlog : m.log2 ≤ 52 := Nat.lt_succ_iff.1 ((Nat.log2_lt hpos.ne').2 hm)
  have hlow : 2 ^ m.log2 * 2 ^ (52 - m.log2) ≤ m * 2 ^ (52 - m.log2) :=
    Nat.mul_le_mul_right _ (Nat.log2_self_le hpos.ne')
  have hhigh : m * 2 ^ (52 - m.log2) < 2 ^ (m.log2 + 1) * 2 ^ (52 - m.log2) :=
    Nat.mul_lt_mul_of_pos_right Nat.lt_log2_self (Nat.two_pow_pos _)
  rw [← pow_add, Nat.add_sub_cancel' hlog] at hlow
  rw [← pow_add, Nat.add_right_comm, Nat.add_sub_cancel' hlog] at hhigh
  -- The exponent of the smallest double is a variable, so that no such power is computed.
  obtain ⟨k, hk, hunit⟩ : ∃ k : Nat, k = 1074 ∧ minExponent + k = 0 := ⟨1074, rfl, rfl⟩
  have hpower : 52 - m.log2 + (m.log2 + 1022 + j) = j + k := by omega
  refine ⟨(m.log2 + 1022 + j) * 2 ^ 52 + m * 2 ^ (52 - m.log2), by omega, by omega, ?_⟩
  rw [steps_add hhigh.le fun _ => hlow, Nat.mul_assoc, ← pow_add, hpower, pow_add]
  push_cast
  rw [mul_assoc, mul_assoc, ← two_zpow_minExponent_add, hunit, zpow_zero, mul_one]

/-! ## Products and quotients of integers -/

theorem value_ratio (x : Double) :
    (x.ratio.1 : ℚ) / x.ratio.2 = steps x.magnitudeBits * (4 * quarter) := by
  have hvalue : (steps x.magnitudeBits : ℚ) * (4 * quarter) = x.significand * 2 ^ x.exponent := by
    rw [exponent_eq, two_zpow_minExponent_add, steps_magnitudeBits]
    push_cast
    ring
  rw [hvalue, zpow_eq_div two_ne_zero, ratio]
  split
  case isTrue hexponent =>
    have hzero : (-x.exponent).toNat = 0 := by omega
    rw [hzero]
    simp
  case isFalse hexponent =>
    have hzero : x.exponent.toNat = 0 := by omega
    rw [hzero]
    simp [div_eq_mul_inv]

theorem ratio_pos (x : Double) : 0 < x.ratio.2 := by
  rw [ratio]
  split
  · exact Nat.one_pos
  · exact Nat.two_pow_pos _

/-- Whether a double is a positive integer. -/
structure IsInteger (x : Double) (n : Nat) : Prop where
  isNegative : x.isNegative = false
  magnitudeBits_ne : x.magnitudeBits ≠ 0
  value : (x.ratio.1 : ℚ) / x.ratio.2 = n

variable {x y : Double} {n m j b : Nat}

theorem isInteger_ofRatio (hpos : 0 < m) (hm : m < 2 ^ 53) (hj : j ≤ 900) :
    (ofRatio false (m * 2 ^ j) 1).IsInteger (m * 2 ^ j) := by
  obtain ⟨b, hb, hfinite, hvalue⟩ := exists_steps hpos hm hj
  have hcast : ((m * 2 ^ j : Nat) : ℚ) / (1 : Nat) = steps b * (4 * quarter) := by
    rw [hvalue]
    push_cast
    exact div_one _
  have hbits : b < 2 ^ 63 := by omega
  rw [ofRatio_eq (Nat.mul_pos hpos (Nat.two_pow_pos j)) Nat.one_pos (hcast ▸ rounds_steps b)
    hfinite]
  refine ⟨isNegative_ofMagnitude hbits _, ?_, ?_⟩
  · rw [magnitudeBits_ofMagnitude hbits]
    exact hb.ne'
  · rw [value_ratio, magnitudeBits_ofMagnitude hbits, hvalue]
    push_cast
    rfl

/-- The powers of ten up to the 22nd are doubles. -/
theorem isInteger_powerOfTen (hn : n ≤ 22) : (powerOfTen n).IsInteger (10 ^ n) := by
  have hfive : 5 ^ n < 2 ^ 53 :=
    Nat.lt_of_le_of_lt (Nat.pow_le_pow_right (by decide) hn) (by decide)
  have hten : 10 ^ n = 5 ^ n * 2 ^ n := by rw [← Nat.mul_pow]
  rw [powerOfTen, Nat.pow_eq, hten]
  exact isInteger_ofRatio (by positivity) hfive (by omega)

theorem IsInteger.num_pos (h : x.IsInteger n) (hn : 0 < n) : 0 < x.ratio.1 := by
  rw [Nat.pos_iff_ne_zero]
  intro hzero
  have hvalue := h.value
  rw [hzero, Nat.cast_zero, zero_div] at hvalue
  exact hn.ne (by exact_mod_cast hvalue)

theorem IsInteger.mul_eq (hx : x.IsInteger n) (hy : y.IsInteger m) (hn : 0 < n) (hm : 0 < m)
    (hb : Rounds (n * m) b) (hfinite : b < 2047 * 2 ^ 52) : x.mul y = ofMagnitude false b := by
  have hvalue : ((x.ratio.1 * y.ratio.1 : Nat) : ℚ) / (x.ratio.2 * y.ratio.2 : Nat) = n * m := by
    rw [← hx.value, ← hy.value, div_mul_div_comm]
    push_cast
    rfl
  rw [← hvalue] at hb
  rw [mul, hx.isNegative, hy.isNegative]
  exact ofRatio_eq (Nat.mul_pos (hx.num_pos hn) (hy.num_pos hm))
    (Nat.mul_pos (ratio_pos x) (ratio_pos y)) hb hfinite _

theorem IsInteger.div_eq (hx : x.IsInteger n) (hy : y.IsInteger m) (hn : 0 < n) (hm : 0 < m)
    (hb : Rounds (n / m) b) (hfinite : b < 2047 * 2 ^ 52) : x.div y = ofMagnitude false b := by
  have hvalue : ((x.ratio.1 * y.ratio.2 : Nat) : ℚ) / (x.ratio.2 * y.ratio.1 : Nat) = n / m := by
    rw [← hx.value, ← hy.value, div_div_div_eq]
    push_cast
    rfl
  rw [← hvalue] at hb
  rw [div, hx.isNegative, hy.isNegative]
  exact ofRatio_eq (Nat.mul_pos (hx.num_pos hn) (ratio_pos y))
    (Nat.mul_pos (ratio_pos x) (hy.num_pos hm)) hb hfinite _

/-- Numbers that are not too large round to finite doubles. -/
theorem Rounds.lt {v : ℚ} (h : Rounds v b) (hv : v ≤ 2 ^ 200) : b < 2047 * 2 ^ 52 := by
  obtain ⟨c, -, hfinite, hvalue⟩ := exists_steps (j := 200) Nat.one_pos (by decide) (by decide)
  rw [Nat.cast_one, one_mul] at hvalue
  refine Nat.lt_of_le_of_lt (not_lt.1 fun hlt => ?_) hfinite
  have hmid : midpoint c ≤ midpoint (b - 1) := by
    rcases Nat.eq_or_lt_of_le (Nat.le_sub_one_of_lt hlt) with heq | hlt
    · rw [heq]
    · exact (midpoint_lt_midpoint hlt).le
  have hhigh : (2 : ℚ) ^ 200 < midpoint c * quarter := by
    rw [← hvalue, midpoint_mul]
    exact mul_lt_mul_of_pos_right (lt_add_of_pos_right _ (by positivity))
      (mul_pos four_pos quarter_pos)
  have hlow : (midpoint c : ℚ) * quarter ≤ midpoint (b - 1) * quarter :=
    mul_le_mul_of_nonneg_right (by exact_mod_cast hmid) quarter_pos.le
  exact absurd (hlow.trans ((h.low (by omega)).trans hv)) (not_le.2 hhigh)

end Double

/-! ## Numbers of few digits -/

namespace Number.Lexeme

open Double (Rounds ofMagnitude)

/-- An integer is multiplied or divided by a power of ten, with one rounding. -/
theorem scale?_eq {s b : Nat} {e : Int} (hpos : 0 < s) (hs : s < 2 ^ 53) (he : e.natAbs ≤ 22)
    (hb : Rounds (s * 10 ^ e) b) (hfinite : b < 2047 * 2 ^ 52) :
    scale? s e = some (ofMagnitude false b) := by
  have hx : (Double.ofRatio false s 1).IsInteger s := by
    simpa using Double.isInteger_ofRatio (j := 0) hpos hs (by decide)
  rw [scale?]
  dsimp only
  split
  case isTrue hnegative =>
    have hvalue : (s * 10 ^ e : ℚ) = s / (10 ^ e.natAbs : Nat) := by
      have hexponent : e = -(e.natAbs : Int) := by omega
      rw [hexponent, zpow_neg, zpow_natCast, Int.natAbs_neg, Int.natAbs_natCast, div_eq_mul_inv]
      push_cast
      rfl
    have hplaces : e.natAbs ≤ maxPower := Nat.le_trans he (by decide)
    rw [hvalue] at hb
    rw [scaleDown, if_pos hplaces,
      hx.div_eq (Double.isInteger_powerOfTen he) hpos (by positivity) hb hfinite]
  case isFalse hnegative =>
    have hvalue : (s * 10 ^ e : ℚ) = s * (10 ^ e.toNat : Nat) := by
      have hexponent : e = (e.toNat : Int) := by omega
      rw [hexponent, zpow_natCast, Int.toNat_natCast]
      push_cast
      rfl
    have hplaces : e.toNat ≤ 22 := by omega
    have hzero : (Double.ofRatio false s 1).isZero = false := by
      simpa [Double.isZero] using hx.magnitudeBits_ne
    have hrounded : (ofMagnitude false b).isFinite := by
      rw [Double.isFinite, Double.biasedExponent_ofMagnitude (by omega)]
      exact decide_eq_true (by omega)
    rw [hvalue] at hb
    rw [hzero, if_neg Bool.false_ne_true, if_neg (by rw [maxPower]; omega),
      hx.mul_eq (Double.isInteger_powerOfTen hplaces) hpos (by positivity) hb hfinite,
      if_pos hrounded]

theorem le_foldl_digits (s : Nat) (ds : List Nat) : s ≤ ds.foldl (fun n d => 10 * n + d) s := by
  induction ds generalizing s with
  | nil => exact Nat.le_refl s
  | cons d ds ih => exact Nat.le_trans (by omega) (ih (10 * s + d))

/-- Digits that fit are all absorbed. -/
theorem absorb_eq {s : Nat} {ds : List Nat} (h : ds.foldl (fun n d => 10 * n + d) s < 2 ^ 64) :
    absorb s ds = (ds.foldl (fun n d => 10 * n + d) s, []) := by
  induction ds generalizing s with
  | nil => rfl
  | cons d ds ih =>
    have hfits : 10 * s + d < Nat.pow 2 64 := Nat.lt_of_le_of_lt (le_foldl_digits _ ds) h
    rw [absorb, if_pos hfits, ih h]
    rfl

/-- Whether a number has so few digits and so small a power of ten that both are doubles. -/
structure IsShort (l : Lexeme) : Prop where
  digits_lt : natOf (l.whole ++ l.fraction.getD []) < 2 ^ 53
  power_le : l.power.natAbs ≤ 22

instance : DecidablePred IsShort := fun l =>
  decidable_of_iff (natOf (l.whole ++ l.fraction.getD []) < 2 ^ 53 ∧ l.power.natAbs ≤ 22)
    ⟨fun h => ⟨h.1, h.2⟩, fun h => ⟨h.1, h.2⟩⟩

theorem IsShort.magnitude_le {l : Lexeme} (h : l.IsShort) : l.magnitude ≤ 2 ^ 200 := by
  have hdigits : (natOf (l.whole ++ l.fraction.getD []) : ℚ) ≤ 2 ^ 53 := by
    exact_mod_cast h.digits_lt.le
  have hpower : (10 : ℚ) ^ l.power ≤ 10 ^ (22 : Int) :=
    zpow_le_zpow_right₀ (by norm_num) (Int.le_natAbs.trans (by exact_mod_cast h.power_le))
  calc l.magnitude ≤ 2 ^ 53 * 10 ^ (22 : Int) :=
        mul_le_mul hdigits hpower (by positivity) (by positivity)
    _ ≤ 2 ^ 200 := by norm_num

/-- A short number is read as the nearest double. -/
theorem IsShort.exists_toDouble?_eq {l : Lexeme} (h : l.IsShort) (hpos : 0 < l.magnitude) :
    ∃ b, Rounds l.magnitude b ∧ l.toDouble? = some (ofMagnitude l.negative b) := by
  obtain ⟨b, hb⟩ := Double.exists_rounds hpos
  refine ⟨b, hb, ?_⟩
  have hdigits : 0 < natOf (l.whole ++ l.fraction.getD []) := by
    rw [Nat.pos_iff_ne_zero]
    intro hzero
    rw [magnitude, hzero, Nat.cast_zero, zero_mul] at hpos
    exact lt_irrefl _ hpos
  have happend : (l.fraction.getD []).foldl (fun n d => 10 * n + d) (natOf l.whole) =
      natOf (l.whole ++ l.fraction.getD []) := List.foldl_append.symm
  have hfits := Nat.lt_trans h.digits_lt (show 2 ^ 53 < 2 ^ 64 by decide)
  have hwhole : absorb 0 l.whole = (natOf l.whole, []) :=
    absorb_eq (Nat.lt_of_le_of_lt (happend ▸ le_foldl_digits _ _) hfits)
  have hfraction : absorb (natOf l.whole) (l.fraction.getD []) =
      (natOf (l.whole ++ l.fraction.getD []), []) := by
    rw [absorb_eq (happend ▸ hfits), happend]
  have hfinite := hb.lt h.magnitude_le
  have hread : ∀ e, e = l.power → ((scale? (natOf (l.whole ++ l.fraction.getD [])) e).map fun x =>
      if l.negative then x.neg else x) = some (ofMagnitude l.negative b) := by
    rintro _ rfl
    rw [scale?_eq hdigits h.digits_lt h.power_le hb hfinite, Option.map_some]
    cases l.negative with
    | false => rfl
    | true =>
      rw [if_pos rfl, Double.neg, Double.isNegative_ofMagnitude (by omega),
        Double.magnitudeBits_ofMagnitude (by omega)]
      rfl
  rw [toDouble?, hwhole]
  dsimp only
  rw [hfraction]
  refine hread _ ?_
  rw [power]
  rcases l.exponent with _ | ⟨negative, ds⟩
  · simp
  · cases negative
    · simp
      omega
    · simp
      omega

end Number.Lexeme

/-! ## Doubles that are read back -/

namespace Number

/-- A double with a short text is read back. -/
theorem toNumber?_parts_float {x : Double} (hshort : (float x).parts.IsShort) :
    (float x).parts.toNumber? = some (float x) := by
  have hpoint : ((float x).parts.fraction.isSome || (float x).parts.exponent.isSome) = true := by
    rw [Bool.or_eq_true]
    exact isSome_parts_float x
  rw [Lexeme.toNumber?, if_pos hpoint]
  rcases magnitude_parts_float x with ⟨hbits, -⟩ | ⟨hbits, hpos, hholds⟩
  · have hzero : x = Double.ofMagnitude x.isNegative 0 := hbits ▸ x.ofMagnitude_eq.symm
    rw [hzero]
    cases x.isNegative <;> decide +kernel
  · obtain ⟨b, hb, hread⟩ := hshort.exists_toDouble?_eq hpos
    obtain rfl := hb.unique ((Decimal.Interval.holds_iff_rounds hbits).1 hholds)
    rw [hread, negative_parts_float, Option.map_some, Double.ofMagnitude_eq]

end Number

end Gazette
