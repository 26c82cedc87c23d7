import Gazette.Proofs.Number.Spelling
import Mathlib.Data.Nat.Cast.Order.Field
import Mathlib.Tactic.Linarith
import Mathlib.Tactic.Positivity

/-!
# Shortest decimals stand for their doubles

The finite doubles of one sign are numbered by their bits, and `steps` gives the size of each in
units of the smallest.  The reals that round to a double are those between the points half-way to
its neighbours (`midpoint`), so that no two doubles share one of them (`Rounds.unique`).
Decimals of seventeen digits are close enough to each other for one of them to lie there, so every
finite double has a shortest decimal (`exists_shortest?`).
-/

namespace Gazette

namespace Double

variable {x y : Double}

/-! ## Bits -/

theorem eq_of_bits (hsign : x.isNegative = y.isNegative)
    (hbits : x.magnitudeBits = y.magnitudeBits) : x = y := by
  obtain ⟨x⟩ := x
  obtain ⟨y⟩ := y
  have hx := x.toNat_lt
  have hy := y.toNat_lt
  simp only [isNegative, magnitudeBits, Nat.pow_eq, decide_eq_decide] at hsign hbits
  have htoNat : x.toNat = y.toNat := by
    rcases Nat.lt_or_ge x.toNat (2 ^ 63) with hlow | hlow
    · have hlow' : y.toNat < 2 ^ 63 := by
        rw [← not_le, ← hsign, not_le]
        exact hlow
      rwa [Nat.mod_eq_of_lt hlow, Nat.mod_eq_of_lt hlow'] at hbits
    · have hlow' := hsign.1 hlow
      omega
  rw [UInt64.toNat_inj.1 htoNat]

theorem magnitudeBits_ofMagnitude {b : Nat} (h : b < 2 ^ 63) (negative : Bool) :
    (ofMagnitude negative b).magnitudeBits = b := by
  simp only [magnitudeBits, ofMagnitude, UInt64.toNat_ofNat', Nat.pow_eq]
  split <;> omega

theorem isNegative_ofMagnitude {b : Nat} (h : b < 2 ^ 63) (negative : Bool) :
    (ofMagnitude negative b).isNegative = negative := by
  rw [isNegative, ofMagnitude, UInt64.toNat_ofNat']
  cases negative with
  | true => exact decide_eq_true (by simp only [Nat.pow_eq, if_true]; omega)
  | false => exact decide_eq_false (by simp only [Nat.pow_eq, Bool.false_eq_true, if_false]; omega)

theorem ofMagnitude_eq (x : Double) : ofMagnitude x.isNegative x.magnitudeBits = x := by
  have hlt : x.magnitudeBits < 2 ^ 63 := Nat.mod_lt _ (by decide)
  exact eq_of_bits (isNegative_ofMagnitude hlt _) (magnitudeBits_ofMagnitude hlt _)

theorem biasedExponent_ofMagnitude {b : Nat} (h : b < 2 ^ 63) (negative : Bool) :
    (ofMagnitude negative b).biasedExponent = b / 2 ^ 52 := by
  rw [biasedExponent, magnitudeBits_ofMagnitude h]
  rfl

/-! ## The size of doubles -/

/-- How often the unit of the smallest doubles has doubled at the bits `b`. -/
def place (b : Nat) : Nat := b / 2 ^ 52 - 1

/-- The size of the double with the bits `b`, in units of the smallest one. -/
def steps (b : Nat) : Nat := (b - place b * 2 ^ 52) * 2 ^ place b

theorem significand_eq (x : Double) :
    x.significand = x.magnitudeBits - place x.magnitudeBits * 2 ^ 52 := by
  have hdiv := Nat.div_add_mod x.magnitudeBits (2 ^ 52)
  by_cases h : x.biasedExponent = 0
  · rw [significand, if_pos h]
    simp only [biasedExponent, fractionBits, Nat.pow_eq, place] at h ⊢
    omega
  · rw [significand, if_neg h]
    simp only [biasedExponent, fractionBits, Nat.pow_eq, place] at h ⊢
    omega

theorem exponent_eq (x : Double) : x.exponent = minExponent + place x.magnitudeBits := by
  by_cases h : x.biasedExponent = 0
  · rw [exponent, if_pos h, place]
    simp only [biasedExponent, fractionBits, Nat.pow_eq] at h
    simp [h]
  · rw [exponent, if_neg h]
    rfl

/-- The unit is the same for the next double, or the next double is the first with a larger one. -/
theorem place_succ (b : Nat) : place (b + 1) = place b ∨
    place (b + 1) = place b + 1 ∧ b + 1 = (place b + 2) * 2 ^ 52 := by
  simp only [place]
  omega

theorem place_mul_le (b : Nat) : place b * 2 ^ 52 ≤ b := by
  simp only [place]
  omega

theorem steps_succ (b : Nat) : steps (b + 1) = steps b + 2 ^ place b := by
  have hle := place_mul_le b
  rcases place_succ b with h | ⟨h, hb⟩
  · have hsucc : b + 1 - place b * 2 ^ 52 = b - place b * 2 ^ 52 + 1 := by omega
    rw [steps, steps, h, hsucc]
    ring
  · have hnext : b + 1 - (place b + 1) * 2 ^ 52 = 2 ^ 52 := by
      rw [hb, ← Nat.sub_mul]
      simp
    have hlast : b - place b * 2 ^ 52 = 2 * 2 ^ 52 - 1 := by omega
    rw [steps, steps, h, hnext, hlast, pow_succ, Nat.sub_mul]
    have hpos : 1 * 2 ^ place b ≤ 2 * 2 ^ 52 * 2 ^ place b :=
      Nat.mul_le_mul_right _ (by norm_num)
    omega

theorem steps_lt_steps {a b : Nat} (h : a < b) : steps a < steps b := by
  refine strictMono_nat_of_lt_succ (fun n => ?_) h
  rw [steps_succ]
  exact Nat.lt_add_of_pos_right (by positivity)

/-- Four times the point half-way between the doubles with the bits `b` and `b + 1`. -/
def midpoint (b : Nat) : Nat := 2 * (steps b + steps (b + 1))

theorem midpoint_lt_midpoint {a b : Nat} (h : a < b) : midpoint a < midpoint b := by
  have hlow := steps_lt_steps h
  have hhigh : steps (a + 1) < steps (b + 1) := steps_lt_steps (Nat.succ_lt_succ h)
  simp only [midpoint]
  omega

theorem midpoint_eq (b : Nat) :
    midpoint b = (4 * (b - place b * 2 ^ 52) + 2) * 2 ^ place b := by
  rw [midpoint, steps_succ, steps]
  ring

/-- The point below a double is a quarter of its unit away from it if the unit doubles there, and
half of its unit if not. -/
theorem midpoint_pred {b : Nat} (h : b ≠ 0) : midpoint (b - 1) =
    (4 * (b - place b * 2 ^ 52) -
      if b - place b * 2 ^ 52 = 2 ^ 52 ∧ 0 < place b then 1 else 2) * 2 ^ place b := by
  obtain ⟨a, rfl⟩ := Nat.exists_eq_succ_of_ne_zero h
  rw [Nat.succ_eq_add_one, Nat.add_sub_cancel]
  have hle := place_mul_le a
  have hsteps : midpoint a = 4 * steps (a + 1) - 2 * 2 ^ place a := by
    rw [midpoint, steps_succ]
    omega
  rcases place_succ a with hp | ⟨hp, ha⟩
  · rw [if_neg, hsteps, steps, hp]
    · generalize a + 1 - place a * 2 ^ 52 = m
      rw [Nat.sub_mul, Nat.mul_assoc]
    · rw [hp]
      rintro ⟨hfirst, hpos⟩
      simp only [place] at *
      omega
  · have hnext : a + 1 - (place a + 1) * 2 ^ 52 = 2 ^ 52 := by
      rw [ha, ← Nat.sub_mul]
      simp
    rw [hsteps, steps, hp, hnext, if_pos ⟨rfl, Nat.succ_pos _⟩, Nat.sub_mul, pow_succ]
    ring_nf

/-- A quarter of the smallest double. -/
def quarter : ℚ := 2 ^ minExponent / 4

theorem quarter_pos : 0 < quarter := by
  unfold quarter
  positivity

theorem two_zpow_minExponent_add (p : Nat) :
    (2 : ℚ) ^ (minExponent + p) = 2 ^ p * (4 * quarter) := by
  rw [zpow_add₀ two_ne_zero, zpow_natCast, quarter]
  ring

theorem steps_magnitudeBits (x : Double) :
    steps x.magnitudeBits = x.significand * 2 ^ place x.magnitudeBits := by
  rw [steps, significand_eq]

/-! ## Rounding -/

/-- Whether a number rounds to the double with the bits `b`: it lies between the points half-way to
the neighbours of the double, and is one of them only if `b` is even. -/
structure Rounds (v : ℚ) (b : Nat) : Prop where
  low : b ≠ 0 → midpoint (b - 1) * quarter ≤ v
  high : v ≤ midpoint b * quarter
  tie : v = midpoint (b - 1) * quarter ∨ v = midpoint b * quarter → Even b

variable {v : ℚ} {a b : Nat}

theorem Rounds.le (ha : Rounds v a) (hb : Rounds v b) : b ≤ a := by
  by_contra hlt
  rw [not_le] at hlt
  have hlow := hb.low (by omega)
  rcases Nat.lt_or_ge (a + 1) b with hfar | hnear
  · have hmid : (midpoint a : ℚ) < midpoint (b - 1) := by
      exact_mod_cast midpoint_lt_midpoint (show a < b - 1 by omega)
    exact absurd (hlow.trans ha.high) (not_le.2 (mul_lt_mul_of_pos_right hmid quarter_pos))
  · -- Of neighbours, one is even and takes the point between them, and the other does not.
    obtain rfl : b = a + 1 := by omega
    have heq : v = midpoint a * quarter := le_antisymm ha.high hlow
    exact Nat.even_add_one.1 (hb.tie (.inl heq)) (ha.tie (.inr heq))

/-- No number rounds to two doubles. -/
theorem Rounds.unique (ha : Rounds v a) (hb : Rounds v b) : a = b :=
  Nat.le_antisymm (hb.le ha) (ha.le hb)

end Double

/-! ## Intervals -/

/-- A power is the quotient of two powers that are no fractions. -/
theorem zpow_eq_div {b : ℚ} (hb : b ≠ 0) (p : Int) : b ^ p = b ^ p.toNat / b ^ (-p).toNat := by
  rw [← zpow_natCast, ← zpow_natCast, ← zpow_sub₀ hb]
  congr 1
  omega

namespace Decimal.Interval

open Double (place steps midpoint quarter quarter_pos Rounds)

variable {x y : Double}

/-- Whether a number lies in an interval. -/
def Holds (i : Interval) (v : ℚ) : Prop :=
  if i.closed then (i.low : ℚ) / i.den ≤ v ∧ v ≤ i.high / i.den
  else (i.low : ℚ) / i.den < v ∧ v < i.high / i.den

theorem contains_iff {i : Interval} (hden : 0 < i.den) (c : Nat) (p : Int) :
    i.contains c p ↔ i.Holds (c * 10 ^ p) := by
  have hd : (0 : ℚ) < i.den := by exact_mod_cast hden
  have hten : (0 : ℚ) < 10 ^ (-p).toNat := by positivity
  rw [Holds, contains, zpow_eq_div (by norm_num), ← mul_div_assoc]
  split
  · rw [Bool.and_eq_true, decide_eq_true_eq, decide_eq_true_eq, div_le_div_iff₀ hd hten,
      div_le_div_iff₀ hten hd]
    simp only [Nat.pow_eq]
    norm_cast
  · rw [Bool.and_eq_true, decide_eq_true_eq, decide_eq_true_eq, div_lt_div_iff₀ hd hten,
      div_lt_div_iff₀ hten hd]
    simp only [Nat.pow_eq]
    norm_cast

theorem den_ofDouble_pos (x : Double) : 0 < (ofDouble x).den := by
  simp only [ofDouble, Nat.pow_eq]
  positivity

/-- Sizes in an interval are counted in quarters of the unit. -/
theorem mul_scale_div (x : Double) (n : Nat) :
    ((n * Nat.pow 2 x.exponent.toNat : Nat) : ℚ) / (ofDouble x).den =
      (n * 2 ^ place x.magnitudeBits : Nat) * quarter := by
  have hpower : (2 : ℚ) ^ x.exponent = 2 ^ place x.magnitudeBits * (4 * quarter) := by
    rw [Double.exponent_eq, Double.two_zpow_minExponent_add]
  have hden : ((ofDouble x).den : ℚ) = 4 * 2 ^ (-x.exponent).toNat := by
    simp [ofDouble, Nat.pow_eq]
  calc ((n * Nat.pow 2 x.exponent.toNat : Nat) : ℚ) / (ofDouble x).den
      = n / 4 * 2 ^ x.exponent := by
        rw [hden, zpow_eq_div two_ne_zero, Nat.pow_eq]
        push_cast
        field_simp
    _ = (n * 2 ^ place x.magnitudeBits : Nat) * quarter := by
        rw [hpower]
        push_cast
        ring

theorem high_div (x : Double) :
    ((ofDouble x).high : ℚ) / (ofDouble x).den = midpoint x.magnitudeBits * quarter := by
  rw [Double.midpoint_eq, ← mul_scale_div, ← Double.significand_eq]
  rfl

theorem center_div (x : Double) :
    ((ofDouble x).center : ℚ) / (ofDouble x).den = 4 * steps x.magnitudeBits * quarter := by
  have hsteps : 4 * steps x.magnitudeBits = 4 * x.significand * 2 ^ place x.magnitudeBits := by
    rw [Double.steps_magnitudeBits, Nat.mul_assoc]
  have hcast : (4 * steps x.magnitudeBits : ℚ) = (4 * steps x.magnitudeBits : Nat) := by norm_cast
  rw [hcast, hsteps, ← mul_scale_div]
  rfl

theorem low_div (h : x.magnitudeBits ≠ 0) :
    ((ofDouble x).low : ℚ) / (ofDouble x).den = midpoint (x.magnitudeBits - 1) * quarter := by
  have hplace : Double.minExponent < x.exponent ↔ 0 < place x.magnitudeBits := by
    rw [Double.exponent_eq]
    omega
  rw [Double.midpoint_pred h, ← mul_scale_div, ← Double.significand_eq]
  simp only [ofDouble, hplace, Double.fractionBits, Nat.pow_eq]

theorem closed_ofDouble (x : Double) : (ofDouble x).closed ↔ Even x.magnitudeBits := by
  have hle := Double.place_mul_le x.magnitudeBits
  simp only [ofDouble, beq_iff_eq, Double.significand_eq, Nat.even_iff]
  omega

theorem Holds.le {v : ℚ} {i : Interval} (h : i.Holds v) :
    (i.low : ℚ) / i.den ≤ v ∧ v ≤ i.high / i.den := by
  unfold Holds at h
  split at h
  · exact h
  · exact ⟨h.1.le, h.2.le⟩

/-- The reals of the interval are those that round to the double. -/
theorem holds_iff_rounds {v : ℚ} (h : x.magnitudeBits ≠ 0) :
    (ofDouble x).Holds v ↔ Rounds v x.magnitudeBits := by
  rw [Holds, low_div h, high_div]
  by_cases heven : Even x.magnitudeBits
  · rw [if_pos ((closed_ofDouble x).2 heven)]
    exact ⟨fun hv => ⟨fun _ => hv.1, hv.2, fun _ => heven⟩, fun hv => ⟨hv.low h, hv.high⟩⟩
  · rw [if_neg (mt (closed_ofDouble x).1 heven)]
    refine ⟨fun hv => ⟨fun _ => hv.1.le, hv.2.le, fun htie => ?_⟩, fun hv => ⟨?_, ?_⟩⟩
    · exact (htie.elim hv.1.ne' hv.2.ne).elim
    · exact lt_of_le_of_ne (hv.low h) fun htie => heven (hv.tie (.inl htie.symm))
    · exact lt_of_le_of_ne hv.high fun htie => heven (hv.tie (.inr htie))

theorem Holds.magnitudeBits_eq {v : ℚ} (hx : (ofDouble x).Holds v) (hy : (ofDouble y).Holds v)
    (hx0 : x.magnitudeBits ≠ 0) (hy0 : y.magnitudeBits ≠ 0) : x.magnitudeBits = y.magnitudeBits :=
  ((holds_iff_rounds hx0).1 hx).unique ((holds_iff_rounds hy0).1 hy)

/-! ## The search -/

theorem contains_of_nearest? {i : Interval} {p : Int} {c : Nat} (h : i.nearest? p = some c) :
    i.contains c p := by
  unfold nearest? at h
  dsimp only at h
  split at h
  · cases h
  · rename_i hbelow _
    exact Option.some.inj h ▸ hbelow
  · rename_i _ habove
    exact Option.some.inj h ▸ habove
  · rename_i hbelow habove
    split at h
    · exact Option.some.inj h ▸ hbelow
    · split at h
      · exact Option.some.inj h ▸ habove
      · rw [← Option.some.inj h]
        rcases Nat.mod_two_eq_zero_or_one (i.center * Nat.pow 10 (-p).toNat /
          (i.den * Nat.pow 10 p.toNat)) with hmod | hmod
        · rw [hmod]
          exact hbelow
        · rw [hmod]
          exact habove

theorem contains_of_firstGrid {i : Interval} {fuel digits : Nat} {d : Decimal}
    (h : i.firstGrid fuel digits = some d) : i.contains d.coefficient d.exponent := by
  induction fuel generalizing digits with
  | zero => cases h
  | succ fuel ih =>
    rw [firstGrid] at h
    split at h
    · rename_i c hc
      rw [← Option.some.inj h]
      exact contains_of_nearest? hc
    · exact ih h

/-- A grid with a point in the interval is found if the search comes to it. -/
theorem isSome_firstGrid {i : Interval} {fuel digits k : Nat} (hlow : digits ≤ k)
    (hhigh : k < digits + fuel) (h : (i.nearest? (i.magnitude - k)).isSome) :
    (i.firstGrid fuel digits).isSome := by
  induction fuel generalizing digits with
  | zero => omega
  | succ fuel ih =>
    rw [firstGrid]
    split
    · rfl
    · rename_i hnone
      refine ih ?_ (by omega)
      rcases Nat.eq_or_lt_of_le hlow with rfl | hlt
      · rw [hnone] at h
        cases h
      · exact hlt

/-- A point is found if one of the two points of the grid around the double is in the interval. -/
theorem isSome_nearest? {i : Interval} (hden : 0 < i.den) {p : Int}
    (h : ∀ below : Nat, below * (10 : ℚ) ^ p ≤ i.center / i.den →
      (i.center : ℚ) / i.den < (below + 1) * 10 ^ p →
      i.Holds (below * 10 ^ p) ∨ i.Holds ((below + 1 : Nat) * 10 ^ p)) :
    (i.nearest? p).isSome := by
  have hd : (0 : ℚ) < i.den := by exact_mod_cast hden
  have hten : (0 : ℚ) < 10 ^ (-p).toNat := by positivity
  have hgrid : 0 < i.den * Nat.pow 10 p.toNat := by
    rw [Nat.pow_eq]
    positivity
  set below := i.center * Nat.pow 10 (-p).toNat / (i.den * Nat.pow 10 p.toNat) with hbelow
  have hlow : (below : ℚ) * 10 ^ p ≤ i.center / i.den := by
    have hle := Nat.div_mul_le_self (i.center * Nat.pow 10 (-p).toNat) (i.den * Nat.pow 10 p.toNat)
    rw [← hbelow, Nat.mul_comm i.den, ← Nat.mul_assoc, Nat.pow_eq, Nat.pow_eq] at hle
    rw [zpow_eq_div (by norm_num), ← mul_div_assoc, div_le_div_iff₀ hten hd]
    exact_mod_cast hle
  have hhigh : (i.center : ℚ) / i.den < (below + 1) * 10 ^ p := by
    have hlt := (Nat.div_lt_iff_lt_mul hgrid).1 (Nat.lt_succ_self below)
    rw [Nat.mul_comm i.den, ← Nat.mul_assoc, Nat.pow_eq, Nat.pow_eq] at hlt
    rw [zpow_eq_div (by norm_num), ← mul_div_assoc, div_lt_div_iff₀ hd hten]
    exact_mod_cast hlt
  have hcontains := h below hlow hhigh
  rw [← contains_iff hden, ← contains_iff hden] at hcontains
  rw [nearest?]
  dsimp only
  rw [← hbelow]
  split
  · rename_i hfalse hfalse'
    rw [hfalse, hfalse'] at hcontains
    exact absurd hcontains (by decide)
  · rfl
  · rfl
  · split
    · rfl
    · split <;> rfl

theorem lt_pow_digitCount {n : Nat} (h : 0 < n) : n < 10 ^ digitCount n := by
  rw [digitCount, if_neg h.ne']
  exact (Nat.length_toDigits_le_iff (by decide) Nat.length_toDigits_pos).1 (Nat.le_refl _)

theorem pow_digitCount_le {n : Nat} (h : 0 < n) : 10 ^ (digitCount n - 1) ≤ n := by
  rw [digitCount, if_neg h.ne']
  rcases Nat.eq_zero_or_pos ((Nat.toDigits 10 n).length - 1) with hlength | hlength
  · rw [hlength]
    exact h
  · have hpos : 0 < (Nat.toDigits 10 n).length := Nat.length_toDigits_pos
    by_contra hlt
    have hle := (Nat.length_toDigits_le_iff (by decide) hlength).2 (not_le.1 hlt)
    omega

/-- The double is not less than the power of ten below its magnitude. -/
theorem pow_magnitude_le {i : Interval} (hden : 0 < i.den) (hcenter : 0 < i.center) :
    (10 : ℚ) ^ (i.magnitude - 1) ≤ i.center / i.den := by
  have hd : (0 : ℚ) < i.den := by exact_mod_cast hden
  have hc : (0 : ℚ) < i.center := by exact_mod_cast hcenter
  rw [magnitude]
  split
  · rename_i hle
    have hpos : 0 < i.center / i.den := Nat.div_pos hle hden
    have hpow : (10 : ℚ) ^ (digitCount (i.center / i.den) - 1) ≤ (i.center / i.den : Nat) := by
      exact_mod_cast pow_digitCount_le hpos
    have hcount : 1 ≤ digitCount (i.center / i.den) := by
      rw [digitCount, if_neg hpos.ne']
      exact Nat.length_toDigits_pos
    have hexponent : (digitCount (i.center / i.den) : Int) - 1 =
        ((digitCount (i.center / i.den) - 1 : Nat) : Int) := by omega
    rw [hexponent, zpow_natCast]
    exact hpow.trans Nat.cast_div_le
  · rename_i hlt
    have hpos : 0 < (i.den - 1) / i.center := Nat.div_pos (by omega) hcenter
    have hpow := lt_pow_digitCount hpos
    have hle : i.den ≤ 10 ^ digitCount ((i.den - 1) / i.center) * i.center := by
      have hsucc := (Nat.div_lt_iff_lt_mul hcenter).1 hpow
      omega
    have hcast : (i.den : ℚ) ≤ 10 ^ digitCount ((i.den - 1) / i.center) * i.center := by
      exact_mod_cast hle
    have hexponent : (1 : Int) - digitCount ((i.den - 1) / i.center) - 1 =
        -(digitCount ((i.den - 1) / i.center) : Int) := by omega
    rw [hexponent, zpow_neg, zpow_natCast, inv_le_comm₀ (by positivity) (by positivity), inv_div,
      div_le_iff₀ hc]
    exact hcast

/-! ## The shortest decimal -/

theorem Holds.of_lt {i : Interval} {v : ℚ} (hlow : (i.low : ℚ) / i.den < v)
    (hhigh : v < i.high / i.den) : i.Holds v := by
  unfold Holds
  split
  · exact ⟨hlow.le, hhigh.le⟩
  · exact ⟨hlow, hhigh⟩

section Quarters

variable {x : Double}

theorem significand_bounds (h : x.magnitudeBits ≠ 0) :
    1 ≤ x.significand ∧ x.significand < 2 ^ 53 := by
  rw [Double.significand_eq, place]
  omega

/-! The sizes of a double and of the ends of its interval, in quarters of its unit. -/

theorem steps_mul_quarter (x : Double) : 4 * steps x.magnitudeBits * quarter =
    4 * x.significand * (2 ^ place x.magnitudeBits * quarter) := by
  rw [Double.steps_magnitudeBits]
  push_cast
  ring

theorem high_div_quarters (x : Double) : ((ofDouble x).high : ℚ) / (ofDouble x).den =
    (4 * x.significand + 2) * (2 ^ place x.magnitudeBits * quarter) := by
  rw [high_div, Double.midpoint_eq, ← Double.significand_eq]
  push_cast
  ring

theorem low_div_quarters (h : x.magnitudeBits ≠ 0) :
    ((ofDouble x).low : ℚ) / (ofDouble x).den =
        (4 * x.significand - 2) * (2 ^ place x.magnitudeBits * quarter) ∨
      x.significand = 2 ^ 52 ∧ ((ofDouble x).low : ℚ) / (ofDouble x).den =
        (4 * x.significand - 1) * (2 ^ place x.magnitudeBits * quarter) := by
  have hpos := (significand_bounds h).1
  rw [low_div h, Double.midpoint_pred h, ← Double.significand_eq]
  split
  · rename_i hfirst
    refine .inr ⟨hfirst.1, ?_⟩
    rw [Nat.cast_mul, Nat.cast_sub (by omega)]
    push_cast
    ring
  · refine .inl ?_
    rw [Nat.cast_mul, Nat.cast_sub (by omega)]
    push_cast
    ring

/-- A grid that is fine enough for the double has a point in its interval. -/
theorem holds_of_fine (h : x.magnitudeBits ≠ 0) {g : ℚ}
    (hg : 10 ^ 16 * g ≤ 4 * steps x.magnitudeBits * quarter) {below : Nat}
    (hlow : below * g ≤ 4 * steps x.magnitudeBits * quarter)
    (hhigh : 4 * steps x.magnitudeBits * quarter < (below + 1) * g) :
    (ofDouble x).Holds (below * g) ∨ (ofDouble x).Holds ((below + 1 : Nat) * g) := by
  have hlowEnd := low_div_quarters h
  have hhighEnd := high_div_quarters x
  rw [steps_mul_quarter] at hg hlow hhigh
  obtain ⟨k, hk, hkpos⟩ : ∃ k : ℚ, 2 ^ place x.magnitudeBits * quarter = k ∧ 0 < k :=
    ⟨_, rfl, mul_pos (by positivity) quarter_pos⟩
  rw [hk] at hg hlow hhigh hlowEnd hhighEnd
  have hm : (1 : ℚ) ≤ x.significand ∧ (x.significand : ℚ) < 2 ^ 53 := by
    exact_mod_cast significand_bounds h
  have hmk : x.significand * k < 2 ^ 53 * k := mul_lt_mul_of_pos_right hm.2 hkpos
  rcases lt_or_ge (((below : ℚ) + 1) * g) ((4 * x.significand + 2) * k) with habove | habove
  · refine .inr (Holds.of_lt ?_ ?_)
    · push_cast
      rcases hlowEnd with heq | ⟨-, heq⟩ <;> rw [heq] <;> linarith
    · push_cast
      rwa [hhighEnd]
  · -- The point above is too far away, so that the point below is near.
    rcases hlowEnd with heq | ⟨hfirst, -⟩
    · refine .inl (Holds.of_lt ?_ ?_)
      · rw [heq]
        linarith
      · rw [hhighEnd]
        linarith
    · have hm52 : (x.significand : ℚ) * k = 2 ^ 52 * k := by
        rw [hfirst]
        norm_cast
      exfalso
      linarith

end Quarters

/-- Seventeen digits suffice. -/
theorem isSome_nearest?_seventeen {x : Double} (h : x.magnitudeBits ≠ 0) :
    ((ofDouble x).nearest? ((ofDouble x).magnitude - 17)).isSome := by
  have hcenter : 0 < (ofDouble x).center := by
    have hm : 0 < x.significand := (significand_bounds h).1
    simp only [ofDouble, Nat.pow_eq]
    positivity
  refine isSome_nearest? (den_ofDouble_pos x) fun below hlow hhigh => ?_
  have hpow := pow_magnitude_le (den_ofDouble_pos x) hcenter
  rw [center_div] at hlow hhigh hpow
  refine holds_of_fine h ?_ hlow hhigh
  have hexponent : (ofDouble x).magnitude - 1 = 16 + ((ofDouble x).magnitude - 17) := by omega
  rw [hexponent, zpow_add₀ (by norm_num)] at hpow
  exact_mod_cast hpow

end Decimal.Interval

namespace Decimal

theorem value_trim (fuel : Nat) (d : Decimal) : (trim fuel d).value = d.value := by
  fun_induction trim fuel d with
  | case1 d => rfl
  | case2 fuel d h ih =>
    have hdiv : d.coefficient = d.coefficient / 10 * 10 := by omega
    rw [ih, value, value, zpow_add_one₀ (by norm_num)]
    conv_rhs => rw [hdiv]
    push_cast
    ring
  | case3 fuel d h => rfl

theorem coefficient_trim_pos {d : Decimal} (h : 0 < d.coefficient) (fuel : Nat) :
    0 < (trim fuel d).coefficient := by
  fun_induction trim fuel d with
  | case1 d => exact h
  | case2 fuel d hzero ih => exact ih (by dsimp only; omega)
  | case3 fuel d _ => exact h

/-- A finite double that is not zero has a shortest decimal, which rounds to it. -/
theorem exists_shortest? {x : Double} (h : x.magnitudeBits ≠ 0) :
    ∃ d, shortest? x = some d ∧ 0 < d.coefficient ∧ (Interval.ofDouble x).Holds d.value := by
  have hsome : ((Interval.ofDouble x).firstGrid maxDigits 1).isSome :=
    Interval.isSome_firstGrid (k := 17) (by decide) (by decide)
      (Interval.isSome_nearest?_seventeen h)
  obtain ⟨d, hd⟩ := Option.isSome_iff_exists.1 hsome
  have hholds : (Interval.ofDouble x).Holds d.value :=
    (Interval.contains_iff (Interval.den_ofDouble_pos x) _ _).1 (Interval.contains_of_firstGrid hd)
  have hpos : 0 < d.coefficient := by
    rw [Nat.pos_iff_ne_zero]
    intro hzero
    have hmid : (0 : ℚ) < Double.midpoint (x.magnitudeBits - 1) := by
      have hsteps : Double.steps (x.magnitudeBits - 1) < Double.steps (x.magnitudeBits - 1 + 1) :=
        Double.steps_lt_steps (Nat.lt_succ_self _)
      exact_mod_cast show 0 < Double.midpoint (x.magnitudeBits - 1) by
        rw [Double.midpoint]
        omega
    have hle := hholds.le.1
    rw [Interval.low_div h, value, hzero, Nat.cast_zero, zero_mul] at hle
    exact absurd (mul_pos hmid Double.quarter_pos) (not_lt.2 hle)
  refine ⟨trim (maxDigits + 1) d, ?_, coefficient_trim_pos hpos _, (value_trim _ d).symm ▸ hholds⟩
  rw [shortest?, hd, Option.map_some]

end Decimal

end Gazette
