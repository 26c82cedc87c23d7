import Gazette.Proofs.Number.Shortest
import Gazette.Proofs.Time.Calendar
import Gazette.Time.Rfc3339
import Mathlib.Algebra.Group.Nat.Defs

/-!
# Timestamps are finite

An instant that a clock can show (`Instant.IsDate`) has a timestamp that is finite as a double
(`Instant.IsDate.isFinite_timestamp`).  Sums and quotients of doubles that are not too large
(`Double.IsWithin`) are not much larger.
-/

namespace Gazette

namespace Double

/-! ## Rounding -/

theorem roundDiv_le (num den : Nat) : roundDiv num den ≤ num / den + 1 := by
  rw [roundDiv]
  have hmod : num / den % 2 < 2 := Nat.mod_lt _ (by decide)
  split
  · omega
  · split
    · omega
    · omega

/-- In a unit that is not too small, a rounded quotient has at most 54 bits. -/
theorem inUnits_le {num den : Nat} (hden : den ≠ 0) {q : Int}
    (hq : (num.log2 : Int) - den.log2 - 53 ≤ q) : inUnits num den q ≤ 2 ^ 54 := by
  have hnum : num < 2 ^ (num.log2 + 1) := Nat.lt_log2_self
  have hlow : 2 ^ den.log2 ≤ den := Nat.log2_self_le hden
  rw [inUnits]
  split
  case isTrue hnonneg =>
    have hlt : num < 2 ^ 54 * (den * 2 ^ q.toNat) := calc
      num < 2 ^ (num.log2 + 1) := hnum
      _ ≤ 2 ^ (54 + (den.log2 + q.toNat)) := Nat.pow_le_pow_right (by decide) (by omega)
      _ = 2 ^ 54 * (2 ^ den.log2 * 2 ^ q.toNat) := by rw [Nat.pow_add, Nat.pow_add]
      _ ≤ 2 ^ 54 * (den * 2 ^ q.toNat) :=
        Nat.mul_le_mul_left _ (Nat.mul_le_mul_right _ hlow)
    have hdiv : num / (den * 2 ^ q.toNat) < 2 ^ 54 :=
      (Nat.div_lt_iff_lt_mul (Nat.mul_pos (Nat.pos_of_ne_zero hden) (Nat.two_pow_pos _))).2 hlt
    exact Nat.le_trans (roundDiv_le _ _) hdiv
  case isFalse hneg =>
    have hlt : num * 2 ^ (-q).toNat < 2 ^ 54 * den := calc
      num * 2 ^ (-q).toNat < 2 ^ (num.log2 + 1) * 2 ^ (-q).toNat :=
        Nat.mul_lt_mul_of_pos_right hnum (Nat.two_pow_pos _)
      _ = 2 ^ (num.log2 + 1 + (-q).toNat) := (Nat.pow_add ..).symm
      _ ≤ 2 ^ (54 + den.log2) := Nat.pow_le_pow_right (by decide) (by omega)
      _ = 2 ^ 54 * 2 ^ den.log2 := Nat.pow_add ..
      _ ≤ 2 ^ 54 * den := Nat.mul_le_mul_left _ hlow
    have hdiv : num * 2 ^ (-q).toNat / den < 2 ^ 54 :=
      (Nat.div_lt_iff_lt_mul (Nat.pos_of_ne_zero hden)).2 hlt
    exact Nat.le_trans (roundDiv_le _ _) hdiv

/-- The unit of a quotient is near its leading bit, unless it is the smallest one. -/
theorem unitExponent_bounds (num den : Nat) :
    (num.log2 : Int) - den.log2 - 53 ≤ unitExponent num den ∧
      unitExponent num den ≤ max ((num.log2 : Int) - den.log2 - 52) (-1074) := by
  simp only [unitExponent, fractionBits, minExponent]
  split <;> omega

/-! ## Numbers that are not too large -/

/-- Whether a number is finite, and at most a little more than `2 ^ k`. -/
def IsWithin (x : Double) (k : Nat) : Prop := x.biasedExponent ≤ k + 1078

variable {x y : Double} {k : Nat}

theorem IsWithin.isFinite (h : x.IsWithin k) (hk : k ≤ 968) : x.isFinite := by
  unfold IsWithin at h
  have hne : x.biasedExponent ≠ 2047 := by omega
  exact decide_eq_true hne

theorem IsWithin.mono (h : x.IsWithin k) {l : Nat} (hkl : k ≤ l) : x.IsWithin l :=
  Nat.le_trans h (Nat.add_le_add_right hkl _)

theorem isWithin_ofRatio {num den : Nat} (hden : den ≠ 0) (h : num ≤ den * 2 ^ k) (hk : k ≤ 968)
    (negative : Bool) : (ofRatio negative num den).IsWithin k := by
  by_cases hnum : num = 0
  · rw [ofRatio, if_pos hnum, zero, IsWithin, biasedExponent_ofMagnitude (by decide)]
    exact Nat.zero_le _
  · have hlog : num.log2 ≤ den.log2 + k := by
      refine Nat.lt_succ_iff.1 ((Nat.log2_lt hnum).2 (Nat.lt_of_le_of_lt h ?_))
      calc den * 2 ^ k < 2 ^ (den.log2 + 1) * 2 ^ k :=
            Nat.mul_lt_mul_of_pos_right Nat.lt_log2_self (Nat.two_pow_pos _)
        _ = 2 ^ (den.log2 + k + 1) := by rw [← Nat.pow_add, Nat.add_right_comm]
    obtain ⟨hlow, hhigh⟩ := unitExponent_bounds num den
    have hunits : inUnits num den (unitExponent num den) ≤ 4 * 2 ^ 52 := inUnits_le hden hlow
    have hplace : (unitExponent num den - minExponent).toNat ≤ k + 1074 := by
      simp only [minExponent]
      omega
    have hmagnitude : (unitExponent num den - minExponent).toNat * 2 ^ 52 +
        inUnits num den (unitExponent num den) ≤ (k + 1078) * 2 ^ 52 := by
      rw [show k + 1078 = k + 1074 + 4 from rfl, Nat.add_mul (k + 1074)]
      exact Nat.add_le_add (Nat.mul_le_mul_right _ hplace) hunits
    have hsmall : (k + 1078) * 2 ^ 52 < 2047 * 2 ^ 52 :=
      Nat.mul_lt_mul_of_pos_right (by omega) (by decide)
    have hlarge := Nat.lt_of_le_of_lt hmagnitude hsmall
    have hratio : ofRatio negative num den = ofMagnitude negative
        ((unitExponent num den - minExponent).toNat * 2 ^ 52 +
          inUnits num den (unitExponent num den)) := by
      rw [ofRatio, if_neg hnum]
      exact if_neg (Nat.not_le_of_lt hlarge)
    have hbits := Nat.lt_trans hlarge (show 2047 * 2 ^ 52 < 2 ^ 63 by decide)
    rw [hratio, IsWithin, biasedExponent_ofMagnitude hbits]
    exact Nat.div_le_of_le_mul (Nat.le_trans hmagnitude (Nat.le_of_eq (Nat.mul_comm ..)))

/-- A number that is not too large is a quotient that is not. -/
theorem IsWithin.ratio (h : x.IsWithin k) :
    x.ratio.2 ≠ 0 ∧ x.ratio.1 ≤ x.ratio.2 * 2 ^ (k + 56) := by
  unfold IsWithin at h
  have hsignificand : x.significand < 2 ^ 53 := by
    have hmod : x.magnitudeBits % 2 ^ 52 < 2 ^ 52 := Nat.mod_lt _ (by decide)
    simp only [significand, fractionBits, Nat.pow_eq]
    split <;> omega
  have hexponent : x.exponent ≤ k + 3 := by
    simp only [exponent, minExponent]
    split <;> omega
  rw [Double.ratio]
  split
  · refine ⟨Nat.one_ne_zero, ?_⟩
    dsimp only
    rw [Nat.one_mul, show k + 56 = 53 + (k + 3) by omega, Nat.pow_add]
    exact Nat.mul_le_mul (Nat.le_of_lt hsignificand)
      (Nat.pow_le_pow_right (by decide) (by omega))
  · refine ⟨Nat.ne_of_gt (Nat.two_pow_pos _), ?_⟩
    refine Nat.le_trans (Nat.le_of_lt hsignificand) (Nat.le_trans ?_ (Nat.le_mul_of_pos_left _
      (Nat.two_pow_pos _)))
    exact Nat.pow_le_pow_right (by decide) (by omega)

theorem isWithin_ofInt {n : Int} (h : n.natAbs ≤ 2 ^ k) (hk : k ≤ 968) : (ofInt n).IsWithin k :=
  isWithin_ofRatio Nat.one_ne_zero (by rwa [Nat.one_mul]) hk _

/-- A quotient by a number of at least one. -/
theorem IsWithin.div (h : x.IsWithin k) (hy : y.ratio.2 ≤ y.ratio.1) (hpos : y.ratio.1 ≠ 0)
    (hk : k ≤ 900) : (x.div y).IsWithin (k + 56) := by
  obtain ⟨hden, hle⟩ := h.ratio
  refine isWithin_ofRatio (Nat.mul_ne_zero hden hpos) ?_ (by omega) _
  calc x.ratio.1 * y.ratio.2 ≤ x.ratio.2 * 2 ^ (k + 56) * y.ratio.1 := Nat.mul_le_mul hle hy
    _ = x.ratio.2 * y.ratio.1 * 2 ^ (k + 56) := Nat.mul_right_comm ..

theorem IsWithin.add (hx : x.IsWithin k) (hy : y.IsWithin k) (hk : k ≤ 900) :
    (x.add y).IsWithin (k + 57) := by
  obtain ⟨hxden, hxle⟩ := hx.ratio
  obtain ⟨hyden, hyle⟩ := hy.ratio
  refine isWithin_ofRatio (Nat.mul_ne_zero hxden hyden) ?_ (by omega) _
  have hsigned (negative : Bool) (n : Nat) : (if negative then -(n : Int) else n).natAbs = n := by
    cases negative <;> simp
  refine Nat.le_trans (Int.natAbs_add_le _ _) ?_
  rw [hsigned, hsigned]
  calc x.ratio.1 * y.ratio.2 + y.ratio.1 * x.ratio.2
      ≤ x.ratio.2 * 2 ^ (k + 56) * y.ratio.2 + y.ratio.2 * 2 ^ (k + 56) * x.ratio.2 :=
        Nat.add_le_add (Nat.mul_le_mul_right _ hxle) (Nat.mul_le_mul_right _ hyle)
    _ = x.ratio.2 * y.ratio.2 * 2 ^ (k + 57) := by
        rw [Nat.mul_right_comm, Nat.mul_right_comm y.ratio.2, Nat.mul_comm y.ratio.2,
          ← Nat.mul_two, Nat.mul_assoc, ← Nat.pow_succ]

end Double

/-! ## Instants -/

namespace Instant

/-- Whether an instant is one that a clock can show: its year is in the range of years, and a leap
second is all that its nanoseconds go beyond a second. -/
structure IsDate (t : Instant) : Prop where
  inRange : Rfc3339.isInRange t
  nanos_lt : t.nanos < 2 * nanosPerSecond

theorem natAbs_seconds_le {t : Instant} (h : Rfc3339.isInRange t) :
    t.seconds.natAbs ≤ 2 ^ 63 := by
  obtain ⟨d, era, hdays, hdate⟩ := EraDay.exists_ofDays (t.seconds.fdiv Rfc3339.secondsPerDay)
  have hrange : -262143 ≤ (d.date era).year ∧ (d.date era).year ≤ 262142 := by
    obtain ⟨hmin, hmax⟩ := Bool.and_eq_true_iff.1 h
    exact hdate ▸ ⟨of_decide_eq_true hmin, of_decide_eq_true hmax⟩
  have hyear := d.year_date era
  have hyears := d.yearOfEra_lt
  have hnumber := d.number_lt
  rw [Int.fdiv_eq_ediv_of_nonneg _ (by decide), Rfc3339.secondsPerDay, Date.daysPerEra,
    Date.daysToEpoch] at hdays
  omega

theorem IsDate.isFinite_timestamp {t : Instant} (h : t.IsDate) : t.timestamp.isFinite := by
  have hnanos : t.nanos < 2 * 1000000000 := h.nanos_lt
  have hseconds : (Double.ofInt t.seconds).IsWithin 63 :=
    Double.isWithin_ofInt (natAbs_seconds_le h.inRange) (by decide)
  have hfraction : ((Double.ofInt t.nanos).div (Double.ofInt nanosPerSecond)).IsWithin 119 := by
    refine Double.IsWithin.div (Double.isWithin_ofInt (k := 63) ?_ (by decide)) ?_ ?_ (by decide)
    · rw [Int.natAbs_natCast]
      omega
    · decide +kernel
    · decide +kernel
  exact ((hseconds.mono (by decide)).add hfraction (by decide)).isFinite (by decide)

end Instant

end Gazette
