import BendSyntax.Number.Decimal
import BendSyntax.Number.Shortest
import Mathlib.Algebra.Order.Field.Basic
import Mathlib.Data.Rat.Cast.Order
import Mathlib.Algebra.Order.Field.Power
import Mathlib.Tactic.Positivity
import Mathlib.Tactic.Linarith
import Mathlib.Tactic.NormNum
import Mathlib.Tactic.Ring
import Mathlib.Tactic.FieldSimp
import Mathlib.Tactic.GCongr

/-! Rounding to 64 bits gives numbers in a normal form. The rational numbers that round to one of them
make an interval, intervals of different numbers lie apart, and the shortest decimal of a number lies in
its interval. -/

namespace BendSyntax

namespace Binary64

/-- A number in the form that rounding gives it: the significand has 53 bits, or the exponent is the
least one. -/
structure Normal (x : Binary64) : Prop where
  bound : x.significand < 2 * leastNormal
  least : leastExponent ≤ x.exponent
  greatest : x.exponent ≤ greatestExponent
  full : leastNormal ≤ x.significand ∨ x.exponent = leastExponent

theorem Normal.zero (negative : Bool) : (zero negative).Normal := by
  constructor <;> simp [Binary64.zero, leastNormal, leastExponent, greatestExponent]

/-! ## Rounding -/

section Quotients

variable {num den : Nat}

theorem scaled_eq (num : Nat) (hden : 0 < den) (q : Int) : 0 < (scaled num den q).2 ∧
    ((scaled num den q).1 : ℚ) / (scaled num den q).2 = num / den / 2 ^ q := by
  unfold scaled
  split
  · rename_i h
    obtain ⟨n, hn⟩ := Int.eq_ofNat_of_zero_le (show 0 ≤ -q by omega)
    obtain rfl : q = -n := by omega
    refine ⟨hden, ?_⟩
    simp [Nat.shiftLeft_eq]
    ring
  · rename_i h
    obtain ⟨n, rfl⟩ := Int.eq_ofNat_of_zero_le (show 0 ≤ q by omega)
    refine ⟨by simp [Nat.shiftLeft_eq, hden], ?_⟩
    simp [Nat.shiftLeft_eq, div_div]

/-- A quotient of natural numbers lies between the quotients of the powers of two around them. -/
theorem quotient_bounds (hnum : num ≠ 0) (hden : den ≠ 0) :
    (2 : ℚ) ^ ((num.log2 : Int) - den.log2 - 1) < num / den ∧
      (num / den : ℚ) < 2 ^ ((num.log2 : Int) - den.log2 + 1) := by
  have hden' : (0 : ℚ) < den := by exact_mod_cast Nat.pos_of_ne_zero hden
  have hlow : (2 : ℚ) ^ num.log2 ≤ num := by exact_mod_cast Nat.log2_self_le hnum
  have hhigh : (num : ℚ) < 2 ^ (num.log2 + 1) := by exact_mod_cast Nat.lt_log2_self
  have hlow' : (2 : ℚ) ^ den.log2 ≤ den := by exact_mod_cast Nat.log2_self_le hden
  have hhigh' : (den : ℚ) < 2 ^ (den.log2 + 1) := by exact_mod_cast Nat.lt_log2_self
  constructor
  · rw [sub_sub, zpow_sub₀ (by norm_num), div_lt_div_iff₀ (by positivity) hden', zpow_natCast,
      show (den.log2 : Int) + 1 = (den.log2 + 1 : Nat) by push_cast; rfl, zpow_natCast]
    calc (2 : ℚ) ^ num.log2 * den ≤ num * den := by gcongr
      _ < num * 2 ^ (den.log2 + 1) := by gcongr
  · rw [sub_add_eq_add_sub, zpow_sub₀ (by norm_num), div_lt_div_iff₀ hden' (by positivity), zpow_natCast,
      show (num.log2 : Int) + 1 = (num.log2 + 1 : Nat) by push_cast; rfl, zpow_natCast]
    calc (num : ℚ) * 2 ^ den.log2 ≤ num * den := by gcongr
      _ < 2 ^ (num.log2 + 1) * den := by gcongr

theorem div_lt_iff {a b n : Nat} (hb : 0 < b) : a / b < n ↔ (a / b : ℚ) < n := by
  rw [Nat.div_lt_iff_lt_mul hb, div_lt_iff₀ (by exact_mod_cast hb)]
  exact_mod_cast Iff.rfl

theorem le_div_iff {a b n : Nat} (hb : 0 < b) : n ≤ a / b ↔ (n : ℚ) ≤ a / b := by
  rw [Nat.le_div_iff_mul_le hb, le_div_iff₀ (by exact_mod_cast hb)]
  exact_mod_cast Iff.rfl

/-- At its exponent a quotient is below `2 ^ 53`, and from `2 ^ 52` on unless the exponent is the least. -/
theorem exponentFor_spec (hnum : num ≠ 0) (hden : den ≠ 0) : leastExponent ≤ exponentFor num den ∧
    (num / den / 2 ^ exponentFor num den : ℚ) < (2 * leastNormal : Nat) ∧
      (exponentFor num den ≠ leastExponent → (leastNormal : ℚ) ≤ num / den / 2 ^ exponentFor num den) := by
  obtain ⟨hlow, hhigh⟩ := quotient_bounds hnum hden
  obtain ⟨hb, hscaled⟩ := scaled_eq num (Nat.pos_of_ne_zero hden) ((num.log2 : Int) - den.log2 - 53)
  have hnormal : (leastNormal : ℚ) = 2 ^ (52 : Int) := by norm_num [leastNormal]
  have hdouble : ((2 * leastNormal : Nat) : ℚ) = 2 ^ (53 : Int) := by norm_num [leastNormal]
  have hpow (n : Int) : (0 : ℚ) < 2 ^ n := zpow_pos (by norm_num) n
  obtain ⟨q, hq, hfull, hbound⟩ : ∃ q, exponentFor num den = max leastExponent q ∧
      (leastNormal : ℚ) ≤ num / den / 2 ^ q ∧ (num / den / 2 ^ q : ℚ) < (2 * leastNormal : Nat) := by
    refine ⟨if (scaled num den ((num.log2 : Int) - den.log2 - 53)).1 /
      (scaled num den ((num.log2 : Int) - den.log2 - 53)).2 < 2 * leastNormal then (num.log2 : Int) - den.log2 - 53
      else (num.log2 : Int) - den.log2 - 53 + 1, rfl, ?_⟩
    rw [hnormal]
    simp only [div_lt_iff hb, hscaled]
    split
    · refine ⟨?_, ‹_›⟩
      rw [le_div_iff₀ (hpow _), ← zpow_add₀ (by norm_num)]
      exact (lt_of_eq_of_lt (by congr 1; omega) hlow).le
    · rename_i hge
      rw [hdouble, not_lt, le_div_iff₀ (hpow _), ← zpow_add₀ (by norm_num)] at hge
      rw [hdouble, le_div_iff₀ (hpow _), div_lt_iff₀ (hpow _), ← zpow_add₀ (by norm_num), ← zpow_add₀ (by norm_num)]
      exact ⟨le_of_eq_of_le (by congr 1; omega) hge, lt_of_lt_of_eq hhigh (by congr 1; omega)⟩
  rw [hq]
  refine ⟨le_max_left _ _, ?_, fun hne => ?_⟩
  · have hnonneg : (0 : ℚ) ≤ num / den := by positivity
    calc (num / den / 2 ^ max leastExponent q : ℚ) ≤ num / den / 2 ^ q :=
          div_le_div_of_nonneg_left hnonneg (hpow q) (zpow_le_zpow_right₀ (by norm_num) (le_max_right _ _))
      _ < (2 * leastNormal : Nat) := hbound
  · rwa [max_eq_right ((max_choice leastExponent q).resolve_left hne ▸ le_max_left _ _)]

theorem roundHalfEven_cases (a b : Nat) : roundHalfEven a b = a / b ∨ roundHalfEven a b = a / b + 1 := by
  unfold roundHalfEven
  dsimp only
  split
  · exact .inr rfl
  · exact .inl rfl

/-- What a quotient is rounded to is in normal form. -/
theorem Normal.of_nearest? {negative : Bool} {x : Binary64} (hden : den ≠ 0)
    (h : nearest? negative num den = some x) : x.Normal := by
  unfold nearest? at h
  split at h
  · cases h
    exact .zero negative
  rename_i hnum
  obtain ⟨hleast, hbound, hfull⟩ := exponentFor_spec hnum hden
  generalize exponentFor num den = q at *
  obtain ⟨hb, hscaled⟩ := scaled_eq num (Nat.pos_of_ne_zero hden) q
  dsimp only at h
  generalize hrounded : roundHalfEven (scaled num den q).1 (scaled num den q).2 = m at h
  rw [← hscaled, ← div_lt_iff hb] at hbound
  rw [← hscaled, ← le_div_iff hb] at hfull
  have hm := roundHalfEven_cases (scaled num den q).1 (scaled num den q).2
  rw [hrounded] at hm
  split at h
  · dsimp only at h
    split at h
    · cases h
      exact ⟨by simp [leastNormal], by dsimp only; omega, ‹_›, .inl le_rfl⟩
    · cases h
  · dsimp only at h
    split at h
    · cases h
      refine ⟨by dsimp only; omega, hleast, ‹_›, ?_⟩
      by_cases hq : q = leastExponent
      · exact .inr hq
      · have hlower := hfull hq
        exact .inl (by dsimp only; omega)
    · cases h

end Quotients

/-- What a decimal numeral denotes is in normal form. -/
theorem Normal.of_read? {cs : List Char} {x : Binary64} (h : Decimal.read? cs = some x) : x.Normal := by
  obtain ⟨d, -, hd⟩ := Option.bind_eq_some_iff.mp h
  unfold Decimal.nearest? at hd
  dsimp only at hd
  split_ifs at hd
  · cases hd
    exact .zero _
  · cases hd
    exact .zero _
  · exact .of_nearest? one_ne_zero hd
  · exact .of_nearest? (Nat.ne_of_gt (Nat.pow_pos (by decide))) hd

/-! ## Intervals -/

namespace Rounding

variable (r : Rounding)

/-- `n` units as a rational number. -/
def units (n : Nat) : ℚ := n * 2 ^ r.unit

/-- The numbers of the interval. -/
def Covers (v : ℚ) : Prop :=
  if r.closed then r.units r.low ≤ v ∧ v ≤ r.units r.high else r.units r.low < v ∧ v < r.units r.high

theorem inUnits_eq (n : Nat) :
    0 < (r.inUnits n).2 ∧ ((r.inUnits n).1 : ℚ) = r.units n * (r.inUnits n).2 := by
  unfold inUnits units
  split
  · rename_i h
    obtain ⟨k, hk⟩ := Int.eq_ofNat_of_zero_le h
    simp [hk, Nat.shiftLeft_eq]
  · rename_i h
    obtain ⟨k, hk⟩ := Int.eq_ofNat_of_zero_le (show 0 ≤ -r.unit by omega)
    have hunit : r.unit = -k := by omega
    simp [hunit, Nat.shiftLeft_eq]

theorem snd_inUnits (m n : Nat) : (r.inUnits m).2 = (r.inUnits n).2 := by
  unfold inUnits
  split <;> rfl

theorem holds_iff (c : Nat) (k : Int) : r.holds c k = true ↔ r.Covers (c * 10 ^ k) := by
  obtain ⟨hden, hlow⟩ := r.inUnits_eq r.low
  obtain ⟨-, hhigh⟩ := r.inUnits_eq r.high
  rw [r.snd_inUnits r.high r.low] at hhigh
  have hden' : (0 : ℚ) < (r.inUnits r.low).2 := by exact_mod_cast hden
  -- the decimal in the same units, as a quotient
  obtain ⟨c', d, hd, hpair, hc⟩ : ∃ c' d : Nat, 0 < d ∧
      (if 0 ≤ k then (c * Nat.pow 10 k.toNat * (r.inUnits r.low).2, 1)
        else (c * (r.inUnits r.low).2, Nat.pow 10 (-k).toNat)) = (c', d) ∧
      (c' : ℚ) = c * 10 ^ k * (r.inUnits r.low).2 * d := by
    split
    · rename_i h
      obtain ⟨n, rfl⟩ := Int.eq_ofNat_of_zero_le h
      exact ⟨_, _, Nat.one_pos, rfl, by simp⟩
    · rename_i h
      obtain ⟨n, hn⟩ := Int.eq_ofNat_of_zero_le (show 0 ≤ -k by omega)
      obtain rfl : k = -n := by omega
      refine ⟨_, _, Nat.pow_pos (by decide), rfl, ?_⟩
      simp
      field_simp
  have hd' : (0 : ℚ) < d := by exact_mod_cast hd
  have hle : (r.inUnits r.low).1 * d ≤ c' ↔ r.units r.low ≤ c * 10 ^ k := by
    rw [← Nat.cast_le (α := ℚ), Nat.cast_mul, hlow, hc, mul_le_mul_iff_of_pos_right hd',
      mul_le_mul_iff_of_pos_right hden']
  have hge : c' ≤ (r.inUnits r.high).1 * d ↔ c * 10 ^ k ≤ r.units r.high := by
    rw [← Nat.cast_le (α := ℚ), Nat.cast_mul, hhigh, hc, mul_le_mul_iff_of_pos_right hd',
      mul_le_mul_iff_of_pos_right hden']
  have hlt : (r.inUnits r.low).1 * d < c' ↔ r.units r.low < c * 10 ^ k := by
    rw [← Nat.cast_lt (α := ℚ), Nat.cast_mul, hlow, hc, mul_lt_mul_iff_of_pos_right hd',
      mul_lt_mul_iff_of_pos_right hden']
  have hgt : c' < (r.inUnits r.high).1 * d ↔ c * 10 ^ k < r.units r.high := by
    rw [← Nat.cast_lt (α := ℚ), Nat.cast_mul, hhigh, hc, mul_lt_mul_iff_of_pos_right hd',
      mul_lt_mul_iff_of_pos_right hden']
  simp only [holds, hpair, Covers]
  split <;> simp [*]

/-- The lower of the two multiples is the last one that is not above the number. -/
theorem around_spec (k : Int) :
    ((r.around k).1 : ℚ) * 10 ^ k ≤ r.units r.value ∧ r.units r.value < ((r.around k).1 + 1) * 10 ^ k := by
  obtain ⟨hden, hvalue⟩ := r.inUnits_eq r.value
  obtain ⟨v, step, hstep, hpair, hv⟩ : ∃ v step : Nat, 0 < step ∧
      (if 0 ≤ k then ((r.inUnits r.value).1, (r.inUnits r.value).2 * Nat.pow 10 k.toNat)
        else ((r.inUnits r.value).1 * Nat.pow 10 (-k).toNat, (r.inUnits r.value).2)) = (v, step) ∧
      (v : ℚ) * 10 ^ k = r.units r.value * step := by
    split
    · rename_i h
      obtain ⟨n, rfl⟩ := Int.eq_ofNat_of_zero_le h
      refine ⟨_, _, Nat.mul_pos hden (Nat.pow_pos (by decide)), rfl, ?_⟩
      simp [hvalue, mul_assoc]
    · rename_i h
      obtain ⟨n, hn⟩ := Int.eq_ofNat_of_zero_le (show 0 ≤ -k by omega)
      obtain rfl : k = -n := by omega
      refine ⟨_, _, hden, rfl, ?_⟩
      simp [hvalue]
  have hstep' : (0 : ℚ) < step := by exact_mod_cast hstep
  have hpow : (0 : ℚ) < 10 ^ k := zpow_pos (by norm_num) k
  have hlower : v / step * step ≤ v := Nat.div_mul_le_self v step
  have hupper : v < (v / step + 1) * step := by
    rw [Nat.mul_comm]
    exact Nat.lt_mul_div_succ v hstep
  have hlower' : ((v / step : Nat) : ℚ) * step ≤ v := by exact_mod_cast hlower
  have hupper' : (v : ℚ) < ((v / step : Nat) + 1) * step := by exact_mod_cast hupper
  have hfirst : (r.around k).1 = v / step := by simp only [around, hpair]
  rw [hfirst]
  constructor
  · refine le_of_mul_le_mul_right ?_ hstep'
    calc ((v / step : Nat) : ℚ) * 10 ^ k * step = ((v / step : Nat) : ℚ) * step * 10 ^ k := by ring
      _ ≤ v * 10 ^ k := by gcongr
      _ = r.units r.value * step := hv
  · refine lt_of_mul_lt_mul_right ?_ hstep'.le
    calc r.units r.value * step = v * 10 ^ k := hv.symm
      _ < (((v / step : Nat) : ℚ) + 1) * step * 10 ^ k := by gcongr
      _ = (((v / step : Nat) : ℚ) + 1) * 10 ^ k * step := by ring

/-- A decimal that is found lies in the interval. -/
theorem holds_of_hit? {k : Int} {c : Nat} (h : r.hit? k = some c) : r.holds c k = true := by
  unfold hit? at h
  dsimp only at h
  split at h
  · split at h <;> cases h <;> assumption
  · cases h
    assumption
  · cases h
    assumption
  · cases h

/-- Where the interval reaches further up than the decimals are apart, one of them is found. -/
theorem isSome_hit? {k : Int} (hlow : r.units r.low < r.units r.value)
    (h : (10 : ℚ) ^ k < r.units r.high - r.units r.value) : (r.hit? k).isSome = true := by
  obtain ⟨hlower, hupper⟩ := r.around_spec k
  have hholds : r.holds ((r.around k).1 + 1) k = true := by
    rw [holds_iff]
    have hbelow : r.units r.low < (((r.around k).1 + 1 : Nat) : ℚ) * 10 ^ k := by
      push_cast
      exact hlow.trans hupper
    have habove : (((r.around k).1 + 1 : Nat) : ℚ) * 10 ^ k < r.units r.high := by
      push_cast
      linarith
    unfold Covers
    split
    · exact ⟨hbelow.le, habove.le⟩
    · exact ⟨hbelow, habove⟩
  unfold hit?
  dsimp only
  rw [hholds]
  cases r.holds (r.around k).1 k with
  | true => dsimp only; split <;> rfl
  | false => rfl

/-- A search that may go on to decimals close enough together comes to one in the interval. -/
theorem holds_search (hlow : r.units r.low < r.units r.value) (n : Nat) {k : Int}
    (h : (10 : ℚ) ^ (k - n) < r.units r.high - r.units r.value) :
    r.holds (r.search (n + 1) k).1 (r.search (n + 1) k).2 = true := by
  induction n generalizing k with
  | zero =>
      obtain ⟨c, hc⟩ := Option.isSome_iff_exists.mp (r.isSome_hit? hlow (by simpa using h))
      simpa [search, hc] using r.holds_of_hit? hc
  | succ n ih =>
      rw [search]
      cases hhit : r.hit? k with
      | some c => exact r.holds_of_hit? hhit
      | none => exact ih (by rwa [sub_sub, add_comm 1 (n : ℤ), ← Nat.cast_succ])

end Rounding

/-! ## Shortest decimals -/

/-- The power of ten that the search begins with for numbers of the magnitude `2 ^ top`. -/
def firstPower (top : Int) : Int :=
  if 0 ≤ top then top * 30103 / 100000 + 1 else top * 30102 / 100000 + 1

/-- Twenty powers of ten on, decimals are closer together than numbers of 53 bits. -/
theorem firstPower_lt (t : Nat) (h : t < 2098) :
    2 ^ (54 - ((t : Int) - 1073)).toNat * 10 ^ (firstPower (t - 1073) - 19).toNat <
      2 ^ ((t : Int) - 1073 - 54).toNat * 10 ^ (19 - firstPower (t - 1073)).toNat := by
  have hall : ∀ t : Nat, t < 2098 →
      2 ^ (54 - ((t : Int) - 1073)).toNat * 10 ^ (firstPower (t - 1073) - 19).toNat <
        2 ^ ((t : Int) - 1073 - 54).toNat * 10 ^ (19 - firstPower (t - 1073)).toNat := by
    decide +kernel
  exact hall t h

theorem zpow_eq_div {b : ℚ} (hb : b ≠ 0) (n : Int) : b ^ n = b ^ n.toNat / b ^ (-n).toNat := by
  rw [← zpow_natCast, ← zpow_natCast, ← zpow_sub₀ hb]
  congr 1
  omega

theorem ten_zpow_lt {top : Int} (hmin : -1073 ≤ top) (hmax : top ≤ 1024) :
    (10 : ℚ) ^ (firstPower top - 19) < 2 ^ (top - 54) := by
  obtain ⟨t, ht⟩ := Int.eq_ofNat_of_zero_le (show 0 ≤ top + 1073 by omega)
  obtain rfl : top = t - 1073 := by omega
  have hnat := firstPower_lt t (by omega)
  generalize firstPower (t - 1073) = p at hnat ⊢
  rw [zpow_eq_div (by norm_num : (10 : ℚ) ≠ 0), zpow_eq_div (by norm_num : (2 : ℚ) ≠ 0), neg_sub, neg_sub,
    div_lt_div_iff₀ (by positivity) (by positivity), mul_comm]
  exact_mod_cast hnat

namespace Normal

variable {x y : Binary64}

theorem log2_le (h : x.Normal) (hpos : 0 < x.significand) : x.significand.log2 ≤ 52 := by
  have hlt : x.significand < 2 ^ 53 := h.bound
  exact Nat.lt_succ_iff.mp ((Nat.log2_lt (by omega)).mpr hlt)

/-- The shortest decimal of a number lies in its interval. -/
theorem covers_shortest (h : x.Normal) (hpos : 0 < x.significand) :
    x.rounding.Covers (x.shortest.1 * 10 ^ x.shortest.2) := by
  have hlog := h.log2_le hpos
  have hunit : (0 : ℚ) < 2 ^ (x.exponent - 2) := zpow_pos (by norm_num) _
  have hlow : x.rounding.low < x.rounding.value := by
    simp only [rounding]
    split <;> omega
  have hbelow : x.rounding.units x.rounding.low < x.rounding.units x.rounding.value := by
    have hcast : (x.rounding.low : ℚ) < x.rounding.value := by exact_mod_cast hlow
    exact mul_lt_mul_of_pos_right hcast hunit
  have habove : x.rounding.units x.rounding.high - x.rounding.units x.rounding.value =
      2 ^ (x.exponent - 1) := by
    simp only [Rounding.units, rounding]
    rw [show x.exponent - 1 = x.exponent - 2 + 1 by omega, zpow_add_one₀ (by norm_num)]
    push_cast
    ring
  have hcoarse : x.coarse = firstPower (x.significand.log2 + x.exponent + 1) := rfl
  have hleast := h.least
  have hgreatest := h.greatest
  simp only [leastExponent, greatestExponent] at hleast hgreatest
  rw [← Rounding.holds_iff]
  refine x.rounding.holds_search hbelow 19 ?_
  rw [habove, hcoarse]
  calc (10 : ℚ) ^ (firstPower (x.significand.log2 + x.exponent + 1) - (19 : Nat)) <
        2 ^ ((x.significand.log2 : Int) + x.exponent + 1 - 54) := ten_zpow_lt (by omega) (by omega)
    _ ≤ 2 ^ (x.exponent - 1) := zpow_le_zpow_right₀ (by norm_num) (by omega)

/-- What the interval of a number reaches to, in quarters of its last place. -/
theorem covers_bounds (hpos : 0 < x.significand) {v : ℚ} (hv : x.rounding.Covers v) :
    ∃ w : ℚ, v = w * 2 ^ (x.exponent - 2) ∧ 4 * x.significand - 2 ≤ w ∧ w ≤ 4 * x.significand + 2 ∧
      (x.significand % 2 = 1 → 4 * x.significand - 2 < w ∧ w < 4 * x.significand + 2) ∧
      (x.significand = leastNormal → leastExponent < x.exponent → 4 * x.significand - 1 ≤ w) := by
  have hunit : (0 : ℚ) < 2 ^ (x.exponent - 2) := zpow_pos (by norm_num) _
  have hscale (n : Nat) : x.rounding.units n = n * 2 ^ (x.exponent - 2) := rfl
  refine ⟨v / 2 ^ (x.exponent - 2), (div_mul_cancel₀ v hunit.ne').symm, ?_⟩
  have hlow : (4 * x.significand - 2 : ℚ) ≤ x.rounding.low ∧
      (x.significand = leastNormal → leastExponent < x.exponent → (4 * x.significand - 1 : ℚ) ≤ x.rounding.low) := by
    simp only [rounding]
    split
    · rw [Nat.cast_sub (by omega)]
      push_cast
      exact ⟨by linarith, fun _ _ => le_rfl⟩
    · rename_i hwide
      rw [Nat.cast_sub (by omega)]
      push_cast
      exact ⟨le_rfl, fun hm he => absurd (by simp [hm, he]) hwide⟩
  have hhigh : (x.rounding.high : ℚ) = 4 * x.significand + 2 := by simp [rounding]
  have hclosed : x.rounding.closed = (x.significand % 2 == 0) := rfl
  unfold Rounding.Covers at hv
  rw [hscale, hscale, hhigh, hclosed] at hv
  split at hv
  · rename_i heven
    rw [← le_div_iff₀ hunit, ← div_le_iff₀ hunit] at hv
    refine ⟨hlow.1.trans hv.1, hv.2, fun hodd => ?_, fun hm he => (hlow.2 hm he).trans hv.1⟩
    simp [hodd] at heven
  · rw [← lt_div_iff₀ hunit, ← div_lt_iff₀ hunit] at hv
    exact ⟨(hlow.1.trans_lt hv.1).le, hv.2.le, fun _ => ⟨hlow.1.trans_lt hv.1, hv.2⟩,
      fun hm he => ((hlow.2 hm he).trans_lt hv.1).le⟩

/-- The intervals of two numbers with the same exponent lie apart. -/
theorem not_lt_significand (hx : 0 < x.significand) (hexponent : x.exponent = y.exponent) {v : ℚ}
    (hvx : x.rounding.Covers v) (hvy : y.rounding.Covers v) : ¬x.significand < y.significand := by
  intro hlt
  obtain ⟨w, rfl, -, hw, hodd, -⟩ := covers_bounds hx hvx
  obtain ⟨w', heq, hw', -, hodd', -⟩ := covers_bounds (hx.trans hlt) hvy
  rw [← hexponent] at heq
  obtain rfl := mul_right_cancel₀ (zpow_ne_zero _ (by norm_num)) heq
  have hnext : x.significand + 1 ≤ y.significand := hlt
  have hnext' : (x.significand : ℚ) + 1 ≤ y.significand := by exact_mod_cast hnext
  -- they meet only between neighbours, of which one is odd
  rcases hnext.lt_or_eq with hfar | hnear
  · have hfar' : (x.significand : ℚ) + 1 < y.significand := by exact_mod_cast hfar
    linarith
  · rcases Nat.mod_two_eq_zero_or_one x.significand with heven | hone
    · have hstrict := hodd' (by omega)
      linarith
    · have hstrict := hodd hone
      linarith

/-- The interval of a number with a greater exponent lies above. -/
theorem not_lt_exponent (hx : x.Normal) (hy : y.Normal) (hpos : 0 < x.significand) {v : ℚ}
    (hvx : x.rounding.Covers v) (hvy : y.rounding.Covers v) : ¬x.exponent < y.exponent := by
  intro hlt
  have hleast : leastExponent < y.exponent := hx.least.trans_lt hlt
  have hfull : leastNormal ≤ y.significand := hy.full.resolve_right hleast.ne'
  have hnormal : (leastNormal : ℚ) = 4503599627370496 := by norm_num [leastNormal]
  have hbound : x.significand + 1 ≤ 2 * leastNormal := hx.bound
  have hbound' : (x.significand : ℚ) + 1 ≤ 2 * leastNormal := by exact_mod_cast hbound
  obtain ⟨w, rfl, -, hw, hodd, -⟩ := covers_bounds hpos hvx
  obtain ⟨w', heq, hw', -, -, hnarrow⟩ := covers_bounds (lt_of_lt_of_le (by decide) hfull) hvy
  have hquarter : 4 * (leastNormal : ℚ) - 1 ≤ w' := by
    rcases hfull.lt_or_eq with hmore | hsame
    · have hmore' : (leastNormal : ℚ) + 1 ≤ y.significand := by exact_mod_cast hmore
      linarith
    · have hnarrow' := hnarrow hsame.symm hleast
      rwa [← hsame] at hnarrow'
  have hscaled : w = w' * 2 ^ (y.exponent - x.exponent) := by
    refine mul_right_cancel₀ (zpow_ne_zero (x.exponent - 2) (by norm_num : (2 : ℚ) ≠ 0)) ?_
    rw [heq, mul_assoc, ← zpow_add₀ (by norm_num)]
    congr 2
    omega
  have htwice : (2 : ℚ) ≤ 2 ^ (y.exponent - x.exponent) := by
    calc (2 : ℚ) = 2 ^ (1 : Int) := (zpow_one 2).symm
      _ ≤ 2 ^ (y.exponent - x.exponent) := zpow_le_zpow_right₀ (by norm_num) (by omega)
  have hdouble : 2 * (4 * (leastNormal : ℚ) - 1) ≤ w := by
    rw [hscaled, mul_comm w']
    exact mul_le_mul htwice hquarter (by rw [hnormal]; norm_num) (by positivity)
  -- they meet only above the greatest significand, which is odd
  rcases hbound.lt_or_eq with hbelow | htop
  · have hbelow' : (x.significand : ℚ) + 1 < 2 * leastNormal := by exact_mod_cast hbelow
    linarith
  · have hstrict := hodd (by simp only [leastNormal] at htop; omega)
    linarith

/-- A rational number lies in the interval of at most one positive number. -/
theorem eq_of_covers (hx : x.Normal) (hy : y.Normal) (hxpos : 0 < x.significand) (hypos : 0 < y.significand)
    {v : ℚ} (hvx : x.rounding.Covers v) (hvy : y.rounding.Covers v) :
    x.significand = y.significand ∧ x.exponent = y.exponent := by
  have hexponent : x.exponent = y.exponent :=
    le_antisymm (not_lt.mp (hy.not_lt_exponent hx hypos hvy hvx)) (not_lt.mp (hx.not_lt_exponent hy hxpos hvx hvy))
  refine ⟨?_, hexponent⟩
  exact le_antisymm (not_lt.mp (not_lt_significand hypos hexponent.symm hvy hvx))
    (not_lt.mp (not_lt_significand hxpos hexponent hvx hvy))

end Normal

end Binary64

end BendSyntax
