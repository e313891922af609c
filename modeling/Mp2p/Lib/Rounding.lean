import Mathlib.Algebra.Order.Field.Power
import Mathlib.Data.Int.ConditionallyCompleteOrder
import Mathlib.Data.Int.Log
import Mathlib.Data.Rat.Floor
import Mathlib.Tactic.FieldSimp
import Mathlib.Tactic.Linarith
import Mathlib.Tactic.Positivity
import Mathlib.Tactic.Ring

/-!
# Rounding to a fixed number of significant bits

Binary floating point without an exponent range: a positive rational is rounded to the nearest
number with `p` significant bits, and a tie goes to the even mantissa. The two facts everything else
uses are that a number that already has `p` bits is left alone and that the error is at most half a
unit in the last place.
-/

namespace Rounding

def halfEven (x : ℚ) : ℤ :=
  if x - ⌊x⌋ < 1 / 2 then ⌊x⌋
  else if 1 / 2 < x - ⌊x⌋ then ⌊x⌋ + 1
  else if 2 ∣ ⌊x⌋ then ⌊x⌋
  else ⌊x⌋ + 1

theorem abs_halfEven_sub_le (x : ℚ) : |(halfEven x : ℚ) - x| ≤ 1 / 2 := by
  have hlo := Int.floor_le x
  have hhi := Int.lt_floor_add_one x
  unfold halfEven
  split_ifs <;> push_cast <;> rw [abs_le] <;> constructor <;> linarith

theorem halfEven_eq_of_abs_sub_lt {x : ℚ} {n : ℤ} (h : |x - n| < 1 / 2) : halfEven x = n := by
  have hround := abs_halfEven_sub_le x
  rw [abs_lt] at h
  rw [abs_le] at hround
  have hlt : ((halfEven x - n : ℤ) : ℚ) < 1 := by push_cast; linarith
  have hgt : (-1 : ℚ) < ((halfEven x - n : ℤ) : ℚ) := by push_cast; linarith
  have hlt' : halfEven x - n < 1 := by exact_mod_cast hlt
  have hgt' : -1 < halfEven x - n := by exact_mod_cast hgt
  omega

@[simp]
theorem halfEven_intCast (n : ℤ) : halfEven n = n :=
  halfEven_eq_of_abs_sub_lt (by simp)

theorem halfEven_mono : Monotone halfEven := by
  intro x y hxy
  rcases lt_trichotomy ⌊x⌋ ⌊y⌋ with hlt | heq | hgt
  · have hx : halfEven x ≤ ⌊x⌋ + 1 := by unfold halfEven; split_ifs <;> omega
    have hy : ⌊y⌋ ≤ halfEven y := by unfold halfEven; split_ifs <;> omega
    omega
  · unfold halfEven
    rw [heq]
    split_ifs <;> first | omega | (exfalso; linarith)
  · exact absurd (Int.floor_le_floor hxy) (by omega)

theorem halfEven_le_iff {x : ℚ} {m : ℤ} :
    halfEven x ≤ m ↔ if 2 ∣ m then x ≤ m + 1 / 2 else x < m + 1 / 2 := by
  have hround := abs_le.mp (abs_halfEven_sub_le x)
  rcases lt_trichotomy x (m + 1 / 2) with hlt | heq | hgt
  · have hle : (halfEven x : ℚ) < (m + 1 : ℤ) := by
      push_cast
      linarith
    have hle' : halfEven x < m + 1 := by exact_mod_cast hle
    refine iff_of_true (by omega) ?_
    split_ifs
    · exact hlt.le
    · exact hlt
  · have hfloor : ⌊x⌋ = m := by
      rw [Int.floor_eq_iff]
      constructor <;> linarith
    have hhalf : x - ⌊x⌋ = 1 / 2 := by
      rw [hfloor]
      linarith
    rw [halfEven, hhalf, if_neg (lt_irrefl _), if_neg (lt_irrefl _), hfloor]
    split_ifs with heven
    · exact iff_of_true le_rfl heq.le
    · exact iff_of_false (by omega) heq.not_lt
  · have hge : (m : ℚ) < halfEven x := by linarith
    have hge' : m < halfEven x := by exact_mod_cast hge
    refine iff_of_false (by omega) ?_
    split_ifs
    · exact hgt.not_ge
    · exact hgt.le.not_gt

theorem halfEven_nonneg {x : ℚ} (hx : 0 ≤ x) : 0 ≤ halfEven x := by
  have h := halfEven_mono hx
  rwa [show halfEven 0 = 0 from by simpa using halfEven_intCast 0] at h

/-- The weight of the last of `p` significant bits of `x`. -/
def ulp (p : ℕ) (x : ℚ) : ℚ := 2 ^ (Int.log 2 x - p + 1)

def round (p : ℕ) (x : ℚ) : ℚ := halfEven (x / ulp p x) * ulp p x

def Representable (p : ℕ) (x : ℚ) : Prop := ∃ m e : ℤ, |m| < 2 ^ p ∧ x = m * 2 ^ e

variable {p : ℕ} {x y : ℚ}

theorem ulp_pos : 0 < ulp p x := by
  unfold ulp
  positivity

@[simp]
theorem round_zero : round p 0 = 0 := by
  have h : halfEven 0 = 0 := by simpa using halfEven_intCast 0
  simp [round, h]

theorem round_nonneg (hx : 0 ≤ x) : 0 ≤ round p x :=
  mul_nonneg (by exact_mod_cast halfEven_nonneg (div_nonneg hx ulp_pos.le)) ulp_pos.le

/-- Rounding moves a number by at most half a unit in the last place. -/
theorem abs_round_sub_le : |round p x - x| ≤ ulp p x / 2 := by
  have hulp := ulp_pos (p := p) (x := x)
  have h := abs_halfEven_sub_le (x / ulp p x)
  have hsplit : round p x - x = (halfEven (x / ulp p x) - x / ulp p x) * ulp p x := by
    unfold round
    field_simp
  rw [hsplit, abs_mul, abs_of_pos hulp]
  calc |(halfEven (x / ulp p x) : ℚ) - x / ulp p x| * ulp p x
      ≤ 1 / 2 * ulp p x := mul_le_mul_of_nonneg_right h hulp.le
    _ = ulp p x / 2 := by ring

theorem ulp_le (hx : 0 < x) : ulp p x ≤ x * 2 / 2 ^ p := by
  have hlog := Int.zpow_log_le_self (R := ℚ) (b := 2) one_lt_two hx
  push_cast at hlog
  have heq : ulp p x = 2 ^ Int.log 2 x * 2 / 2 ^ p := by
    unfold ulp
    rw [zpow_add₀ (by norm_num), zpow_sub₀ (by norm_num), zpow_natCast, zpow_one]
    ring
  rw [heq]
  gcongr

theorem abs_round_sub_le_mul (hx : 0 ≤ x) : |round p x - x| ≤ x / 2 ^ p := by
  rcases hx.eq_or_lt with rfl | hpos
  · simp
  · refine abs_round_sub_le.trans ?_
    have h := ulp_le (p := p) hpos
    calc ulp p x / 2 ≤ x * 2 / 2 ^ p / 2 := by gcongr
      _ = x / 2 ^ p := by ring

theorem log_mul_zpow (hx : 0 < x) (k : ℤ) : Int.log 2 (x * 2 ^ k) = Int.log 2 x + k := by
  have hlo := Int.zpow_log_le_self (R := ℚ) (b := 2) one_lt_two hx
  have hhi := Int.lt_zpow_succ_log_self (R := ℚ) (b := 2) one_lt_two x
  push_cast at hlo hhi
  have hpos : 0 < x * 2 ^ k := by positivity
  apply le_antisymm
  · have h : Int.log 2 (x * 2 ^ k) < Int.log 2 x + k + 1 := by
      rw [← Int.lt_zpow_iff_log_lt one_lt_two hpos]
      push_cast
      rw [show Int.log 2 x + k + 1 = Int.log 2 x + 1 + k by ring, zpow_add₀ (by norm_num)]
      exact mul_lt_mul_of_pos_right hhi (by positivity)
    omega
  · rw [← Int.zpow_le_iff_le_log one_lt_two hpos]
    push_cast
    rw [zpow_add₀ (by norm_num)]
    exact mul_le_mul_of_nonneg_right hlo (by positivity)

theorem ulp_mul_zpow (hx : 0 < x) (k : ℤ) : ulp p (x * 2 ^ k) = ulp p x * 2 ^ k := by
  unfold ulp
  rw [log_mul_zpow hx, ← zpow_add₀ (by norm_num)]
  congr 1
  ring

theorem round_mul_zpow (hx : 0 ≤ x) (k : ℤ) : round p (x * 2 ^ k) = round p x * 2 ^ k := by
  rcases hx.eq_or_lt with rfl | hpos
  · simp
  · unfold round
    rw [ulp_mul_zpow hpos, mul_div_mul_right _ _ (by positivity), mul_assoc]

theorem representable_mul_zpow (hx : Representable p x) (k : ℤ) : Representable p (x * 2 ^ k) := by
  obtain ⟨m, e, hm, rfl⟩ := hx
  exact ⟨m, e + k, hm, by rw [zpow_add₀ (by norm_num), mul_assoc]⟩

theorem round_eq_self (hx : 0 ≤ x) (hrep : Representable p x) : round p x = x := by
  rcases hx.eq_or_lt with rfl | hpos
  · simp
  · obtain ⟨m, e, hm, rfl⟩ := hrep
    have hlog : Int.log 2 ((m : ℚ) * 2 ^ e) < p + e := by
      rw [← Int.lt_zpow_iff_log_lt one_lt_two hpos]
      push_cast
      rw [zpow_add₀ (by norm_num), zpow_natCast]
      refine mul_lt_mul_of_pos_right ?_ (by positivity)
      exact_mod_cast (le_abs_self m).trans_lt hm
    obtain ⟨d, hd⟩ : ∃ d : ℕ, e = Int.log 2 ((m : ℚ) * 2 ^ e) - p + 1 + d :=
      ⟨(e - (Int.log 2 ((m : ℚ) * 2 ^ e) - p + 1)).toNat, by omega⟩
    have hquot : (m : ℚ) * 2 ^ e / ulp p (m * 2 ^ e) = ((m * 2 ^ d : ℤ) : ℚ) := by
      rw [div_eq_iff ulp_pos.ne']
      unfold ulp
      nth_rewrite 1 [hd]
      rw [zpow_add₀ (by norm_num : (2 : ℚ) ≠ 0) _ (d : ℤ), zpow_natCast]
      push_cast
      ring
    unfold round
    rw [hquot, halfEven_intCast, ← hquot, div_mul_cancel₀ _ ulp_pos.ne']

/-- What rounding produces is a multiple of the unit in the last place, of at most `2ᵖ` units. -/
theorem exists_round_eq (hx : 0 < x) :
    ∃ m : ℤ, 0 ≤ m ∧ m ≤ 2 ^ p ∧ round p x = m * ulp p x := by
  refine ⟨halfEven (x / ulp p x), halfEven_nonneg (div_nonneg hx.le ulp_pos.le), ?_, rfl⟩
  have hlt := Int.lt_zpow_succ_log_self (R := ℚ) (b := 2) one_lt_two x
  push_cast at hlt
  have hle : x / ulp p x ≤ ((2 ^ p : ℤ) : ℚ) := by
    rw [div_le_iff₀ ulp_pos]
    unfold ulp
    push_cast
    rw [← zpow_natCast, ← zpow_add₀ (by norm_num)]
    rw [show (p : ℤ) + (Int.log 2 x - p + 1) = Int.log 2 x + 1 by ring]
    exact hlt.le
  simpa only [halfEven_intCast] using halfEven_mono hle

theorem ulp_eq {k : ℤ} (hlo : 2 ^ k ≤ x) (hhi : x < 2 ^ (k + 1)) : ulp p x = 2 ^ (k - p + 1) := by
  have hpos : 0 < x := lt_of_lt_of_le (by positivity) hlo
  have hge : k ≤ Int.log 2 x := (Int.zpow_le_iff_le_log one_lt_two hpos).mp (by push_cast; exact hlo)
  have hlt : Int.log 2 x < k + 1 :=
    (Int.lt_zpow_iff_log_lt one_lt_two hpos).mp (by push_cast; exact hhi)
  rw [ulp, show Int.log 2 x = k by omega]

theorem round_eq_of_abs_sub_lt {m : ℤ} (h : |x - m * ulp p x| < ulp p x / 2) :
    round p x = m * ulp p x := by
  have hulp := ulp_pos (p := p) (x := x)
  have hnear : |x / ulp p x - m| < 1 / 2 := by
    have hsplit : x / ulp p x - m = (x - m * ulp p x) / ulp p x := by
      field_simp
    rw [hsplit, abs_div, abs_of_pos hulp, div_lt_iff₀ hulp]
    linarith
  rw [round, halfEven_eq_of_abs_sub_lt hnear]

section Binade

variable {k j : ℕ} (hj : p + j = k + 1) (hlo : (2 : ℚ) ^ k ≤ x) (hhi : x < 2 ^ (k + 1))
include hj hlo hhi

theorem ulp_eq_two_pow : ulp p x = 2 ^ j := by
  rw [← zpow_natCast] at hlo
  have hhi' : x < 2 ^ ((k : ℤ) + 1) := by exact_mod_cast hhi
  rw [ulp_eq hlo hhi', ← zpow_natCast]
  congr 1
  omega

theorem abs_round_sub_le_two_pow : |round p x - x| ≤ 2 ^ j / 2 := by
  rw [← ulp_eq_two_pow hj hlo hhi]
  exact abs_round_sub_le

/-- A multiple of the unit in the last place that is less than half of it away. -/
theorem round_eq_of_dvd {m : ℕ} (hdvd : 2 ^ j ∣ m) (hnear : |x - m| < 2 ^ j / 2) :
    round p x = m := by
  have hulp := ulp_eq_two_pow hj hlo hhi
  obtain ⟨z, rfl⟩ := hdvd
  have hmul : ((2 ^ j * z : ℕ) : ℚ) = (z : ℤ) * ulp p x := by
    rw [hulp]
    push_cast
    ring
  rw [hmul] at hnear ⊢
  apply round_eq_of_abs_sub_lt
  rwa [hulp] at hnear ⊢

end Binade

theorem two_zpow_le_round (hp : 0 < p) {k : ℤ} (hle : 2 ^ k ≤ x) : 2 ^ k ≤ round p x := by
  have hpos : 0 < x := lt_of_lt_of_le (by positivity) hle
  have hlog := Int.zpow_log_le_self (R := ℚ) (b := 2) one_lt_two hpos
  push_cast at hlog
  have hk : k ≤ Int.log 2 x := (Int.zpow_le_iff_le_log one_lt_two hpos).mp (by push_cast; exact hle)
  have hsplit : (2 : ℚ) ^ Int.log 2 x = ((2 ^ (p - 1) : ℤ) : ℚ) * ulp p x := by
    rw [ulp]
    push_cast
    rw [← zpow_natCast, ← zpow_add₀ (by norm_num)]
    congr 1
    omega
  have hmant : ((2 ^ (p - 1) : ℤ) : ℚ) ≤ x / ulp p x := by
    rw [le_div_iff₀ ulp_pos, ← hsplit]
    exact hlog
  have hround := halfEven_mono hmant
  rw [halfEven_intCast] at hround
  calc (2 : ℚ) ^ k ≤ 2 ^ Int.log 2 x := zpow_le_zpow_right₀ (by norm_num) hk
    _ = ((2 ^ (p - 1) : ℤ) : ℚ) * ulp p x := hsplit
    _ ≤ halfEven (x / ulp p x) * ulp p x :=
        mul_le_mul_of_nonneg_right (by exact_mod_cast hround) ulp_pos.le

theorem two_pow_le_round (hp : 0 < p) {k : ℕ} (hle : 2 ^ k ≤ x) : 2 ^ k ≤ round p x := by
  rw [← zpow_natCast] at hle ⊢
  exact two_zpow_le_round hp hle

theorem round_mono (hp : 0 < p) (hx : 0 ≤ x) (hxy : x ≤ y) : round p x ≤ round p y := by
  rcases hx.eq_or_lt with rfl | hpos
  · rw [round_zero]
    exact round_nonneg hxy
  have hlog : Int.log 2 x ≤ Int.log 2 y := Int.log_mono_right hpos hxy
  rcases hlog.eq_or_lt with heq | hlt
  · have hulp : ulp p x = ulp p y := by rw [ulp, ulp, heq]
    rw [round, round, ← hulp]
    have hmant := halfEven_mono (div_le_div_of_nonneg_right hxy (ulp_pos (p := p) (x := x)).le)
    exact mul_le_mul_of_nonneg_right (by exact_mod_cast hmant) ulp_pos.le
  · -- a power of two lies between the two binades
    obtain ⟨m, -, hm, heq⟩ := exists_round_eq (p := p) hpos
    have hyPos : 0 < y := hpos.trans_le hxy
    have hpow := Int.zpow_log_le_self (R := ℚ) (b := 2) one_lt_two hyPos
    push_cast at hpow
    calc round p x = m * ulp p x := heq
      _ ≤ ((2 ^ p : ℤ) : ℚ) * ulp p x :=
          mul_le_mul_of_nonneg_right (by exact_mod_cast hm) ulp_pos.le
      _ = 2 ^ (Int.log 2 x + 1) := by
          rw [ulp]
          push_cast
          rw [← zpow_natCast, ← zpow_add₀ (by norm_num)]
          congr 1
          ring
      _ ≤ 2 ^ Int.log 2 y := zpow_le_zpow_right₀ (by norm_num) (by omega)
      _ ≤ round p y := two_zpow_le_round hp hpow

/-- `x` is at most the number halfway between `k`, its bits after the first `p` dropped, and the next
number of `p` bits. That one itself counts when its tie goes down. -/
def RoundsWithin (p : ℕ) (k x : ℚ) : Prop :=
  if 2 ∣ ⌊k / ulp p k⌋ then x ≤ (⌊k / ulp p k⌋ + 1 / 2) * ulp p k
  else x < (⌊k / ulp p k⌋ + 1 / 2) * ulp p k

theorem mantissa_bounds (hp : 0 < p) (hx : 0 < x) :
    2 ^ (p - 1) ≤ ⌊x / ulp p x⌋ ∧ ⌊x / ulp p x⌋ < 2 ^ p := by
  have hlo := Int.zpow_log_le_self (R := ℚ) (b := 2) one_lt_two hx
  have hhi := Int.lt_zpow_succ_log_self (R := ℚ) (b := 2) one_lt_two x
  push_cast at hlo hhi
  constructor
  · rw [Int.le_floor, le_div_iff₀ ulp_pos]
    calc ((2 ^ (p - 1) : ℤ) : ℚ) * ulp p x = 2 ^ Int.log 2 x := by
          rw [ulp]
          push_cast
          rw [← zpow_natCast, ← zpow_add₀ (by norm_num)]
          congr 1
          omega
      _ ≤ x := hlo
  · rw [Int.floor_lt, div_lt_iff₀ ulp_pos]
    calc x < 2 ^ (Int.log 2 x + 1) := hhi
      _ = ((2 ^ p : ℤ) : ℚ) * ulp p x := by
          rw [ulp]
          push_cast
          rw [← zpow_natCast, ← zpow_add₀ (by norm_num)]
          congr 1
          ring

/-- What rounds to `k` or below. -/
theorem round_le_iff (hp : 0 < p) {k : ℚ} (hk : 0 < k) (hx : 0 ≤ x) :
    round p x ≤ k ↔ RoundsWithin p k x := by
  have hunit := ulp_pos (p := p) (x := k)
  have hlo := Int.zpow_log_le_self (R := ℚ) (b := 2) one_lt_two hk
  have hhi := Int.lt_zpow_succ_log_self (R := ℚ) (b := 2) one_lt_two k
  push_cast at hlo hhi
  have hbinade : (2 : ℚ) ^ Int.log 2 k ≤ ⌊k / ulp p k⌋ * ulp p k := by
    have hmant : ((2 ^ (p - 1) : ℤ) : ℚ) ≤ ⌊k / ulp p k⌋ := by
      exact_mod_cast (mantissa_bounds hp hk).1
    calc (2 : ℚ) ^ Int.log 2 k = ((2 ^ (p - 1) : ℤ) : ℚ) * ulp p k := by
          rw [ulp]
          push_cast
          rw [← zpow_natCast, ← zpow_add₀ (by norm_num)]
          congr 1
          omega
      _ ≤ ⌊k / ulp p k⌋ * ulp p k := mul_le_mul_of_nonneg_right hmant hunit.le
  have hnext : (⌊k / ulp p k⌋ + 1 / 2) * ulp p k < 2 ^ (Int.log 2 k + 1) := by
    have hmant : (⌊k / ulp p k⌋ : ℚ) + 1 ≤ ((2 ^ p : ℤ) : ℚ) := by
      exact_mod_cast (mantissa_bounds hp hk).2
    calc (⌊k / ulp p k⌋ + 1 / 2) * ulp p k < ((2 ^ p : ℤ) : ℚ) * ulp p k :=
          mul_lt_mul_of_pos_right (by linarith) hunit
      _ = 2 ^ (Int.log 2 k + 1) := by
          rw [ulp]
          push_cast
          rw [← zpow_natCast, ← zpow_add₀ (by norm_num)]
          congr 1
          ring
  rcases lt_or_ge x (2 ^ Int.log 2 k) with hbelow | habove
  · -- below the binade of `k` all rounds within it
    have hround : round p x ≤ k := by
      have hrep : Representable p ((2 : ℚ) ^ Int.log 2 k) :=
        ⟨1, Int.log 2 k, by simpa using one_lt_pow₀ one_lt_two hp.ne', by simp⟩
      calc round p x ≤ round p (2 ^ Int.log 2 k) := round_mono hp hx hbelow.le
        _ = 2 ^ Int.log 2 k := round_eq_self (by positivity) hrep
        _ ≤ k := hlo
    have hlt : x < (⌊k / ulp p k⌋ + 1 / 2) * ulp p k := by
      rw [add_mul]
      linarith
    refine iff_of_true hround ?_
    unfold RoundsWithin
    split_ifs
    · exact hlt.le
    · exact hlt
  rcases lt_or_ge x (2 ^ (Int.log 2 k + 1)) with hsame | hpast
  · have hulp : ulp p x = ulp p k := by rw [ulp_eq habove hsame, ulp]
    have hbound : round p x ≤ k ↔ halfEven (x / ulp p k) ≤ ⌊k / ulp p k⌋ := by
      rw [round, hulp, Int.le_floor, le_div_iff₀ hunit]
    rw [hbound, halfEven_le_iff, RoundsWithin]
    split_ifs
    · rw [div_le_iff₀ hunit]
    · rw [div_lt_iff₀ hunit]
  · have hround := two_zpow_le_round hp hpast
    refine iff_of_false (by linarith) ?_
    unfold RoundsWithin
    split_ifs
    · linarith
    · linarith

theorem representable_round (hp : 0 < p) (hx : 0 ≤ x) : Representable p (round p x) := by
  rcases hx.eq_or_lt with rfl | hpos
  · exact ⟨0, 0, by simp, by simp⟩
  · obtain ⟨m, hnonneg, hle, heq⟩ := exists_round_eq (p := p) hpos
    rcases hle.eq_or_lt with rfl | hlt
    · -- a carry out of the mantissa leaves a power of two
      refine ⟨1, Int.log 2 x - p + 1 + p, by simpa using one_lt_pow₀ one_lt_two hp.ne', ?_⟩
      rw [heq, ulp, zpow_add₀ (by norm_num : (2 : ℚ) ≠ 0) _ (p : ℤ), zpow_natCast]
      push_cast
      ring
    · exact ⟨m, _, by rwa [abs_of_nonneg hnonneg], heq⟩

def FitsBits (p m : ℕ) : Prop := ∃ k e : ℕ, k < 2 ^ p ∧ m = k * 2 ^ e

theorem fitsBits_of_lt {m : ℕ} (h : m < 2 ^ p) : FitsBits p m := ⟨m, 0, h, by simp⟩

theorem representable_natCast_iff {m : ℕ} : Representable p m ↔ FitsBits p m := by
  constructor
  · rintro ⟨k, e, hk, hm⟩
    rcases lt_or_ge e 0 with hneg | hpos
    · -- a fractional unit means the number is below the mantissa already
      refine fitsBits_of_lt ?_
      have hle : (m : ℚ) ≤ |k| := by
        rw [hm]
        calc (k : ℚ) * 2 ^ e ≤ |(k : ℚ)| * 2 ^ e :=
              mul_le_mul_of_nonneg_right (le_abs_self _) (by positivity)
          _ ≤ |(k : ℚ)| * 1 :=
              mul_le_mul_of_nonneg_left (zpow_le_one_of_nonpos₀ (by norm_num) hneg.le) (abs_nonneg _)
          _ = ((|k| : ℤ) : ℚ) := by push_cast; ring
      have hle' : (m : ℤ) ≤ |k| := by exact_mod_cast hle
      exact_mod_cast hle'.trans_lt hk
    · obtain ⟨d, rfl⟩ := Int.eq_ofNat_of_zero_le hpos
      have hm' : (m : ℤ) = k * 2 ^ d := by
        rw [zpow_natCast] at hm
        exact_mod_cast hm
      have hk0 : 0 ≤ k := by
        by_contra hlt
        have hneg : k * 2 ^ d < 0 := mul_neg_of_neg_of_pos (by omega) (by positivity)
        omega
      obtain ⟨j, rfl⟩ := Int.eq_ofNat_of_zero_le hk0
      exact ⟨j, d, by rw [Nat.abs_cast] at hk; exact_mod_cast hk, by exact_mod_cast hm'⟩
  · rintro ⟨k, e, hk, rfl⟩
    exact ⟨k, e, by rw [Nat.abs_cast]; exact_mod_cast hk, by push_cast; simp⟩

theorem fitsBits_mul_two_pow {m : ℕ} (h : FitsBits p m) (a : ℕ) : FitsBits p (m * 2 ^ a) := by
  obtain ⟨k, e, hk, rfl⟩ := h
  exact ⟨k, e + a, hk, by rw [pow_add, mul_assoc]⟩

section Dvd

variable {m b k : ℕ}

/-- Few significant bits and a large value leave low bits that are zero. -/
theorem two_pow_dvd_of_fitsBits (hb : p + b = k + 1) (h : FitsBits p m) (hm : 2 ^ k ≤ m) :
    2 ^ b ∣ m := by
  obtain ⟨j, e, hj, rfl⟩ := h
  have he : b ≤ e := by
    by_contra hlt
    have hpow : 2 ^ (p + e) ≤ 2 ^ k := Nat.pow_le_pow_right Nat.two_pos (by omega)
    have hmul : j * 2 ^ e < 2 ^ p * 2 ^ e := Nat.mul_lt_mul_of_pos_right hj (Nat.two_pow_pos e)
    rw [← pow_add] at hmul
    omega
  exact Dvd.dvd.mul_left (pow_dvd_pow 2 he) j

theorem fitsBits_of_two_pow_dvd (hb : p + b = k) (hdvd : 2 ^ b ∣ m) (hm : m < 2 ^ k) :
    FitsBits p m := by
  obtain ⟨c, rfl⟩ := hdvd
  rw [← hb, pow_add, mul_comm (2 ^ p)] at hm
  exact ⟨c, b, Nat.lt_of_mul_lt_mul_left hm, mul_comm _ _⟩

end Dvd

end Rounding
