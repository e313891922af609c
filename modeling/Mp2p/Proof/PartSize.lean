import Mathlib.Tactic.IntervalCases
import Mp2p.Master.StorageSizes
import Mp2p.Network.Misc

/-!
# How the rounded part size compares with the exact quotient

The upload and the download place part `i` at `i * (size / parts)`, a floor, and give it the ceiling
of a rounded quotient as its length. The part size equals the floor exactly when the number of parts
divides the size and neither rounding on the way to the quotient shows in it.
-/

namespace Mp2p

open Masks Network Master Rounding

/-! ### The rows of the table -/

/-- A row with the sizes that fall into it, from one above the row before. -/
def rowsFrom (lo : ℕ) : List (FsizeType × PartnumType) → List (ℕ × ℕ × ℕ)
  | [] => []
  | value :: rest => (lo, value.1.toNat, value.2.toNat) :: rowsFrom (value.1.toNat + 1) rest

theorem exists_row {values : List (FsizeType × PartnumType)} {lo : ℕ} {s : FsizeType}
    (hlo : lo ≤ s.toNat) (hlast : ∃ value ∈ values, s ≤ value.1) :
    ∃ row ∈ rowsFrom lo values, row.1 ≤ s.toNat ∧ s.toNat ≤ row.2.1 ∧
      (numberOfParts values s).toNat = row.2.2 := by
  induction values generalizing lo with
  | nil => simp at hlast
  | cons value rest ih =>
      by_cases hle : s ≤ value.1
      · refine ⟨_, List.mem_cons_self, hlo, UInt64.le_iff_toNat_le.mp hle, ?_⟩
        rw [numberOfParts, if_pos hle]
      · obtain ⟨row, hrow, hfacts⟩ := @ih (value.1.toNat + 1)
          (by rw [UInt64.le_iff_toNat_le] at hle; omega)
          (by
            obtain ⟨v, hv, hsv⟩ := hlast
            rcases List.mem_cons.mp hv with rfl | hv
            · exact absurd hsv hle
            · exact ⟨v, hv, hsv⟩)
        refine ⟨row, List.mem_cons_of_mem _ hrow, ?_⟩
        rwa [numberOfParts, if_neg hle]

/-- What the shipped table guarantees about a size and its number of parts. -/
inductive TableRow (s n : ℕ) : Prop where
  | single (hn : n = 1) (hs : s < 2 ^ 21)
  | power (a : ℕ) (hn : n = 2 ^ a) (ha : 0 < a ∧ a < 30) (hquot : 2 ^ 20 * n ≤ s)
      (hlarge : s < 2 ^ 56 ∧ s < 2 ^ 32 * n ∨ 2 ^ 56 ≤ s ∧ 2 ^ 32 * n ≤ s)
  | odd (t : ℕ) (hn : n = 65535) (ht : t ≤ 1) (hlo : 2 ^ (43 + t) ≤ s) (hhi : s < 2 ^ (44 + t))

def rowOk (row : ℕ × ℕ × ℕ) : Bool :=
  let (lo, hi, n) := row
  (n == 1 && hi < 2 ^ 21)
    || (n == 2 ^ Nat.log2 n && (0 < Nat.log2 n && Nat.log2 n < 30) && 2 ^ 20 * n ≤ lo
      && (hi < 2 ^ 56 && hi < 2 ^ 32 * n || 2 ^ 56 ≤ lo && 2 ^ 32 * n ≤ lo))
    || (n == 65535 && lo == 2 ^ 43 && hi < 2 ^ 44)
    || (n == 65535 && lo == 2 ^ 44 && hi < 2 ^ 45)

theorem tableRow_of_rowOk {lo hi n s : ℕ} (hrow : rowOk (lo, hi, n) = true) (hlo : lo ≤ s)
    (hhi : s ≤ hi) : TableRow s n := by
  simp only [rowOk, Bool.or_eq_true, Bool.and_eq_true, beq_iff_eq, decide_eq_true_eq] at hrow
  rcases hrow with ((⟨hn, hs⟩ | ⟨⟨⟨hn, ha⟩, hquot⟩, hlarge⟩) | ⟨⟨hn, hl⟩, hh⟩) | ⟨⟨hn, hl⟩, hh⟩
  · exact .single hn (by omega)
  · exact .power _ hn ha (by omega) (by omega)
  · exact .odd 0 hn (by omega) (by omega) (by omega)
  · exact .odd 1 hn (by omega) (by omega) (by omega)

/-- Every size falls into a row of the shipped table. -/
theorem exists_shipped_row (s : FsizeType) : ∃ lo hi n, (lo, hi, n) ∈ rowsFrom 0 storageSizes ∧
    lo ≤ s.toNat ∧ s.toNat ≤ hi ∧ (numberOfParts storageSizes s).toNat = n := by
  obtain ⟨⟨lo, hi, n⟩, hmem, hlo, hhi, hn⟩ := @exists_row storageSizes 0 s
    (Nat.zero_le s.toNat) ⟨(18446744073709551615, 536870912), by decide, by
      rw [UInt64.le_iff_toNat_le]
      have := s.toNat_lt
      show s.toNat ≤ 18446744073709551615
      omega⟩
  exact ⟨lo, hi, n, hmem, hlo, hhi, hn⟩

theorem tableRow (s : FsizeType) : TableRow s.toNat (numberOfParts storageSizes s).toNat := by
  obtain ⟨lo, hi, n, hmem, hlo, hhi, hn⟩ := exists_shipped_row s
  have hall : ∀ row ∈ rowsFrom 0 storageSizes, rowOk row = true := by decide
  rw [hn]
  exact tableRow_of_rowOk (hall _ hmem) hlo hhi

namespace TableRow

variable {s n : ℕ}

theorem pos (h : TableRow s n) : 0 < n := by
  cases h with
  | single hn => omega
  | power a hn => exact hn ▸ Nat.two_pow_pos a
  | odd t hn => omega

theorem lt_two_pow (h : TableRow s n) : n < 2 ^ 30 := by
  cases h with
  | single hn => omega
  | power a hn ha => exact hn ▸ Nat.pow_lt_pow_right one_lt_two ha.2
  | odd t hn => omega

theorem quot_ge (h : TableRow s n) (hn : n ≠ 1) : 2 ^ 20 * n ≤ s := by
  cases h with
  | single hn' => exact absurd hn' hn
  | power a _ _ hquot => exact hquot
  | odd t hn' ht hlo =>
      have : 2 ^ 43 ≤ 2 ^ (43 + t) := Nat.pow_le_pow_right (by norm_num) (by omega)
      omega

theorem lt_of_eq_one (h : TableRow s 1) : s < 2 ^ 21 := by
  cases h with
  | single _ hs => exact hs
  | power a hn ha => exact absurd hn (Nat.one_lt_two_pow ha.1.ne').ne
  | odd t hn => omega

theorem quot_ge_of_large (h : TableRow s n) (hs : 2 ^ 56 ≤ s) : 2 ^ 32 * n ≤ s := by
  cases h with
  | single _ hs' => omega
  | power _ _ _ _ hlarge => omega
  | odd t _ ht _ hhi =>
      have : 2 ^ (44 + t) ≤ 2 ^ 45 := Nat.pow_le_pow_right (by norm_num) (by omega)
      omega

theorem quot_lt (h : TableRow s n) (hs : s < 2 ^ 56) : s / n < 2 ^ 32 := by
  rw [Nat.div_lt_iff_lt_mul h.pos]
  cases h with
  | single hn hs' => omega
  | power _ _ _ _ hlarge => omega
  | odd t hn ht _ hhi =>
      have : 2 ^ (44 + t) ≤ 2 ^ 45 := Nat.pow_le_pow_right (by norm_num) (by omega)
      omega

end TableRow

/-! ### Rounding error -/

theorem toFloat_of_lt {m : ℕ} (hm : m < 2 ^ 24) : toFloat m = m :=
  round_eq_self (by positivity) ⟨m, 0, by rw [Nat.abs_cast]; exact_mod_cast hm, by simp⟩

theorem toFloat_two_pow (a : ℕ) : toFloat ((2 ^ a : ℕ) : ℚ) = (2 ^ a : ℕ) :=
  round_eq_self (by positivity) ⟨1, a, by norm_num, by push_cast; simp⟩

theorem TableRow.toFloat_parts {s n : ℕ} (h : TableRow s n) : toFloat n = n := by
  cases h with
  | single hn => exact toFloat_of_lt (by omega)
  | power a hn => rw [hn]; exact toFloat_two_pow a
  | odd t hn => exact toFloat_of_lt (by omega)

theorem toFloat_le {x : ℚ} (hx : 0 ≤ x) : toFloat x ≤ x * (1 + 1 / 2 ^ 24) := by
  have h := (abs_le.mp (abs_round_sub_le_mul (p := 24) hx)).2
  unfold toFloat
  linarith

/-- Both roundings and the ceiling add little to the quotient. -/
theorem ceilFloatDiv_le {s n : ℕ} (hn : toFloat n = n) (hpos : 0 < n) :
    (ceilFloatDiv s n : ℚ) ≤ (s : ℚ) / n * (1 + 1 / 2 ^ 24) ^ 2 + 1 := by
  have hnq : (0 : ℚ) < n := by exact_mod_cast hpos
  have hfs : 0 ≤ toFloat s := round_nonneg (by positivity)
  have hq0 : 0 ≤ toFloat s / n := div_nonneg hfs hnq.le
  have hdiv : toFloat s / n ≤ (s : ℚ) / n * (1 + 1 / 2 ^ 24) := by
    rw [div_le_iff₀ hnq]
    calc toFloat s ≤ s * (1 + 1 / 2 ^ 24) := toFloat_le (by positivity)
      _ = (s : ℚ) / n * (1 + 1 / 2 ^ 24) * n := by field_simp
  have hceil : (ceilFloatDiv s n : ℚ) < toFloat (toFloat s / n) + 1 := by
    rw [ceilFloatDiv, hn]
    exact Nat.ceil_lt_add_one (round_nonneg hq0)
  calc (ceilFloatDiv s n : ℚ) ≤ toFloat (toFloat s / n) + 1 := hceil.le
    _ ≤ toFloat s / n * (1 + 1 / 2 ^ 24) + 1 := by
        gcongr
        exact toFloat_le hq0
    _ ≤ (s : ℚ) / n * (1 + 1 / 2 ^ 24) * (1 + 1 / 2 ^ 24) + 1 := by gcongr
    _ = (s : ℚ) / n * (1 + 1 / 2 ^ 24) ^ 2 + 1 := by ring

theorem ceilFloatDiv_lt {s n : ℕ} (hn : toFloat n = n) (hpos : 0 < n) (hquot : 2 ^ 20 * n ≤ s) :
    ceilFloatDiv s n < 2 * (s / n) := by
  have hnq : (0 : ℚ) < n := by exact_mod_cast hpos
  have hfloor : (s : ℚ) / n < (s / n : ℕ) + 1 := by
    rw [div_lt_iff₀ hnq]
    have h := Nat.lt_mul_div_succ s hpos
    rw [mul_comm] at h
    exact_mod_cast h
  have hge : (2 ^ 20 : ℚ) ≤ (s / n : ℕ) := by
    exact_mod_cast (Nat.le_div_iff_mul_le hpos).mpr hquot
  have hle := ceilFloatDiv_le (s := s) hn hpos
  have : (ceilFloatDiv s n : ℚ) < 2 * (s / n : ℕ) := by
    nlinarith
  exact_mod_cast this

/-- With few parts, each of them long, the rounding error of all of them is less than one part. -/
theorem pred_mul_ceilFloatDiv_le {s n : ℕ} (hn : toFloat n = n) (hpos : 0 < n) (hfew : n ≤ 2 ^ 20)
    (hlong : 4 * n * n ≤ s) : (n - 1) * ceilFloatDiv s n ≤ s := by
  have hone : (1 : ℚ) ≤ n := by exact_mod_cast hpos
  have hnq : (0 : ℚ) < n := by linarith
  have hfewq : (n : ℚ) ≤ 2 ^ 20 := by exact_mod_cast hfew
  have hpred : (0 : ℚ) ≤ (n : ℚ) - 1 := by linarith
  have hquot : 4 * (n : ℚ) ≤ (s : ℚ) / n := by
    rw [le_div_iff₀ hnq]
    exact_mod_cast hlong
  have hexact : (s : ℚ) / n * n = s := by field_simp
  set x : ℚ := (s : ℚ) / n
  have hround : (n : ℚ) * (x * ((1 + 1 / 2 ^ 24) ^ 2 - 1)) ≤ x / 4 := by
    have hx : 0 ≤ x := by linarith
    calc (n : ℚ) * (x * ((1 + 1 / 2 ^ 24) ^ 2 - 1)) ≤ 2 ^ 20 * (x * ((1 + 1 / 2 ^ 24) ^ 2 - 1)) :=
          mul_le_mul_of_nonneg_right hfewq (mul_nonneg hx (by norm_num))
      _ = x * (2 ^ 20 * ((1 + 1 / 2 ^ 24) ^ 2 - 1)) := by ring
      _ ≤ x * (1 / 4) := mul_le_mul_of_nonneg_left (by norm_num) hx
      _ = x / 4 := by ring
  have hcast : (((n - 1) * ceilFloatDiv s n : ℕ) : ℚ) ≤ s := by
    calc (((n - 1) * ceilFloatDiv s n : ℕ) : ℚ) = ((n : ℚ) - 1) * ceilFloatDiv s n := by
          rw [Nat.cast_mul, Nat.cast_sub hpos, Nat.cast_one]
      _ ≤ ((n : ℚ) - 1) * (x * (1 + 1 / 2 ^ 24) ^ 2 + 1) :=
          mul_le_mul_of_nonneg_left (ceilFloatDiv_le hn hpos) hpred
      _ = x * n + n * (x * ((1 + 1 / 2 ^ 24) ^ 2 - 1)) + n - x * (1 + 1 / 2 ^ 24) ^ 2 - 1 := by ring
      _ ≤ x * n := by nlinarith
      _ = s := hexact
  exact_mod_cast hcast

theorem toFloat_natCast_pos {n : ℕ} (hn : 0 < n) : 0 < toFloat n := by
  have hone : (1 : ℚ) ≤ toFloat n := by
    have h := two_zpow_le_round (p := 24) (k := 0) (x := n) (by norm_num) (by
      rw [zpow_zero]
      exact_mod_cast hn)
    rwa [zpow_zero] at h
  linarith

/-- The part size against a bound, as a condition on the quotient before it is rounded. -/
theorem ceilFloatDiv_le_iff {s n k : ℕ} (hn : 0 < n) (hk : 0 < k) :
    ceilFloatDiv s n ≤ k ↔ RoundsWithin 24 k (toFloat s / toFloat n) := by
  have hquot : 0 ≤ toFloat s / toFloat n :=
    div_nonneg (round_nonneg (by positivity)) (toFloat_natCast_pos hn).le
  rw [ceilFloatDiv, Nat.ceil_le]
  exact round_le_iff (by norm_num) (by exact_mod_cast hk) hquot

/-! ### When the part size is the exact quotient -/

theorem exists_toFloat_eq_natCast {x : ℚ} (hx : 2 ^ 23 ≤ x) : ∃ z : ℕ, toFloat x = z := by
  have hpos : 0 < x := lt_of_lt_of_le (by norm_num) hx
  obtain ⟨m, hm, -, heq⟩ := exists_round_eq (p := 24) hpos
  have hlog : 23 ≤ Int.log 2 x :=
    (Int.zpow_le_iff_le_log one_lt_two hpos).mp (by push_cast; exact_mod_cast hx)
  obtain ⟨d, hd⟩ := Int.eq_ofNat_of_zero_le (show 0 ≤ Int.log 2 x - (24 : ℕ) + 1 by omega)
  obtain ⟨j, rfl⟩ := Int.eq_ofNat_of_zero_le hm
  exact ⟨j * 2 ^ d, by rw [toFloat, heq, ulp, hd, zpow_natCast]; push_cast; ring⟩

theorem toFloat_of_fitsBits {m : ℕ} (h : FitsBits 24 m) : toFloat m = m :=
  round_eq_self (by positivity) (representable_natCast_iff.mpr h)

theorem fitsBits_of_toFloat_eq {x : ℚ} {m : ℕ} (hx : 0 ≤ x) (h : toFloat x = m) :
    FitsBits 24 m := by
  rw [← representable_natCast_iff, ← h]
  exact representable_round (by norm_num) hx

theorem ceil_toFloat_eq_iff {x : ℚ} {m : ℕ} (hx : 2 ^ 23 ≤ x) :
    ⌈toFloat x⌉₊ = m ↔ toFloat x = m := by
  obtain ⟨z, hz⟩ := exists_toFloat_eq_natCast hx
  rw [hz, Nat.ceil_natCast]
  exact_mod_cast Iff.rfl

/-- With a power of two as divisor the one rounding that counts is that of the quotient. -/
theorem ceilFloatDiv_two_pow_eq_iff (a q : ℕ) :
    ceilFloatDiv (2 ^ a * q) (2 ^ a) = q ↔ FitsBits 24 q := by
  have hscale : toFloat ((2 ^ a * q : ℕ) : ℚ) = toFloat q * 2 ^ (a : ℤ) := by
    rw [toFloat, toFloat, ← round_mul_zpow (by positivity)]
    congr 1
    push_cast
    rw [zpow_natCast, mul_comm]
  have hdiv : toFloat ((2 ^ a * q : ℕ) : ℚ) / toFloat ((2 ^ a : ℕ) : ℚ) = toFloat q := by
    rw [hscale, toFloat_two_pow, zpow_natCast]
    push_cast
    field_simp
  have hidem : toFloat (toFloat q) = toFloat q :=
    round_eq_self (round_nonneg (by positivity)) (representable_round (by norm_num) (by positivity))
  rw [ceilFloatDiv, hdiv, hidem]
  constructor
  · intro h
    rcases Nat.lt_or_ge q (2 ^ 24) with hlt | hge
    · exact fitsBits_of_lt hlt
    · have hq : (2 ^ 23 : ℚ) ≤ q := by
        have : (2 ^ 24 : ℚ) ≤ q := by exact_mod_cast hge
        linarith
      exact fitsBits_of_toFloat_eq (by positivity) ((ceil_toFloat_eq_iff hq).mp h)
  · intro h
    rw [toFloat_of_fitsBits h, Nat.ceil_natCast]

section Odd

variable {t q : ℕ}

/-- The file size as a `float` in the rows of 65535 parts: a multiple of the unit in the last place
at most half a unit away. -/
theorem exists_toFloat_odd (hlo : 2 ^ (43 + t) ≤ 65535 * q) (hhi : 65535 * q < 2 ^ (44 + t)) :
    ∃ f : ℤ, toFloat ((65535 * q : ℕ) : ℚ) = f ∧ 2 ^ (20 + t) ∣ f ∧ 2 ^ (43 + t) ≤ f ∧
      |f - (65535 * q : ℕ)| ≤ 2 ^ (19 + t) := by
  have hunit : 24 + (20 + t) = 43 + t + 1 := by omega
  have hloq : (2 : ℚ) ^ (43 + t) ≤ ((65535 * q : ℕ) : ℚ) := by exact_mod_cast hlo
  have hhiq : ((65535 * q : ℕ) : ℚ) < 2 ^ (43 + t + 1) := by
    rw [show 43 + t + 1 = 44 + t by ring]
    exact_mod_cast hhi
  have hpos : (0 : ℚ) < ((65535 * q : ℕ) : ℚ) := lt_of_lt_of_le (by positivity) hloq
  obtain ⟨m, -, -, hm⟩ := exists_round_eq (p := 24) hpos
  rw [ulp_eq_two_pow hunit hloq hhiq] at hm
  have heq : toFloat ((65535 * q : ℕ) : ℚ) = ((m * 2 ^ (20 + t) : ℤ) : ℚ) := by
    rw [toFloat, hm]
    push_cast
    ring
  refine ⟨m * 2 ^ (20 + t), heq, Dvd.intro_left m rfl, ?_, ?_⟩
  · have h := two_pow_le_round (p := 24) (by norm_num) hloq
    rw [← toFloat, heq] at h
    exact_mod_cast h
  · have h := abs_round_sub_le_two_pow hunit hloq hhiq
    rw [← toFloat, heq, show (2 : ℚ) ^ (20 + t) / 2 = 2 ^ (19 + t) by
      rw [show 20 + t = 19 + t + 1 by ring, pow_succ]; ring] at h
    exact_mod_cast h

section Quotient

variable {x : ℚ}

/-- A quotient close to a number of 24 bits rounds to it, in either binade it may lie in. -/
theorem toFloat_odd_eq (ht : t ≤ 1) (hq : FitsBits 24 q) (hq27 : 2 ^ (27 + t) ≤ q)
    (hlo : 2 ^ (27 + t) ≤ x) (hhi : x < 2 ^ (29 + t)) (hnear : |x - q| < 2 ^ (3 + t)) :
    toFloat x = q := by
  have hq4 : 2 ^ (4 + t) ∣ q := two_pow_dvd_of_fitsBits (by omega) hq hq27
  rcases lt_or_ge x (2 ^ (28 + t)) with hlt | hge
  · refine round_eq_of_dvd (p := 24) (by omega) hlo ?_ hq4 ?_
    · rwa [show 27 + t + 1 = 28 + t by ring]
    · rwa [show 4 + t = 3 + t + 1 by ring, pow_succ, mul_div_cancel_right₀ _ two_ne_zero]
  · have hunit : 24 + (5 + t) = 28 + t + 1 := by omega
    -- the number is in the upper binade too, so it has one more zero bit
    have hq28 : 2 ^ (28 + t) ≤ q := by
      have hgt : (2 : ℚ) ^ (28 + t) < q + 2 ^ (3 + t) := by
        have := (abs_lt.mp hnear).2
        linarith
      have hgt' : 2 ^ (28 + t) < q + 2 ^ (3 + t) := by exact_mod_cast hgt
      interval_cases t <;> omega
    refine round_eq_of_dvd hunit hge ?_ (two_pow_dvd_of_fitsBits hunit hq hq28) ?_
    · rwa [show 28 + t + 1 = 29 + t by ring]
    · rw [show 5 + t = 4 + t + 1 by ring, pow_succ, mul_div_cancel_right₀ _ two_ne_zero]
      exact hnear.trans_le (pow_le_pow_right₀ (by norm_num) (by omega))

end Quotient

/-- Where the quotient is past the binade of the others there is no file size halfway between two
`float`s. -/
theorem two_pow_dvd_of_past (ht : t ≤ 1) (hlo : 2 ^ (28 + t) ≤ q) (hhi : 65535 * q < 2 ^ (44 + t))
    (hq : 2 ^ (5 + t) ∣ q) (hs : 2 ^ (19 + t) ∣ 65535 * q) : 2 ^ (20 + t) ∣ 65535 * q := by
  obtain ⟨k, rfl⟩ := hq
  interval_cases t <;> norm_num at * <;> omega

section Sizes

variable {s : ℕ} {f : ℤ} (hf : 2 ^ (20 + t) ∣ f)
include hf

/-- A size that is a multiple of few units and not halfway between two `float`s is nearer to one of
them than half a unit, by as much as those few units. -/
theorem abs_sub_le_of_not_dvd (ht : t ≤ 1) (hs : 2 ^ (4 + t) ∣ s) (htie : ¬2 ^ (19 + t) ∣ s)
    (hnear : |f - s| ≤ 2 ^ (19 + t)) : |f - s| ≤ 2 ^ (19 + t) - 2 ^ (4 + t) := by
  rw [abs_le] at hnear ⊢
  interval_cases t <;> norm_num at * <;> omega

/-- A size halfway between two `float`s is half a unit away from each. -/
theorem le_abs_sub_of_tie (hs : 2 ^ (19 + t) ∣ s) (hodd : ¬2 ^ (20 + t) ∣ s) :
    2 ^ (19 + t) ≤ |f - s| := by
  by_contra hlt
  have hdvd : (2 ^ (19 + t) : ℤ) ∣ f - s :=
    dvd_sub ((pow_dvd_pow 2 (by omega)).trans hf) (by exact_mod_cast hs)
  have hzero := Int.eq_zero_of_abs_lt_dvd hdvd (by omega)
  obtain rfl : f = s := by omega
  exact hodd (by exact_mod_cast hf)

end Sizes

/-- The size over the number of parts, once the size is a `float`. -/
theorem quotient_bounds {f : ℤ} (hhi : 65535 * q < 2 ^ (44 + t)) (hflo : 2 ^ (43 + t) ≤ f)
    (hnear : |f - (65535 * q : ℕ)| ≤ 2 ^ (19 + t)) :
    (2 : ℚ) ^ (27 + t) ≤ (f : ℚ) / 65535 ∧ (f : ℚ) / 65535 < 2 ^ (29 + t) := by
  have hpow : (0 : ℚ) < 2 ^ t := by positivity
  constructor
  · rw [le_div_iff₀ (by norm_num)]
    have hfloq : (2 : ℚ) ^ (43 + t) ≤ f := by exact_mod_cast hflo
    rw [pow_add] at hfloq ⊢
    linarith
  · rw [div_lt_iff₀ (by norm_num)]
    have hfhi : f < 2 ^ (44 + t) + 2 ^ (19 + t) := by
      have h := (abs_le.mp hnear).2
      have hs : ((65535 * q : ℕ) : ℤ) < 2 ^ (44 + t) := by exact_mod_cast hhi
      linarith
    have hfhiq : (f : ℚ) < 2 ^ (44 + t) + 2 ^ (19 + t) := by exact_mod_cast hfhi
    rw [pow_add, pow_add] at hfhiq
    rw [pow_add]
    linarith

section Rounded

variable {f : ℤ} (ht : t ≤ 1) (hf : 2 ^ (20 + t) ∣ f) (hlo : (2 : ℚ) ^ (27 + t) ≤ (f : ℚ) / 65535)
include ht hf hlo

/-- What is off by half a unit the rounded quotient cannot take back. -/
theorem toFloat_ne_of_tie (hhi : 65535 * q < 2 ^ (44 + t)) (hs : 2 ^ (19 + t) ∣ 65535 * q)
    (hodd : ¬2 ^ (20 + t) ∣ 65535 * q) :
    toFloat ((f : ℚ) / 65535) ≠ q := by
  intro hround
  have hfar : (2 : ℚ) ^ (19 + t) / 65535 ≤ |(f : ℚ) / 65535 - q| := by
    have hsplit : (f : ℚ) / 65535 - q = ((f - (65535 * q : ℕ) : ℤ) : ℚ) / 65535 := by
      push_cast
      ring
    rw [hsplit, abs_div, abs_of_pos (by norm_num : (0 : ℚ) < 65535)]
    gcongr
    exact_mod_cast le_abs_sub_of_tie hf hs hodd
  have hq := fitsBits_of_toFloat_eq (le_trans (by positivity) hlo) hround
  rcases lt_or_ge ((f : ℚ) / 65535) (2 ^ (28 + t)) with hlt | hge
  · have hle := abs_round_sub_le_two_pow (p := 24) (j := 4 + t) (by omega) hlo
      (by rwa [show 27 + t + 1 = 28 + t by ring])
    rw [← toFloat, hround, abs_sub_comm] at hle
    have hcontra := hfar.trans hle
    rw [pow_add, pow_add, div_le_div_iff₀ (by norm_num) (by norm_num)] at hcontra
    have hpow : (0 : ℚ) < 2 ^ t := by positivity
    linarith
  · have hq28 : 2 ^ (28 + t) ≤ q := by
      have h := two_pow_le_round (p := 24) (by norm_num) hge
      rw [← toFloat, hround] at h
      exact_mod_cast h
    have hq5 : 2 ^ (5 + t) ∣ q := two_pow_dvd_of_fitsBits (by omega) hq hq28
    exact hodd (two_pow_dvd_of_past ht hq28 hhi hq5 hs)

theorem toFloat_eq_of_not_dvd (hlt : (f : ℚ) / 65535 < 2 ^ (29 + t)) (hq : FitsBits 24 q)
    (hq27 : 2 ^ (27 + t) ≤ q) (hs : ¬2 ^ (19 + t) ∣ 65535 * q)
    (hnear : |f - (65535 * q : ℕ)| ≤ 2 ^ (19 + t)) : toFloat ((f : ℚ) / 65535) = q := by
  have hq4 : 2 ^ (4 + t) ∣ q := two_pow_dvd_of_fitsBits (by omega) hq hq27
  have hclose := abs_sub_le_of_not_dvd hf ht (Dvd.dvd.mul_left hq4 65535) hs hnear
  have hcloseq : |((f - (65535 * q : ℕ) : ℤ) : ℚ)| ≤ 2 ^ (19 + t) - 2 ^ (4 + t) := by
    exact_mod_cast hclose
  have hsplit : (f : ℚ) / 65535 - q = ((f - (65535 * q : ℕ) : ℤ) : ℚ) / 65535 := by
    push_cast
    ring
  apply toFloat_odd_eq ht hq hq27 hlo hlt
  rw [hsplit, abs_div, abs_of_pos (by norm_num : (0 : ℚ) < 65535), div_lt_iff₀ (by norm_num)]
  refine hcloseq.trans_lt ?_
  rw [pow_add, pow_add, pow_add]
  have hpow : (0 : ℚ) < 2 ^ t := by positivity
  linarith

end Rounded

/-- With 65535 parts a file size halfway between two `float`s is the one more case that is lost. -/
theorem ceilFloatDiv_odd_eq_iff (ht : t ≤ 1) (hlo : 2 ^ (43 + t) ≤ 65535 * q)
    (hhi : 65535 * q < 2 ^ (44 + t)) :
    ceilFloatDiv (65535 * q) 65535 = q ↔
      FitsBits 24 q ∧ (FitsBits 25 (65535 * q) → FitsBits 24 (65535 * q)) := by
  obtain ⟨f, hf, hdvd, hflo, hnear⟩ := exists_toFloat_odd hlo hhi
  obtain ⟨hxlo, hxhi⟩ := quotient_bounds hhi hflo hnear
  have hceil : ceilFloatDiv (65535 * q) 65535 = q ↔ toFloat ((f : ℚ) / 65535) = q := by
    have h65535 : toFloat ((65535 : ℕ) : ℚ) = 65535 := toFloat_of_lt (by norm_num)
    rw [ceilFloatDiv, hf, h65535]
    refine ceil_toFloat_eq_iff (le_trans ?_ hxlo)
    exact pow_le_pow_right₀ (by norm_num) (by omega)
  rw [hceil]
  constructor
  · intro hround
    refine ⟨fitsBits_of_toFloat_eq (le_trans (by positivity) hxlo) hround, fun h25 => ?_⟩
    have hs : 2 ^ (19 + t) ∣ 65535 * q := two_pow_dvd_of_fitsBits (by omega) h25 hlo
    by_contra h24
    refine toFloat_ne_of_tie ht hdvd hxlo hhi hs (fun hdvd' => ?_) hround
    exact h24 (fitsBits_of_two_pow_dvd (by omega) hdvd' hhi)
  · rintro ⟨hq, hs⟩
    by_cases h24 : FitsBits 24 (65535 * q)
    · have hexact : (f : ℚ) / 65535 = q := by
        rw [← hf, toFloat_of_fitsBits h24]
        push_cast
        field_simp
      rw [hexact, toFloat_of_fitsBits hq]
    · have hq27 : 2 ^ (27 + t) ≤ q := by interval_cases t <;> omega
      refine toFloat_eq_of_not_dvd ht hdvd hxlo hxhi hq hq27 (fun hdvd' => h24 (hs ?_)) hnear
      exact fitsBits_of_two_pow_dvd (by omega) hdvd' hhi

end Odd

/-- The parts have the exact size of the quotient when it has at most 24 significant bits and the
file size does not have exactly 25. -/
theorem ceilFloatDiv_eq_iff {s n : ℕ} (h : TableRow s n) (hdvd : n ∣ s) :
    ceilFloatDiv s n = s / n ↔ FitsBits 24 (s / n) ∧ (FitsBits 25 s → FitsBits 24 s) := by
  obtain ⟨q, rfl⟩ := hdvd
  rw [Nat.mul_div_cancel_left q h.pos]
  have hpower (a : ℕ) : ceilFloatDiv (2 ^ a * q) (2 ^ a) = q ↔
      FitsBits 24 q ∧ (FitsBits 25 (2 ^ a * q) → FitsBits 24 (2 ^ a * q)) := by
    rw [ceilFloatDiv_two_pow_eq_iff]
    refine ⟨fun hq => ⟨hq, fun _ => ?_⟩, fun hq => hq.1⟩
    rw [mul_comm]
    exact fitsBits_mul_two_pow hq a
  cases h with
  | single hn =>
      rw [hn]
      exact hpower 0
  | power a hn =>
      rw [hn]
      exact hpower a
  | odd t hn ht hlo hhi =>
      rw [hn] at hlo hhi ⊢
      exact ceilFloatDiv_odd_eq_iff ht hlo hhi

theorem ceilFloatDiv_one {s : ℕ} (h : TableRow s 1) : ceilFloatDiv s 1 = s := by
  have hs := h.lt_of_eq_one
  have heq := (ceilFloatDiv_eq_iff h (one_dvd s)).mpr
    ⟨fitsBits_of_lt (by rw [Nat.div_one]; omega), fun _ => fitsBits_of_lt (by omega)⟩
  rwa [Nat.div_one] at heq

/-! ### The part size against the file -/

theorem mul_eq_pred_mul_add {n : ℕ} (hn : 0 < n) (p : ℕ) : n * p = (n - 1) * p + p := by
  rw [← Nat.succ_mul, Nat.succ_eq_add_one, Nat.sub_add_cancel hn]

/-- The parts reach the end of the file. -/
theorem le_mul_iff {s n p : ℕ} (hn : 0 < n) (hs : 0 < s) : s ≤ n * p ↔ ¬p ≤ (s - 1) / n := by
  rw [Nat.le_div_iff_mul_le hn, mul_comm p n]
  omega

/-- The last part starts in the file. -/
theorem pred_mul_le_iff {s n p : ℕ} (hn : 1 < n) : (n - 1) * p ≤ s ↔ p ≤ s / (n - 1) := by
  rw [Nat.le_div_iff_mul_le (by omega), mul_comm]

/-! ### The part size in 64 bits -/

/-- The correction of the last part, here and in the hash of a buffer, when nothing wraps. -/
theorem toNat_corrected {offset partSize size : UInt64} (hle : offset.toNat ≤ size.toNat)
    (hfit : offset.toNat + partSize.toNat < 2 ^ 64) :
    (if offset + partSize > size then partSize - (offset + partSize - size) else partSize).toNat =
      min partSize.toNat (size.toNat - offset.toNat) := by
  have hend : (offset + partSize).toNat = offset.toNat + partSize.toNat := by
    rw [UInt64.toNat_add, Nat.mod_eq_of_lt hfit]
  by_cases hpast : size.toNat < offset.toNat + partSize.toNat
  · have hsub : size ≤ offset + partSize := UInt64.le_iff_toNat_le.mpr (by rw [hend]; omega)
    have hcut : offset + partSize - size ≤ partSize := by
      rw [UInt64.le_iff_toNat_le, UInt64.toNat_sub_of_le _ _ hsub, hend]
      omega
    rw [if_pos (UInt64.lt_iff_toNat_lt.mpr (by rwa [hend])), UInt64.toNat_sub_of_le _ _ hcut,
      UInt64.toNat_sub_of_le _ _ hsub, hend]
    omega
  · rw [if_neg (fun h => hpast (by rw [← hend]; exact UInt64.lt_iff_toNat_lt.mp h))]
    omega

theorem toNat_sub_one {n : PartnumType} (hn : 0 < n.toNat) : (n - 1).toNat = n.toNat - 1 := by
  have hone : (1 : PartnumType) ≤ n := UInt32.le_iff_toNat_le.mpr hn
  rw [UInt32.toNat_sub_of_le n 1 hone]
  rfl

/-- What `get_part_size` returns when the parts together fit in 64 bits. Only the last part is
corrected, and only when the parts together are larger than the file. -/
theorem toNat_getPartSize {s : FsizeType} {i n : PartnumType} (hi : i.toNat < n.toNat)
    (hfit : n.toNat * ceilFloatDiv s.toNat n.toNat < 2 ^ 64) :
    (getPartSize s i n).toNat =
      if i.toNat + 1 = n.toNat ∧ s.toNat < n.toNat * ceilFloatDiv s.toNat n.toNat then
        (2 ^ 64 + s.toNat - i.toNat * ceilFloatDiv s.toNat n.toNat) % 2 ^ 64
      else ceilFloatDiv s.toNat n.toNat := by
  set P := ceilFloatDiv s.toNat n.toNat with hP
  have hn := n.toNat_lt
  have hs := s.toNat_lt
  have hPn : P ≤ n.toNat * P := Nat.le_mul_of_pos_left P (by omega)
  have hPlt : (UInt64.ofNat P).toNat = P := by
    rw [UInt64.toNat_ofNat', Nat.mod_eq_of_lt (by omega)]
  have hlast : i = n - 1 ↔ i.toNat + 1 = n.toNat := by
    rw [← UInt32.toNat_inj, toNat_sub_one (by omega)]
    omega
  by_cases h : i.toNat + 1 = n.toNat
  · have hmul : n.toNat * P = i.toNat * P + P := by rw [← h]; ring
    have hoff : (i.toUInt64 * UInt64.ofNat P).toNat = i.toNat * P := by
      rw [UInt64.toNat_mul, hPlt, UInt32.toNat_toUInt64, Nat.mod_eq_of_lt (by omega)]
    have hend : (i.toUInt64 * UInt64.ofNat P + UInt64.ofNat P).toNat = n.toNat * P := by
      rw [UInt64.toNat_add, hoff, hPlt, Nat.mod_eq_of_lt (by omega), hmul]
    simp only [getPartSize, ← hP]
    rw [if_pos (hlast.mpr h)]
    by_cases hlt : s.toNat < n.toNat * P
    · rw [if_pos (by rw [gt_iff_lt, UInt64.lt_iff_toNat_lt, hend]; exact hlt), if_pos ⟨h, hlt⟩,
        UInt64.toNat_sub, UInt64.toNat_sub_of_le _ _ (by
          rw [UInt64.le_iff_toNat_le, hend]; exact hlt.le), hend, hPlt]
      congr 1
      omega
    · rw [if_neg (by rw [gt_iff_lt, UInt64.lt_iff_toNat_lt, hend]; exact hlt),
        if_neg (by tauto), hPlt]
  · simp only [getPartSize, ← hP]
    rw [if_neg (by rwa [hlast]), if_neg (by tauto), hPlt]

theorem toNat_getPartSize_one {s : FsizeType} (h : TableRow s.toNat 1) :
    (getPartSize s 0 1).toNat = s.toNat := by
  have hone : (1 : PartnumType).toNat = 1 := rfl
  have hzero : (0 : PartnumType).toNat = 0 := rfl
  have hceil := ceilFloatDiv_one h
  have hlt := s.toNat_lt
  rw [toNat_getPartSize (by rw [hzero, hone]; exact Nat.one_pos) (by rwa [hone, hceil, one_mul]),
    hone, hceil, one_mul, if_neg (fun h => lt_irrefl _ h.2)]

end Mp2p
