import Mathlib.Algebra.BigOperators.Group.Finset.Basic
import Mp2p.Proof.PartSize

/-!
# Whether the parts add up to the file

All parts but the last have the size of the rounded quotient, and the last one is cut down to what
is left, never made longer. So the parts add up to the file exactly when the last one starts in it,
the parts together reach its end, and their common end is still a number of 64 bits.
-/

namespace Mp2p

open Masks Network Master Rounding

/-- `get_part_size` in numbers that do not wrap. -/
def unwrappedPartSize (fsize partnum parts : ℕ) : ℤ :=
  let partSize : ℤ := ceilFloatDiv fsize parts
  if partnum = parts - 1 then
    let offset := partnum * partSize
    if offset + partSize > fsize then partSize - (offset + partSize - fsize) else partSize
  else partSize

structure Partitions (s : FsizeType) (n : PartnumType) : Prop where
  equal : ∀ i j : PartnumType, i < n - 1 → j < n - 1 → getPartSize s i n = getPartSize s j n
  last_le : ∀ i < n - 1, getPartSize s (n - 1) n ≤ getPartSize s i n
  unwrapped : ∀ i < n,
    ((getPartSize s i n).toNat : ℤ) = unwrappedPartSize s.toNat i.toNat n.toNat
  sum : ∑ i ∈ Finset.range n.toNat, (getPartSize s (UInt32.ofNat i) n).toNat = s.toNat

/-- One part, or a quotient, of the size as a `float`, that rounds to a part size with which the parts
together are no shorter than the file, those before the last one no longer, and their end no more
than 64 bits can hold. -/
def SplitsExactly (s : FsizeType) : Prop :=
  let n := (numberOfParts storageSizes s).toNat
  n = 1 ∨
    ¬RoundsWithin 24 ((s.toNat - 1) / n : ℕ) (toFloat s.toNat / n) ∧
      RoundsWithin 24 (min (s.toNat / (n - 1)) ((2 ^ 64 - 1) / n) : ℕ) (toFloat s.toNat / n)

theorem unwrappedPartSize_of_ne {fsize partnum parts : ℕ} (h : partnum ≠ parts - 1) :
    unwrappedPartSize fsize partnum parts = ceilFloatDiv fsize parts := if_neg h

theorem unwrappedPartSize_last (fsize parts : ℕ) :
    unwrappedPartSize fsize (parts - 1) parts =
      min (ceilFloatDiv fsize parts : ℤ)
        ((fsize : ℤ) - ((parts - 1) * ceilFloatDiv fsize parts : ℕ)) := by
  rw [unwrappedPartSize, if_pos rfl]
  dsimp only
  split_ifs with hpast
  · push_cast at hpast ⊢
    omega
  · push_cast at hpast ⊢
    omega

section Sizes

variable {s : FsizeType} {n : PartnumType}

theorem getPartSize_of_ne {i : PartnumType} (h : i ≠ n - 1) :
    getPartSize s i n = UInt64.ofNat (ceilFloatDiv s.toNat n.toNat) := if_neg h

theorem toNat_ne_pred (hn : 0 < n.toNat) {i : PartnumType} (hi : i ≠ n - 1) :
    i.toNat ≠ n.toNat - 1 := by
  rw [← toNat_sub_one hn]
  exact fun h => hi (UInt32.toNat_inj.mp h)

theorem ne_sub_one (hn : 0 < n.toNat) {i : ℕ} (hi : i + 1 < n.toNat) : UInt32.ofNat i ≠ n - 1 := by
  have hlt := n.toNat_lt
  intro h
  have heq := congrArg UInt32.toNat h
  rw [UInt32.toNat_ofNat', Nat.mod_eq_of_lt (by omega), toNat_sub_one hn] at heq
  omega

variable {p : ℕ} (hp : ceilFloatDiv s.toNat n.toNat = p) (hlt : p < 2 ^ 64)

include hp hlt

theorem toNat_getPartSize_of_ne {i : PartnumType} (h : i ≠ n - 1) :
    (getPartSize s i n).toNat = p := by
  rw [getPartSize_of_ne h, hp, UInt64.toNat_ofNat', Nat.mod_eq_of_lt hlt]

variable (hn : 0 < n.toNat)

include hn

theorem sum_getPartSize : ∑ i ∈ Finset.range n.toNat, (getPartSize s (UInt32.ofNat i) n).toNat =
    (n.toNat - 1) * p + (getPartSize s (n - 1) n).toNat := by
  have hlast : UInt32.ofNat (n.toNat - 1) = n - 1 := by
    rw [← toNat_sub_one hn, UInt32.ofNat_toNat]
  have hrange : n.toNat = n.toNat - 1 + 1 := by omega
  have hbefore : ∀ i ∈ Finset.range (n.toNat - 1), (getPartSize s (UInt32.ofNat i) n).toNat = p := by
    intro i hi
    have hi' := Finset.mem_range.mp hi
    exact toNat_getPartSize_of_ne hp hlt (ne_sub_one hn (by omega))
  calc ∑ i ∈ Finset.range n.toNat, (getPartSize s (UInt32.ofNat i) n).toNat
      = ∑ i ∈ Finset.range (n.toNat - 1 + 1), (getPartSize s (UInt32.ofNat i) n).toNat := by
        rw [← hrange]
    _ = ∑ i ∈ Finset.range (n.toNat - 1), (getPartSize s (UInt32.ofNat i) n).toNat +
          (getPartSize s (n - 1) n).toNat := by rw [Finset.sum_range_succ, hlast]
    _ = (n.toNat - 1) * p + (getPartSize s (n - 1) n).toNat := by
        rw [Finset.sum_const_nat hbefore, Finset.card_range]

theorem toNat_lastOffset (hle : (n.toNat - 1) * p ≤ s.toNat) :
    ((n - 1).toUInt64 * UInt64.ofNat (ceilFloatDiv s.toNat n.toNat)).toNat = (n.toNat - 1) * p := by
  have hs := s.toNat_lt
  rw [UInt64.toNat_mul, UInt32.toNat_toUInt64, toNat_sub_one hn, hp, UInt64.toNat_ofNat',
    Nat.mod_eq_of_lt hlt, Nat.mod_eq_of_lt (by omega)]

theorem toNat_getPartSize_last (hle : (n.toNat - 1) * p ≤ s.toNat) :
    (getPartSize s (n - 1) n).toNat =
      if (n.toNat - 1) * p + p < 2 ^ 64 then min p (s.toNat - (n.toNat - 1) * p) else p := by
  have hs := s.toNat_lt
  have hoffset := toNat_lastOffset hp hlt hn hle
  have hpart : (UInt64.ofNat (ceilFloatDiv s.toNat n.toNat)).toNat = p := by
    rw [hp, UInt64.toNat_ofNat', Nat.mod_eq_of_lt hlt]
  rw [getPartSize]
  dsimp only
  rw [if_pos rfl]
  by_cases hfit : (n.toNat - 1) * p + p < 2 ^ 64
  · rw [if_pos hfit, toNat_corrected (by rwa [hoffset]) (by rwa [hoffset, hpart]), hoffset, hpart]
  · -- the end wraps to a place before the offset, so nothing is cut
    have hend : ((n - 1).toUInt64 * UInt64.ofNat (ceilFloatDiv s.toNat n.toNat) +
        UInt64.ofNat (ceilFloatDiv s.toNat n.toNat)).toNat = (n.toNat - 1) * p + p - 2 ^ 64 := by
      rw [UInt64.toNat_add, hoffset, hpart]
      omega
    rw [if_neg hfit, if_neg, hpart]
    rw [gt_iff_lt, UInt64.lt_iff_toNat_lt, hend]
    omega

/-- Where the last part starts in the file and the parts together fit in 64 bits, nothing wraps. -/
theorem toNat_getPartSize_eq_unwrapped (hstarts : (n.toNat - 1) * p ≤ s.toNat)
    (hfit : n.toNat * p < 2 ^ 64) (i : PartnumType) :
    ((getPartSize s i n).toNat : ℤ) = unwrappedPartSize s.toNat i.toNat n.toNat := by
  have hsplit := mul_eq_pred_mul_add hn p
  by_cases hi : i = n - 1
  · subst hi
    rw [toNat_getPartSize_last hp hlt hn hstarts, if_pos (by omega), toNat_sub_one hn,
      unwrappedPartSize_last, hp]
    omega
  · have hne := toNat_ne_pred hn hi
    rw [toNat_getPartSize_of_ne hp hlt hi, unwrappedPartSize_of_ne hne, hp]

theorem partitions_of_le (hstarts : (n.toNat - 1) * p ≤ s.toNat) (hends : s.toNat ≤ n.toNat * p)
    (hfit : n.toNat * p < 2 ^ 64) : Partitions s n := by
  have hsplit := mul_eq_pred_mul_add hn p
  have hlast := toNat_getPartSize_last hp hlt hn hstarts
  rw [if_pos (by omega)] at hlast
  have hinner : ∀ i < n - 1, i ≠ n - 1 := fun i hi => UInt32.ne_of_lt hi
  constructor
  · intro i j hi hj
    rw [getPartSize_of_ne (hinner i hi), getPartSize_of_ne (hinner j hj)]
  · intro i hi
    rw [UInt64.le_iff_toNat_le, toNat_getPartSize_of_ne hp hlt (hinner i hi), hlast]
    exact Nat.min_le_left _ _
  · intro i _
    exact toNat_getPartSize_eq_unwrapped hp hlt hn hstarts hfit i
  · rw [sum_getPartSize hp hlt hn, hlast]
    omega

theorem le_of_partitions (h : Partitions s n) :
    (n.toNat - 1) * p ≤ s.toNat ∧ s.toNat ≤ n.toNat * p ∧ n.toNat * p < 2 ^ 64 := by
  have hs := s.toNat_lt
  have hsplit := mul_eq_pred_mul_add hn p
  have hmem : n - 1 < n := by
    rw [UInt32.lt_iff_toNat_lt, toNat_sub_one hn]
    omega
  have hunwrapped := h.unwrapped (n - 1) hmem
  rw [toNat_sub_one hn, unwrappedPartSize_last, hp] at hunwrapped
  have hsum := h.sum
  rw [sum_getPartSize hp hlt hn] at hsum
  have hstarts : (n.toNat - 1) * p ≤ s.toNat := by omega
  refine ⟨hstarts, by omega, ?_⟩
  -- past 64 bits the last part is not cut, and the parts are longer than any file
  rw [toNat_getPartSize_last hp hlt hn hstarts] at hsum
  by_contra hwraps
  rw [if_neg (by omega)] at hsum
  omega

theorem partitions_iff_le : Partitions s n ↔
    (n.toNat - 1) * p ≤ s.toNat ∧ s.toNat ≤ n.toNat * p ∧ n.toNat * p < 2 ^ 64 :=
  ⟨le_of_partitions hp hlt hn, fun h => partitions_of_le hp hlt hn h.1 h.2.1 h.2.2⟩

end Sizes

/-- The three bounds are bounds of the part size. -/
theorem le_iff_splitsExactly {s n p : ℕ} (hs : s < 2 ^ 64) (hrow : TableRow s n)
    (hp : ceilFloatDiv s n = p) :
    ((n - 1) * p ≤ s ∧ s ≤ n * p ∧ n * p < 2 ^ 64) ↔ n = 1 ∨
      ¬RoundsWithin 24 ((s - 1) / n : ℕ) (toFloat s / n) ∧
        RoundsWithin 24 (min (s / (n - 1)) ((2 ^ 64 - 1) / n) : ℕ) (toFloat s / n) := by
  have hpos := hrow.pos
  by_cases hone : n = 1
  · subst hone
    rw [ceilFloatDiv_one hrow] at hp
    exact iff_of_true (by omega) (Or.inl rfl)
  · have hquot := hrow.quot_ge hone
    have hshort : 0 < (s - 1) / n := Nat.div_pos (by omega) hpos
    have hlong : 0 < min (s / (n - 1)) ((2 ^ 64 - 1) / n) :=
      Nat.lt_min.mpr ⟨Nat.div_pos (by omega) (by omega), Nat.div_pos (by omega) hpos⟩
    have hfits : n * p < 2 ^ 64 ↔ p ≤ (2 ^ 64 - 1) / n := by
      rw [Nat.le_div_iff_mul_le hpos, mul_comm p n]
      omega
    have hbound (k : ℕ) (hk : 0 < k) : p ≤ k ↔ RoundsWithin 24 k (toFloat s / n) := by
      rw [← hp, ceilFloatDiv_le_iff hpos hk, hrow.toFloat_parts]
    rw [or_iff_right hone, ← hbound _ hshort, ← hbound _ hlong, le_mul_iff hpos (by omega),
      pred_mul_le_iff (by omega), hfits, le_min_iff]
    tauto

/-- **A partition.** The parts of the shipped table add up to a file of this size, the last one cut
and none wrapped, for the sizes that split exactly and no others. -/
theorem partitions_iff (s : FsizeType) :
    Partitions s (numberOfParts storageSizes s) ↔ SplitsExactly s := by
  have hrow := tableRow s
  have hs := s.toNat_lt
  have hlt : ceilFloatDiv s.toNat (numberOfParts storageSizes s).toNat < 2 ^ 64 := by
    by_cases hone : (numberOfParts storageSizes s).toNat = 1
    · rw [hone] at hrow ⊢
      rwa [ceilFloatDiv_one hrow]
    · have hdouble := ceilFloatDiv_lt hrow.toFloat_parts hrow.pos (hrow.quot_ge hone)
      have hhalf : s.toNat / (numberOfParts storageSizes s).toNat ≤ s.toNat / 2 :=
        Nat.div_le_div_left (by have := hrow.pos; omega) Nat.two_pos
      omega
  rw [partitions_iff_le rfl hlt hrow.pos, le_iff_splitsExactly hs hrow rfl]
  rfl

/-- With a power of two as the number of parts only the size is rounded: it must stay above the last
multiple of the number of parts before it. -/
theorem splitsExactly_iff_of_power {s : FsizeType} {n a : ℕ}
    (hn : (numberOfParts storageSizes s).toNat = n) (hpower : n = 2 ^ a) (ha : 0 < a) :
    SplitsExactly s ↔ n * ((s.toNat - 1) / n : ℕ) < toFloat s.toNat ∧
      toFloat s.toNat ≤ n * (min (s.toNat / (n - 1)) ((2 ^ 64 - 1) / n) : ℕ) := by
  have hrow := tableRow s
  rw [hn] at hrow
  have hone : n ≠ 1 := hpower ▸ (Nat.one_lt_two_pow ha.ne').ne'
  have hs := s.toNat_lt
  have hquot := hrow.quot_ge hone
  have hnPos := hrow.pos
  have hpos : (0 : ℚ) < n := by exact_mod_cast hnPos
  have hfloat : 0 ≤ toFloat s.toNat / n := div_nonneg (round_nonneg (by positivity)) hpos.le
  have hexact : toFloat (toFloat s.toNat / n) = toFloat s.toNat / n := by
    have hscale : toFloat s.toNat / n = toFloat s.toNat * 2 ^ (-a : ℤ) := by
      rw [hpower, zpow_neg, zpow_natCast, ← div_eq_mul_inv]
      push_cast
      rfl
    apply round_eq_self hfloat
    rw [hscale]
    exact representable_mul_zpow (representable_round (by norm_num) (by positivity)) _
  have hbound (k : ℕ) (hk : 0 < k) :
      RoundsWithin 24 k (toFloat s.toNat / n) ↔ toFloat s.toNat ≤ n * k := by
    have hround := round_le_iff (p := 24) (k := k) (by norm_num) (by exact_mod_cast hk) hfloat
    rw [← hround, ← toFloat, hexact, div_le_iff₀' hpos]
  rw [SplitsExactly, hn, or_iff_right hone, hbound _ (Nat.div_pos (by omega) hnPos), hbound _
    (Nat.lt_min.mpr ⟨Nat.div_pos (by omega) (by omega), Nat.div_pos (by omega) hnPos⟩), not_le]

/-- `2²⁴ + 1` bytes make eight parts of `2²¹` bytes, one byte too few. -/
theorem not_partitions_odd : ¬∀ s, Partitions s (numberOfParts storageSizes s) := by
  intro h
  have hsum := (h 16777217).sum
  have hn : numberOfParts storageSizes 16777217 = 8 := by decide
  rw [hn] at hsum
  revert hsum
  decide +kernel

end Mp2p
