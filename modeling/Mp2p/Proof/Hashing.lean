import Mp2p.Files.Hash
import Mp2p.Proof.PartSize

/-!
# Hashing stays in the buffer

A part of the hash is about a megabyte and the rounding error of its size is below a thousand bytes,
so the parts before the last one end in the buffer whenever its length fits in 32 bits; the last one
is cut to what is left.
-/

namespace Mp2p.Files

open Masks Network

section Parts

variable {n parts : ℕ}

/-- A part of the hash is about a megabyte, whatever the size. -/
theorem ceilFloatDiv_le_three_million (hparts : 0 < parts) (hn : n < 2000000 * parts) :
    ceilFloatDiv n parts ≤ 3000000 := by
  have hpos : (0 : ℚ) < parts := by exact_mod_cast hparts
  have hnq : (n : ℚ) ≤ 2000000 * parts := by exact_mod_cast hn.le
  have hsize : toFloat n ≤ n * (1 + 1 / 2 ^ 24) := toFloat_le (by positivity)
  have hdivisor : (parts : ℚ) * (1 - 1 / 2 ^ 24) ≤ toFloat parts := by
    have h := (abs_le.mp (Rounding.abs_round_sub_le_mul (p := 24) (x := parts) hpos.le)).1
    unfold toFloat
    linarith
  have hdivisorPos : 0 < toFloat parts := lt_of_lt_of_le (by positivity) hdivisor
  have hquot : toFloat n / toFloat parts ≤ (3000000 : ℕ) := by
    rw [div_le_iff₀ hdivisorPos]
    push_cast
    calc toFloat n ≤ n * (1 + 1 / 2 ^ 24) := hsize
      _ ≤ 2000000 * parts * (1 + 1 / 2 ^ 24) := by gcongr
      _ ≤ 3000000 * (parts * (1 - 1 / 2 ^ 24)) := by nlinarith
      _ ≤ 3000000 * toFloat parts := by gcongr
  have hquotNonneg : 0 ≤ toFloat n / toFloat parts :=
    div_nonneg (Rounding.round_nonneg (by positivity)) hdivisorPos.le
  rw [ceilFloatDiv, Nat.ceil_le]
  calc toFloat (toFloat n / toFloat parts) ≤ toFloat (3000000 : ℕ) :=
        Rounding.round_mono (by norm_num) hquotNonneg hquot
    _ = (3000000 : ℕ) := toFloat_of_lt (by norm_num)

end Parts

section Buffer

variable {sbuff : Bytes}

theorem exists_mapM {α β : Type} {f : α → Option β} {l : List α} (h : ∀ a ∈ l, ∃ b, f a = some b) :
    ∃ bs, l.mapM f = some bs := by
  induction l with
  | nil => exact ⟨[], rfl⟩
  | cons a rest ih =>
      rw [List.forall_mem_cons] at h
      obtain ⟨b, hb⟩ := h.1
      obtain ⟨bs, hbs⟩ := ih h.2
      exact ⟨b :: bs, by rw [List.mapM_cons, hb, hbs]; rfl⟩

theorem toNat_partsForHashingSize {size : UInt64} : (partsForHashingSize size).toNat =
    if size.toNat < 1000000 then 1 else size.toNat / 1000000 := by
  have hmb : (1000000 : UInt64).toNat = 1000000 := rfl
  rw [partsForHashingSize]
  by_cases h : size.toNat < 1000000
  · rw [if_pos h, if_pos (UInt64.lt_iff_toNat_lt.mpr h)]
    rfl
  · rw [if_neg h, if_neg (fun hlt => h (UInt64.lt_iff_toNat_lt.mp hlt)), UInt64.toNat_div, hmb]

theorem partsForHashingSize_pos {size : UInt64} : 0 < (partsForHashingSize size).toNat := by
  rw [toNat_partsForHashingSize]
  split_ifs with h
  · exact Nat.one_pos
  · exact Nat.div_pos (by omega) (by omega)

theorem lt_mul_partsForHashingSize (size : UInt64) :
    size.toNat < 2000000 * (partsForHashingSize size).toNat := by
  rw [toNat_partsForHashingSize]
  split_ifs with h <;> omega

theorem toNat_hashingPartSize {size : UInt64} : (hashingPartSize size).toNat =
    ceilFloatDiv size.toNat (partsForHashingSize size).toNat := by
  have hle := ceilFloatDiv_le_three_million partsForHashingSize_pos (lt_mul_partsForHashingSize size)
  rw [hashingPartSize, UInt64.toNat_ofNat', Nat.mod_eq_of_lt (by omega)]

theorem hashingPartSize_le {size : UInt64} : (hashingPartSize size).toNat ≤ 3000000 :=
  toNat_hashingPartSize ▸
    ceilFloatDiv_le_three_million partsForHashingSize_pos (lt_mul_partsForHashingSize size)

theorem ofNat_eq_pred_iff {size : UInt64} {i : ℕ} (hi : i < (partsForHashingSize size).toNat) :
    UInt64.ofNat i = partsForHashingSize size - 1 ↔ i = (partsForHashingSize size).toNat - 1 := by
  have hlt : i < 2 ^ 64 := hi.trans (partsForHashingSize size).toNat_lt
  have hone : (1 : UInt64) ≤ partsForHashingSize size :=
    UInt64.le_iff_toNat_le.mpr partsForHashingSize_pos
  rw [← UInt64.toNat_inj, UInt64.toNat_ofNat', Nat.mod_eq_of_lt hlt, UInt64.toNat_sub_of_le _ _ hone]
  rfl

section Step

variable {size : UInt64} {parts step : ℕ} (hparts : (partsForHashingSize size).toNat = parts)
  (hstep : (hashingPartSize size).toNat = step) (hpred : (parts - 1) * step ≤ size.toNat)

include hparts hstep hpred

/-- Where the last part starts in the buffer, nothing on the way to its end wraps. -/
theorem mul_hashingPartSize_lt : (parts - 1) * step + step < 2 ^ 64 := by
  have hsize := size.toNat_lt
  have hle : step ≤ 3000000 := hstep ▸ hashingPartSize_le
  rcases Nat.lt_or_ge size.toNat (2 ^ 63) with hsmall | hlarge
  · omega
  · -- so many parts that one byte more in each is a megabyte past the size
    have hquot : parts = size.toNat / 1000000 := by
      rw [← hparts, toNat_partsForHashingSize, if_neg (by omega)]
    have hmega : step ≤ 1000000 := by
      by_contra hgt
      have hmul : (parts - 1) * 1000001 ≤ (parts - 1) * step := Nat.mul_le_mul_left _ (by omega)
      omega
    have hmul : (parts - 1) * step ≤ (parts - 1) * 1000000 := Nat.mul_le_mul_left _ hmega
    omega

theorem toNat_hashOffset {i : ℕ} (hi : i < parts) :
    (UInt64.ofNat i * hashingPartSize size).toNat = i * step := by
  have hwrap := mul_hashingPartSize_lt hparts hstep hpred
  have hmul : i * step ≤ (parts - 1) * step := Nat.mul_le_mul_right _ (by omega)
  have hlt : i < 2 ^ 64 := hi.trans (hparts ▸ (partsForHashingSize size).toNat_lt)
  rw [UInt64.toNat_mul, UInt64.toNat_ofNat', hstep, Nat.mod_eq_of_lt hlt, Nat.mod_eq_of_lt (by omega)]

theorem toNat_partSizeForHashingSize {i : ℕ} (hi : i < parts) :
    (partSizeForHashingSize size (UInt64.ofNat i)).toNat =
      if i = parts - 1 then min step (size.toNat - i * step) else step := by
  have hwrap := mul_hashingPartSize_lt hparts hstep hpred
  have hlast := ofNat_eq_pred_iff (hparts.symm ▸ hi)
  rw [hparts] at hlast
  unfold partSizeForHashingSize
  dsimp only
  by_cases hi' : i = parts - 1
  · have hoffset := toNat_hashOffset hparts hstep hpred hi
    subst hi'
    rw [if_pos (hlast.mpr rfl), if_pos rfl, toNat_corrected (by rwa [hoffset])
      (by rwa [hoffset, hstep]), hoffset, hstep]
  · rw [if_neg (fun h => hi' (hlast.mp h)), if_neg hi', hstep]

/-- Every part ends in the buffer when the last one starts in it. -/
theorem part_le_of_pred_mul_le {i : ℕ} (hi : i < parts) :
    (UInt64.ofNat i * hashingPartSize size).toNat +
      (partSizeForHashingSize size (UInt64.ofNat i)).toNat ≤ size.toNat := by
  rw [toNat_hashOffset hparts hstep hpred hi, toNat_partSizeForHashingSize hparts hstep hpred hi]
  split_ifs with hlast
  · subst hlast
    omega
  · have hsucc : (i + 1) * step ≤ (parts - 1) * step := Nat.mul_le_mul_right _ (by omega)
    rw [add_mul, one_mul] at hsucc
    omega

end Step

theorem part_le {size : UInt64} (hsize : size.toNat < 2 ^ 32) {i : ℕ}
    (hi : i < (partsForHashingSize size).toNat) :
    (UInt64.ofNat i * hashingPartSize size).toNat +
      (partSizeForHashingSize size (UInt64.ofNat i)).toNat ≤ size.toNat := by
  refine part_le_of_pred_mul_le rfl toNat_hashingPartSize ?_ hi
  have hcases := @toNat_partsForHashingSize size
  by_cases hone : (partsForHashingSize size).toNat = 1
  · rw [hone, Nat.sub_self, Nat.zero_mul]
    exact Nat.zero_le _
  · have hlarge : ¬size.toNat < 1000000 := fun hsmall => hone (by rw [hcases, if_pos hsmall])
    rw [if_neg hlarge] at hcases
    have hfew : (partsForHashingSize size).toNat ≤ 4294 := by omega
    apply pred_mul_ceilFloatDiv_le (toFloat_of_lt (by omega)) partsForHashingSize_pos (by omega)
    calc 4 * (partsForHashingSize size).toNat * (partsForHashingSize size).toNat
        ≤ 4 * 4294 * (partsForHashingSize size).toNat :=
          Nat.mul_le_mul_right _ (Nat.mul_le_mul_left 4 hfew)
      _ ≤ size.toNat := by omega

/-- **Hashing stays in the buffer.** A buffer whose length fits in 32 bits has a hash. -/
theorem exists_hashBufferHex (sha1 : Bytes → Sha1Type) (hlength : sbuff.length < 2 ^ 32) :
    ∃ hash, hashBufferHex sha1 sbuff (UInt64.ofNat sbuff.length) = some hash := by
  have hsize : (UInt64.ofNat sbuff.length).toNat = sbuff.length := by
    rw [UInt64.toNat_ofNat', Nat.mod_eq_of_lt (by omega)]
  obtain ⟨parts, hparts⟩ : ∃ parts, hashedParts sbuff (UInt64.ofNat sbuff.length) = some parts := by
    apply exists_mapM
    intro i hi
    rw [← hsize] at hlength
    have hle := part_le hlength (List.mem_range.mp hi)
    rw [hsize] at hle
    exact ⟨_, Window.read_eq_some_iff.mpr ⟨hle, rfl⟩⟩
  exact ⟨sha1 parts.flatten, by rw [hashBufferHex, hparts, Option.map_some]⟩

end Buffer

end Mp2p.Files
