import Mp2p.Proof.Hashing

/-!
# What the hash of a buffer covers

The parts of the hash lie one behind the other, so they cover the buffer exactly when the last one
starts in it and ends at or past its end. Between them stands a quotient rounded twice: a size that
loses its low bits to the first rounding, or a quotient that the second one takes down to a whole
number, leaves the end of the buffer out of the hash.
-/

namespace Mp2p.Files

open Masks Network

/-! ### Where the rounded quotient stands -/

def roundingLimit (k : ℕ) : ℚ := k + 2 ^ Nat.log2 k / 2 ^ 24

theorem roundsWithin_iff {k : ℕ} (hpos : 0 < k) (hlt : k < 2 ^ 23) {x : ℚ} :
    Rounding.RoundsWithin 24 k x ↔ x ≤ roundingLimit k := by
  have hlog : Nat.log2 k < 23 := (Nat.log2_lt hpos.ne').mpr hlt
  obtain ⟨d, hd⟩ : ∃ d, 22 = Nat.log2 k + d := ⟨22 - Nat.log2 k, by omega⟩
  have hulp : Rounding.ulp 24 k = (2 ^ (d + 1))⁻¹ := by
    rw [Rounding.ulp, Int.log_natCast, ← Nat.log2_eq_log_two, ← zpow_natCast, ← zpow_neg]
    congr 1
    omega
  have hmantissa : (k : ℚ) / Rounding.ulp 24 k = ((k * 2 ^ (d + 1) : ℕ) : ℤ) := by
    rw [hulp, div_inv_eq_mul]
    push_cast
    rfl
  have heven : (2 : ℤ) ∣ ((k * 2 ^ (d + 1) : ℕ) : ℤ) := by
    exact_mod_cast Dvd.dvd.mul_left (dvd_pow_self 2 d.succ_ne_zero) k
  have hlimit : ((((k * 2 ^ (d + 1) : ℕ) : ℤ) : ℚ) + 1 / 2) * Rounding.ulp 24 k =
      roundingLimit k := by
    have hbits : (2 : ℚ) ^ 24 = 2 ^ Nat.log2 k * 2 ^ (d + 1) * 2 := by
      rw [← pow_add, ← pow_succ]
      congr 1
      omega
    rw [roundingLimit, hulp, hbits]
    push_cast
    field_simp
  rw [Rounding.RoundsWithin, hmantissa, Int.floor_intCast, if_pos heven, hlimit]

theorem ceilFloatDiv_le_iff_le {n parts k : ℕ} (hparts : 0 < parts) (hpos : 0 < k)
    (hlt : k < 2 ^ 23) : ceilFloatDiv n parts ≤ k ↔ toFloat n ≤ toFloat parts * roundingLimit k := by
  calc ceilFloatDiv n parts ≤ k ↔ Rounding.RoundsWithin 24 k (toFloat n / toFloat parts) :=
        ceilFloatDiv_le_iff hparts hpos
    _ ↔ toFloat n / toFloat parts ≤ roundingLimit k := roundsWithin_iff hpos hlt
    _ ↔ toFloat n ≤ toFloat parts * roundingLimit k := div_le_iff₀' (toFloat_natCast_pos hparts)

/-! ### The parts against the buffer -/

/-- `offset` and `hash_size` in the loop of `hash_buffer_hex`. -/
def hashOffset (size : UInt64) (i : ℕ) : ℕ := (UInt64.ofNat i * hashingPartSize size).toNat

def hashSize (size : UInt64) (i : ℕ) : ℕ := (partSizeForHashingSize size (UInt64.ofNat i)).toNat

/-- The parts start at the first byte, follow one another inside the buffer and end at its end. -/
structure Covers (size : UInt64) : Prop where
  first : hashOffset size 0 = 0
  next : ∀ i, i + 1 < (partsForHashingSize size).toNat →
    hashOffset size (i + 1) = hashOffset size i + hashSize size i
  last : ∀ i, i + 1 = (partsForHashingSize size).toNat →
    hashOffset size i + hashSize size i = size.toNat
  inside : ∀ i < (partsForHashingSize size).toNat,
    hashOffset size i + hashSize size i ≤ size.toNat

/-- The parts cover the buffer, and the hash is that of all of it. -/
def HashesWhole (size : UInt64) : Prop :=
  Covers size ∧ ∀ (sha1 : Bytes → Sha1Type) (sbuff : Bytes), sbuff.length = size.toNat →
    hashBufferHex sha1 sbuff size = some (sha1 sbuff)

/-- The size, as a `float`, is past what the parts hold when each is a byte too short, and not past
what the parts before the last one hold when they fill the buffer. -/
def CutExactly (size : UInt64) : Prop :=
  let parts := (partsForHashingSize size).toNat
  parts = 1 ∨
    toFloat parts * roundingLimit ((size.toNat - 1) / parts) < toFloat size.toNat ∧
      toFloat size.toNat ≤ toFloat parts * roundingLimit (size.toNat / (parts - 1))

section Coverage

variable {size : UInt64} {parts step : ℕ} (hparts : (partsForHashingSize size).toNat = parts)
  (hstep : (hashingPartSize size).toNat = step)

include hparts hstep

theorem covers_of_le (hpred : (parts - 1) * step ≤ size.toNat) (hle : size.toNat ≤ parts * step) :
    Covers size where
  first := by
    have hpos : 0 < parts := hparts ▸ partsForHashingSize_pos
    rw [hashOffset, toNat_hashOffset hparts hstep hpred hpos, Nat.zero_mul]
  next := by
    intro i hi
    rw [hparts] at hi
    rw [hashOffset, hashOffset, hashSize, toNat_hashOffset hparts hstep hpred hi,
      toNat_hashOffset hparts hstep hpred (by omega),
      toNat_partSizeForHashingSize hparts hstep hpred (by omega), if_neg (by omega), add_mul, one_mul]
  last := by
    intro i hi
    rw [hparts] at hi
    subst hi
    rw [Nat.add_sub_cancel] at hpred
    rw [add_mul, one_mul] at hle
    rw [hashOffset, hashSize, toNat_hashOffset hparts hstep hpred (Nat.lt_succ_self i),
      toNat_partSizeForHashingSize hparts hstep hpred (Nat.lt_succ_self i), if_pos (by omega)]
    omega
  inside := by
    intro i hi
    rw [hparts] at hi
    exact part_le_of_pred_mul_le hparts hstep hpred hi

/-- Parts that follow one another are multiples of one length, and the last one holds no more. -/
theorem le_of_covers (h : Covers size) :
    (parts - 1) * step ≤ size.toNat ∧ size.toNat ≤ parts * step := by
  have hpos : 0 < parts := hparts ▸ partsForHashingSize_pos
  have hoffset : ∀ i < parts, hashOffset size i = i * step := by
    intro i hi
    induction i with
    | zero => rw [h.first, Nat.zero_mul]
    | succ i ih =>
        have hinner : hashSize size i = step := by
          have hne : UInt64.ofNat i ≠ partsForHashingSize size - 1 := by
            rw [Ne, ofNat_eq_pred_iff (by omega)]
            omega
          rw [hashSize, partSizeForHashingSize]
          dsimp only
          rw [if_neg hne, hstep]
        rw [h.next i (hparts.symm ▸ hi), ih (by omega), hinner, add_mul, one_mul]
  have hend := h.last (parts - 1) (by omega)
  rw [hoffset _ (by omega)] at hend
  have hpred : (parts - 1) * step ≤ size.toNat := by omega
  refine ⟨hpred, ?_⟩
  rw [hashSize, toNat_partSizeForHashingSize hparts hstep hpred (by omega), if_pos rfl] at hend
  calc size.toNat ≤ (parts - 1) * step + step := by omega
    _ = (parts - 1 + 1) * step := by rw [add_mul, one_mul]
    _ = parts * step := by rw [Nat.sub_add_cancel hpos]

end Coverage

theorem ceilFloatDiv_one_of_lt {n : ℕ} (hn : n < 2 ^ 24) : ceilFloatDiv n 1 = n := by
  have h := (ceilFloatDiv_two_pow_eq_iff 0 n).mpr (Rounding.fitsBits_of_lt hn)
  rwa [pow_zero, one_mul] at h

/-- The last part starts in the buffer and ends no earlier than it. -/
theorem le_iff_cutExactly {size : UInt64} {parts step : ℕ}
    (hparts : (partsForHashingSize size).toNat = parts)
    (hstep : (hashingPartSize size).toNat = step) :
    (parts - 1) * step ≤ size.toNat ∧ size.toNat ≤ parts * step ↔ CutExactly size := by
  have hpos : 0 < parts := hparts ▸ partsForHashingSize_pos
  have hlt := lt_mul_partsForHashingSize size
  rw [toNat_hashingPartSize] at hstep
  rw [hparts] at hlt hstep
  rw [CutExactly, hparts]
  by_cases hone : parts = 1
  · subst hone
    rw [ceilFloatDiv_one_of_lt (by omega)] at hstep
    exact iff_of_true (by omega) (Or.inl rfl)
  · have hquot : parts = size.toNat / 1000000 := by
      rw [← hparts, toNat_partsForHashingSize] at hone ⊢
      split_ifs at hone ⊢ with hsmall
      · exact absurd rfl hone
      · rfl
    have hshort : 0 < (size.toNat - 1) / parts ∧ (size.toNat - 1) / parts < 2 ^ 23 :=
      ⟨Nat.div_pos (by omega) hpos, (Nat.div_lt_iff_lt_mul hpos).mpr (by omega)⟩
    have hlong : 0 < size.toNat / (parts - 1) ∧ size.toNat / (parts - 1) < 2 ^ 23 :=
      ⟨Nat.div_pos (by omega) (by omega), (Nat.div_lt_iff_lt_mul (by omega)).mpr (by omega)⟩
    rw [le_mul_iff hpos (by omega), pred_mul_le_iff (by omega), ← hstep,
      ceilFloatDiv_le_iff_le hpos hshort.1 hshort.2, ceilFloatDiv_le_iff_le hpos hlong.1 hlong.2,
      not_le, and_comm]
    exact (or_iff_right hone).symm

/-! ### The hash -/

/-- When the last part starts in the buffer, what is hashed is as much of the buffer as the parts
hold. -/
theorem hashBufferHex_eq_take {size : UInt64} {parts step : ℕ}
    (hparts : (partsForHashingSize size).toNat = parts)
    (hstep : (hashingPartSize size).toNat = step) (hpred : (parts - 1) * step ≤ size.toNat)
    (sha1 : Bytes → Sha1Type) {sbuff : Bytes} (hlength : sbuff.length = size.toNat) :
    hashBufferHex sha1 sbuff size = some (sha1 (sbuff.take (parts * step))) := by
  have hbefore : ∀ i < parts, i * step ≤ size.toNat := fun i hi =>
    (Nat.mul_le_mul_right step (Nat.le_sub_one_of_lt hi)).trans hpred
  have hnext : ∀ i < parts, min ((i + 1) * step) size.toNat =
      min (i * step) size.toNat + hashSize size i := by
    intro i hi
    have hle := hbefore i hi
    rw [hashSize, toNat_partSizeForHashingSize hparts hstep hpred hi, add_mul, one_mul]
    split_ifs with hlast
    · omega
    · have hsucc := hbefore (i + 1) (by omega)
      rw [add_mul, one_mul] at hsucc
      omega
  have hread : ∀ i < parts, Window.read sbuff (UInt64.ofNat i * hashingPartSize size).toNat
      (partSizeForHashingSize size (UInt64.ofNat i)).toNat =
        Window.read sbuff (min (i * step) size.toNat) (hashSize size i) := by
    intro i hi
    rw [toNat_hashOffset hparts hstep hpred hi, min_eq_left (hbefore i hi), hashSize]
  have hfirst : min (0 * step) size.toNat = 0 := by rw [Nat.zero_mul, Nat.zero_min]
  have hfit : min (parts * step) size.toNat ≤ sbuff.length := by
    rw [hlength]
    exact Nat.min_le_right _ _
  obtain ⟨chunks, hchunks, hflatten⟩ :=
    Window.exists_mapM_read (fun i => min (i * step) size.toNat) hfirst hnext hfit hread
  rw [hashBufferHex, hashedParts, hparts, hchunks, Option.map_some, hflatten, ← hlength,
    ← List.take_take, List.take_length]

/-- **What is hashed.** The parts cover a buffer of this size, and its hash is that of the whole, for
the sizes that are cut exactly and no others. -/
theorem hashesWhole_iff (size : UInt64) : HashesWhole size ↔ CutExactly size := by
  rw [← le_iff_cutExactly rfl rfl]
  constructor
  · intro h
    exact le_of_covers rfl rfl h.1
  · intro h
    refine ⟨covers_of_le rfl rfl h.1 h.2, ?_⟩
    intro sha1 sbuff hlength
    rw [hashBufferHex_eq_take rfl rfl h.1 sha1 hlength, List.take_of_length_le (hlength.trans_le h.2)]

/-- A size that is a `float` of its own is cut exactly. -/
theorem cutExactly_of_lt {size : UInt64} (hlt : size.toNat < 2 ^ 24) : CutExactly size := by
  have hpos : 0 < (partsForHashingSize size).toNat := partsForHashingSize_pos
  have hparts := @toNat_partsForHashingSize size
  rw [CutExactly]
  set parts := (partsForHashingSize size).toNat
  rcases Nat.lt_or_ge size.toNat 2000000 with hsmall | hlarge
  · left
    rw [hparts]
    split_ifs <;> omega
  · right
    rw [if_neg (by omega)] at hparts
    set m := (size.toNat - 1) / parts with hm
    have hmod : parts * m + (size.toNat - 1) % parts = size.toNat - 1 := Nat.div_add_mod _ _
    have hmPos : 0 < m := Nat.div_pos (by omega) hpos
    rw [toFloat_of_lt hlt, toFloat_of_lt (by omega : parts < 2 ^ 24)]
    constructor
    · have hpow : parts * 2 ^ Nat.log2 m < 2 ^ 24 := by
        calc parts * 2 ^ Nat.log2 m ≤ parts * m := Nat.mul_le_mul_left _ (Nat.log2_self_le hmPos.ne')
          _ < 2 ^ 24 := by omega
      have hpowq : (parts : ℚ) * 2 ^ Nat.log2 m < 2 ^ 24 := by exact_mod_cast hpow
      have hshort : (parts : ℚ) * m + 1 ≤ size.toNat := by
        exact_mod_cast (by omega : parts * m + 1 ≤ size.toNat)
      calc (parts : ℚ) * roundingLimit m = parts * m + parts * 2 ^ Nat.log2 m / 2 ^ 24 := by
            rw [roundingLimit]
            ring
        _ < parts * m + 1 := by
            rw [add_lt_add_iff_left, div_lt_one (by norm_num)]
            exact hpowq
        _ ≤ size.toNat := hshort
    · have hlong : size.toNat ≤ parts * (size.toNat / (parts - 1)) := by
        have hfill : size.toNat < size.toNat / (parts - 1) * (parts - 1) + (parts - 1) :=
          Nat.lt_div_mul_add (by omega)
        have hmega : parts - 1 ≤ size.toNat / (parts - 1) := by
          rw [Nat.le_div_iff_mul_le (by omega)]
          calc (parts - 1) * (parts - 1) ≤ 16 * 16 := Nat.mul_le_mul (by omega) (by omega)
            _ ≤ size.toNat := by omega
        rw [Nat.mul_sub_one, mul_comm] at hfill
        omega
      have hlongq : ((size.toNat : ℕ) : ℚ) ≤ parts * ((size.toNat / (parts - 1) : ℕ) : ℚ) := by
        exact_mod_cast hlong
      refine hlongq.trans ?_
      rw [roundingLimit]
      gcongr
      exact le_add_of_nonneg_right (by positivity)

/-- Seventeen megabytes and a byte are hashed in seventeen parts of a megabyte: the last byte is in
none. -/
theorem not_hashesWhole_seventeen : ¬HashesWhole 17000001 := by
  intro h
  have hlast := h.1.last 16 (by decide)
  have hend : hashOffset 17000001 16 + hashSize 17000001 16 = 17000000 := by decide +kernel
  rw [hend] at hlast
  exact absurd hlast (by decide)

end Mp2p.Files
