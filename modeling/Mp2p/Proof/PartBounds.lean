import Mp2p.Proof.Messages
import Mp2p.Proof.Partition
import Mp2p.Proof.RoundTrip

/-!
# Parts of files that the protocol allows

Below `2⁴⁸` bytes the table has few parts, each of them long, so what the roundings add to all of
them is less than one part. Nothing wraps, a part and its struct fit in a packet, and no part leaves
the file on either side; whatever the order, each byte that is written is the file's own.
-/

namespace Mp2p

open Masks Network Master Client Rounding

/-! ### The rows of the table below `2⁴⁸` bytes -/

/-- The part number and the quotient of a row are small, in a form that evaluates. -/
def rowSmall (row : ℕ × ℕ × ℕ) : Bool :=
  2 ^ 48 ≤ row.1 || (row.2.2 ≤ 2 ^ 18 && row.2.1 < 2 ^ 30 * row.2.2)

theorem row_lt {s : FsizeType} (hs : s.toNat < 2 ^ 48) :
    (numberOfParts storageSizes s).toNat ≤ 2 ^ 18 ∧
      s.toNat < 2 ^ 30 * (numberOfParts storageSizes s).toNat := by
  obtain ⟨lo, hi, n, hmem, hlo, hhi, hn⟩ := exists_shipped_row s
  have hall : ∀ row ∈ rowsFrom 0 storageSizes, rowSmall row = true := by decide
  have hrow := hall _ hmem
  simp only [rowSmall, Bool.or_eq_true, Bool.and_eq_true, decide_eq_true_eq] at hrow
  rw [hn]
  omega

section Bounds

variable {s : FsizeType} (hs : s.toNat < 2 ^ 48)

include hs

theorem pred_mul_partSize_le : ((numberOfParts storageSizes s).toNat - 1) *
    ceilFloatDiv s.toNat (numberOfParts storageSizes s).toNat ≤ s.toNat := by
  have hrow := tableRow s
  have hfew := (row_lt hs).1
  by_cases hone : (numberOfParts storageSizes s).toNat = 1
  · rw [hone, Nat.sub_self, Nat.zero_mul]
    exact Nat.zero_le _
  · apply pred_mul_ceilFloatDiv_le hrow.toFloat_parts hrow.pos (by omega)
    calc 4 * (numberOfParts storageSizes s).toNat * (numberOfParts storageSizes s).toNat
        ≤ 4 * 2 ^ 18 * (numberOfParts storageSizes s).toNat :=
          Nat.mul_le_mul_right _ (Nat.mul_le_mul_left 4 hfew)
      _ = 2 ^ 20 * (numberOfParts storageSizes s).toNat := by ring
      _ ≤ s.toNat := hrow.quot_ge hone

theorem partSize_lt : ceilFloatDiv s.toNat (numberOfParts storageSizes s).toNat < 2 ^ 31 := by
  have hrow := tableRow s
  have hlong := (row_lt hs).2
  have hpos : (0 : ℚ) < (numberOfParts storageSizes s).toNat := by exact_mod_cast hrow.pos
  have hquot : (s.toNat : ℚ) / (numberOfParts storageSizes s).toNat ≤ 2 ^ 30 := by
    rw [div_le_iff₀ hpos]
    exact_mod_cast hlong.le
  have hle := ceilFloatDiv_le (s := s.toNat) hrow.toFloat_parts hrow.pos
  have hlt : (ceilFloatDiv s.toNat (numberOfParts storageSizes s).toNat : ℚ) < 2 ^ 31 := by
    calc (ceilFloatDiv s.toNat (numberOfParts storageSizes s).toNat : ℚ)
        ≤ (s.toNat : ℚ) / (numberOfParts storageSizes s).toNat * (1 + 1 / 2 ^ 24) ^ 2 + 1 := hle
      _ ≤ 2 ^ 30 * (1 + 1 / 2 ^ 24) ^ 2 + 1 := by gcongr
      _ < 2 ^ 31 := by norm_num
  exact_mod_cast hlt

theorem mul_partSize_lt : (numberOfParts storageSizes s).toNat *
    ceilFloatDiv s.toNat (numberOfParts storageSizes s).toNat < 2 ^ 64 :=
  mul_ceilFloatDiv_lt (tableRow s) (by omega)

theorem toNat_getPartSize_le (i : PartnumType) :
    (getPartSize s i (numberOfParts storageSizes s)).toNat ≤
      ceilFloatDiv s.toNat (numberOfParts storageSizes s).toNat := by
  have hlt := partSize_lt hs
  have hpos := (tableRow s).pos
  by_cases hi : i = numberOfParts storageSizes s - 1
  · subst hi
    rw [toNat_getPartSize_last rfl (by omega) hpos (pred_mul_partSize_le hs)]
    split_ifs
    · exact Nat.min_le_left _ _
    · exact le_rfl
  · exact (toNat_getPartSize_of_ne rfl (by omega) hi).le

end Bounds

/-- **No part wraps.** The correction of the last part takes away no more than the part, each part
has the size of the same sum in numbers without bounds, and the packet that carries it has its exact
length in the header. -/
theorem partSizes_exact {s : FsizeType} (hs : s.toNat < 2 ^ 48) :
    ((numberOfParts storageSizes s).toNat - 1) *
        ceilFloatDiv s.toNat (numberOfParts storageSizes s).toNat ≤ s.toNat ∧
      ∀ i < numberOfParts storageSizes s,
        ((getPartSize s i (numberOfParts storageSizes s)).toNat : ℤ) =
            unwrappedPartSize s.toNat i.toNat (numberOfParts storageSizes s).toNat ∧
          32 + (getPartSize s i (numberOfParts storageSizes s)).toNat < 2 ^ 32 ∧
          ∀ (fid : FidType) (hash : Sha1Type) (buffer : Bytes),
            buffer.length = (getPartSize s i (numberOfParts storageSizes s)).toNat →
              (upActPacket fid i hash buffer).header.size.toNat =
                32 + (getPartSize s i (numberOfParts storageSizes s)).toNat := by
  have hlt := partSize_lt hs
  have hpred := pred_mul_partSize_le hs
  refine ⟨hpred, fun i _ => ⟨?_, ?_, ?_⟩⟩
  · exact toNat_getPartSize_eq_unwrapped rfl (by omega) (tableRow s).pos hpred (mul_partSize_lt hs) i
  · have hle := toNat_getPartSize_le hs i
    omega
  · intro fid hash buffer hbuffer
    have hle := toNat_getPartSize_le hs i
    have hsize : (Message.upAct ⟨fid, i⟩ hash buffer).size = 32 + buffer.length := rfl
    have hheader := (Message.upAct ⟨fid, i⟩ hash buffer).size_packet (by omega)
    rw [Message.length_body, hsize, hbuffer] at hheader
    exact hheader

/-- The last part of the largest file that the protocol allows. -/
theorem partSizes_exact_largest : (281474976710655 : FsizeType).toNat < 2 ^ 48 ∧
    262143 < numberOfParts storageSizes 281474976710655 ∧
      32 + (getPartSize 281474976710655 262143 (numberOfParts storageSizes 281474976710655)).toNat <
        2 ^ 32 :=
  have hmem : 262143 < numberOfParts storageSizes 281474976710655 := by decide
  ⟨by decide, hmem, ((partSizes_exact (by decide)).2 262143 hmem).2.1⟩

/-! ### The transfer -/

section Ranges

variable {file : File} (hs : file.data.length < 2 ^ 48)

include hs

/-- No part leaves the file: the ones before the last are shorter than two steps, and the last one is
cut to what the others would leave without overlap. -/
theorem part_end_le {i : PartnumType} (hi : i < numberOfParts storageSizes file.size) :
    file.data.length / (numberOfParts storageSizes file.size).toNat * i.toNat +
      (getPartSize file.size i (numberOfParts storageSizes file.size)).toNat ≤ file.data.length := by
  have hsize := file.toNat_size
  have hsmall : file.size.toNat < 2 ^ 48 := by rwa [hsize]
  have hrow := tableRow file.size
  have hpred := pred_mul_partSize_le hsmall
  have hlt := partSize_lt hsmall
  have hfit := mul_partSize_lt hsmall
  have hi' := UInt32.lt_iff_toNat_lt.mp hi
  rw [← hsize]
  generalize numberOfParts storageSizes file.size = n at *
  set p := ceilFloatDiv file.size.toNat n.toNat with hp
  set q := file.size.toNat / n.toNat with hq
  have hnq : n.toNat * q ≤ file.size.toNat := Nat.mul_div_le _ _
  have hpos := hrow.pos
  by_cases hlast : i = n - 1
  · have hn := mul_eq_pred_mul_add hpos p
    have hn' := mul_eq_pred_mul_add hpos q
    rw [hlast, toNat_sub_one hpos, toNat_getPartSize_last hp.symm (by omega) hpos hpred,
      if_pos (by omega), mul_comm q]
    rcases Nat.le_total p q with hle | hge
    · omega
    · have hmul : (n.toNat - 1) * q ≤ (n.toNat - 1) * p := Nat.mul_le_mul_left _ hge
      omega
  · have hne := toNat_ne_pred hpos hlast
    have hone : n.toNat ≠ 1 := by omega
    have hdouble : p < 2 * q := ceilFloatDiv_lt hrow.toFloat_parts hpos (hrow.quot_ge hone)
    rw [toNat_getPartSize_of_ne hp.symm (by omega) hlast]
    calc q * i.toNat + p ≤ q * i.toNat + 2 * q := by omega
      _ = (i.toNat + 2) * q := by ring
      _ ≤ n.toNat * q := Nat.mul_le_mul_right _ (by omega)
      _ ≤ file.size.toNat := hnq

/-- The buffer of a part is in the file, and it travels whole. -/
theorem exists_partBuffer {i : PartnumType} (hi : i < numberOfParts storageSizes file.size) :
    ∃ buffer, partBuffer file (numberOfParts storageSizes file.size).toUInt64 i.toUInt64 =
        some buffer ∧
      buffer.length = (getPartSize file.size i (numberOfParts storageSizes file.size)).toNat ∧
      buffer.take (buffer.length % 2 ^ 32) = buffer := by
  have hsmall : file.size.toNat < 2 ^ 48 := by rwa [file.toNat_size]
  have hlt := partSize_lt hsmall
  have hle := toNat_getPartSize_le hsmall i
  obtain ⟨buffer, hbuffer⟩ : ∃ buffer, partBuffer file
      (numberOfParts storageSizes file.size).toUInt64 i.toUInt64 = some buffer := by
    rw [partBuffer_eq_read (UInt32.lt_iff_toNat_lt.mp hi)]
    exact ⟨_, Window.read_eq_some_iff.mpr ⟨part_end_le hs hi, rfl⟩⟩
  have hlength := Window.length_of_read
    ((partBuffer_eq_read (UInt32.lt_iff_toNat_lt.mp hi)).symm.trans hbuffer)
  refine ⟨buffer, hbuffer, hlength, ?_⟩
  rw [Nat.mod_eq_of_lt (by omega), List.take_length]

end Ranges

def writeOffset (file : File) (i : PartnumType) : ℕ :=
  (i.toUInt64 * (file.size / (numberOfParts storageSizes file.size).toUInt64)).toNat

theorem writeOffset_eq {file : File} {i : PartnumType}
    (hi : i < numberOfParts storageSizes file.size) : writeOffset file i =
      file.data.length / (numberOfParts storageSizes file.size).toNat * i.toNat := by
  rw [writeOffset, UInt64.mul_comm, toNat_offset (UInt32.lt_iff_toNat_lt.mp hi)]

/-- What `send_parts` reads for part `i` and what `recv_part` writes for it lie in the file, and what
is written are the file's own bytes there. -/
structure PartInBounds (hashBufferHex : Bytes → Sha1Type) (file : File) (i : PartnumType) :
    Prop where
  read : (file.size / (numberOfParts storageSizes file.size).toUInt64 * i.toUInt64).toNat +
    (getPartSize file.size i (numberOfParts storageSizes file.size)).toNat ≤ file.size.toNat
  write : writeOffset file i +
    (getPartSize file.size i (numberOfParts storageSizes file.size)).toNat ≤ file.size.toNat
  sent : ∀ fid, ∃ p, sendPart hashBufferHex fid file
      (numberOfParts storageSizes file.size).toUInt64 i.toUInt64 = some p ∧
    (upActData p).length = (getPartSize file.size i (numberOfParts storageSizes file.size)).toNat ∧
    Window.CopyOf file.data (writeOffset file i, upActData p)

def PartReaches (file : File) (k : ℕ) (i : PartnumType) : Prop :=
  writeOffset file i ≤ k ∧ k < writeOffset file i +
    (getPartSize file.size i (numberOfParts storageSizes file.size)).toNat

section Orders

variable {file : File} (hs : file.data.length < 2 ^ 48) {hashBufferHex : Bytes → Sha1Type}

include hs

theorem partInBounds {i : PartnumType} (hi : i < numberOfParts storageSizes file.size) :
    PartInBounds hashBufferHex file i := by
  have hend := part_end_le hs hi
  obtain ⟨buffer, hbuffer, hlength, htake⟩ := exists_partBuffer hs hi
  have hcopy := copyOf_part (UInt32.lt_iff_toNat_lt.mp hi) hbuffer buffer.length
  rw [List.take_length] at hcopy
  refine ⟨?_, ?_, fun fid => ⟨upActPacket fid i (hashBufferHex buffer) buffer, ?_, ?_, ?_⟩⟩
  · rwa [toNat_offset (UInt32.lt_iff_toNat_lt.mp hi), file.toNat_size]
  · rwa [writeOffset_eq hi, file.toNat_size]
  · rw [sendPart, hbuffer, Option.map_some, UInt32.toUInt32_toUInt64]
  · rw [upActData_upActPacket, htake, hlength]
  · rwa [upActData_upActPacket, htake, writeOffset_eq hi]

variable (hashBufferHex) in
theorem exists_transfer (fid : FidType) (loc : PartnumType → StidType) (initial : StoredParts)
    {up down : List PartnumType} (hup : up.Perm (partnums (numberOfParts storageSizes file.size)))
    (hdown : down.Perm (partnums (numberOfParts storageSizes file.size))) :
    ∃ out, transfer hashBufferHex fid file loc initial up down = some out ∧
      out.length = file.data.length ∧
      ∀ k, ((∃ i < numberOfParts storageSizes file.size, PartReaches file k i) →
          out[k]? = file.data[k]?) ∧
        ((¬∃ i < numberOfParts storageSizes file.size, PartReaches file k i) →
          out[k]? = (createEmptyFile file.size)[k]?) := by
  have hmem {i : PartnumType} (hi : i ∈ down) : i < numberOfParts storageSizes file.size :=
    UInt32.lt_iff_toNat_lt.mpr (mem_partnums.mp (hdown.mem_iff.mp hi))
  obtain ⟨st, hst⟩ := @storeParts_isSome hashBufferHex fid file loc
    (numberOfParts storageSizes file.size) up (fun i hi => by
      obtain ⟨buffer, hbuffer, -⟩ := exists_partBuffer hs
        (UInt32.lt_iff_toNat_lt.mpr (mem_partnums.mp (hup.mem_iff.mp hi)))
      rw [hbuffer, Option.isSome_some]) initial
  obtain ⟨buffer, hbuffer, heq⟩ := transfer_eq_writeAll hup hdown hst
  have hlength {i : PartnumType} (hi : i ∈ down) :
      ((buffer i).take ((buffer i).length % 2 ^ 32)).length =
        (getPartSize file.size i (numberOfParts storageSizes file.size)).toNat := by
    obtain ⟨whole, hwhole, hlen, htake⟩ := exists_partBuffer hs (hmem hi)
    rw [hbuffer i hi, Option.some_inj] at hwhole
    rw [hwhole, htake, hlen]
  obtain ⟨out, hout⟩ : ∃ out, Window.writeAll (createEmptyFile file.size) (down.map fun i =>
      (file.data.length / (numberOfParts storageSizes file.size).toNat * i.toNat,
        (buffer i).take ((buffer i).length % 2 ^ 32))) = some out := by
    apply Window.exists_writeAll
    rw [List.forall_mem_map]
    intro i hi
    rw [hlength hi, length_createEmptyFile, file.toNat_size]
    exact part_end_le hs (hmem hi)
  have hcopies := Window.getElem?_of_writeAll hout (List.forall_mem_map.mpr fun i hi =>
    copyOf_part (mem_partnums.mp (hdown.mem_iff.mp hi)) (hbuffer i hi) _)
  have hreaches (k : ℕ) : (∃ w ∈ down.map fun i =>
      (file.data.length / (numberOfParts storageSizes file.size).toNat * i.toNat,
        (buffer i).take ((buffer i).length % 2 ^ 32)), Window.Reaches w k) ↔
      ∃ i < numberOfParts storageSizes file.size, PartReaches file k i := by
    constructor
    · rintro ⟨w, hw, hreach⟩
      obtain ⟨i, hi, rfl⟩ := List.mem_map.mp hw
      refine ⟨i, hmem hi, ?_⟩
      rwa [PartReaches, writeOffset_eq (hmem hi), ← hlength hi]
    · rintro ⟨i, hi, hreach⟩
      have hi' : i ∈ down :=
        hdown.mem_iff.mpr (mem_partnums.mpr (UInt32.lt_iff_toNat_lt.mp hi))
      refine ⟨_, List.mem_map_of_mem hi', ?_⟩
      rwa [PartReaches, writeOffset_eq hi, ← hlength hi'] at hreach
  refine ⟨out, heq.trans hout, ?_, fun k => ⟨fun hk => ?_, fun hk => ?_⟩⟩
  · rw [Window.length_of_writeAll hout, length_createEmptyFile, file.toNat_size]
  · rw [hcopies k, if_pos ((hreaches k).mpr hk)]
  · rw [hcopies k, if_neg (fun h => hk ((hreaches k).mp h))]

end Orders

/-- **Any order.** The parts of a file that the protocol allows stay in it on both sides, and every
order of sending and of fetching them gives one file, which holds its own byte wherever a part
reached. -/
theorem transfer_in_any_order {file : File} (hs : file.data.length < 2 ^ 48)
    (hashBufferHex : Bytes → Sha1Type) :
    (∀ i < numberOfParts storageSizes file.size, PartInBounds hashBufferHex file i) ∧
      ∃ out : Bytes, out.length = file.data.length ∧
        (∀ k, (∃ i < numberOfParts storageSizes file.size, PartReaches file k i) →
          out[k]? = file.data[k]?) ∧
        ∀ (fid : FidType) (loc : PartnumType → StidType) (initial : StoredParts)
          (up down : List PartnumType),
          up.Perm (partnums (numberOfParts storageSizes file.size)) →
          down.Perm (partnums (numberOfParts storageSizes file.size)) →
            transfer hashBufferHex fid file loc initial up down = some out := by
  refine ⟨fun i hi => partInBounds hs hi, ?_⟩
  obtain ⟨out, -, hlength, hbytes⟩ := exists_transfer hs hashBufferHex 0 (fun _ => 0)
    (fun _ _ => none) (.refl _) (.refl _)
  refine ⟨out, hlength, fun k => (hbytes k).1, ?_⟩
  intro fid loc initial up down hup hdown
  obtain ⟨out', hout', -, hbytes'⟩ := exists_transfer hs hashBufferHex fid loc initial
    hup hdown
  rw [hout', Option.some_inj]
  apply List.ext_getElem?
  intro k
  by_cases hk : ∃ i < numberOfParts storageSizes file.size, PartReaches file k i
  · rw [(hbytes' k).1 hk, (hbytes k).1 hk]
  · rw [(hbytes' k).2 hk, (hbytes k).2 hk]

/-- Two parts of `2²¹ + 1` bytes, sent and fetched in either order. -/
theorem transfer_in_any_order_two : ∃ out,
    transfer (fun _ => List.Vector.replicate 20 0) 0 (filledFile 2097153) (fun _ => 0)
        (fun _ _ => none) [0, 1] [1, 0] = some out ∧
      transfer (fun _ => List.Vector.replicate 20 0) 0 (filledFile 2097153) (fun _ => 0)
        (fun _ _ => none) [1, 0] [0, 1] = some out := by
  have hlength : (filledFile 2097153).data.length < 2 ^ 48 := by
    rw [filledFile, List.length_replicate]
    decide
  have hparts : partnums (numberOfParts storageSizes (filledFile 2097153).size) = [0, 1] := by
    rw [size_filledFile]
    decide
  obtain ⟨out, -, -, hout⟩ := (transfer_in_any_order hlength
    fun _ => List.Vector.replicate 20 0).2
  rw [hparts] at hout
  exact ⟨out, hout _ _ _ _ _ (.refl _) (.swap 0 1 []), hout _ _ _ _ _ (.swap 0 1 []) (.refl _)⟩

end Mp2p
