import Mp2p.Client.Transfer
import Mp2p.Lib.Window
import Mp2p.Proof.PartSize

/-!
# Upload then download

Part `i` is read from the file and written back at the same offset `i * (size / parts)`, so whatever
arrives lands where it came from and the order of arrival leaves no trace; all that can go wrong is
that the parts do not reach every byte. They reach the last byte only when the length of a part is
the exact quotient: a longer part makes `get_part_size` shorten the last one as if the parts before
it did not overlap, and a shorter part leaves gaps.
-/

namespace Mp2p

open Masks Network Master Client Rounding

abbrev StoredParts := StidType → PartId → Option Bytes

def StoredParts.put (st : StoredParts) (stid : StidType) (partid : PartId) (data : Bytes) :
    StoredParts :=
  fun stid' partid' => if stid' = stid ∧ partid' = partid then some data else st stid' partid'

section Transfer

variable (hashBufferHex : Bytes → Sha1Type) (fid : FidType) (file : File)
  (loc : PartnumType → StidType)

/-- The parts in `order` cut from the file and stored, part `i` on storage `loc i`. -/
def storeParts (n : PartnumType) : List PartnumType → StoredParts → Option StoredParts
  | [], st => some st
  | i :: rest, st =>
      (sendPart hashBufferHex fid file n.toUInt64 i.toUInt64).bind fun p =>
        storeParts n rest (st.put (loc i) ⟨fid, i⟩ (upActData p))

/-- The parts in `order` fetched from where they are stored and written to the file. -/
def fetchParts (st : StoredParts) (partSize : UInt64) :
    List PartnumType → Bytes → Option Bytes
  | [], out => some out
  | i :: rest, out =>
      (st (loc i) ⟨fid, i⟩).bind fun data =>
        (recvPart out partSize i data).bind fun out => fetchParts st partSize rest out

/-- An upload of the file followed by its download, the parts stored in the order `up` and fetched
in the order `down`. -/
def transfer (initial : StoredParts) (up down : List PartnumType) : Option Bytes :=
  let n := numberOfParts storageSizes file.size
  (storeParts hashBufferHex fid file loc n up initial).bind fun st =>
    fetchParts fid loc st (file.size / n.toUInt64) down (createEmptyFile file.size)

end Transfer

def partnums (n : PartnumType) : List PartnumType := (List.range n.toNat).map UInt32.ofNat

/-- The sizes that survive: `number_of_parts` divides the size, the quotient has at most 24
significant bits, the size does not have exactly 25, and it is below `2⁵⁶`. -/
def Lossless (s : FsizeType) : Prop :=
  s.toNat < 2 ^ 56 ∧ (numberOfParts storageSizes s).toNat ∣ s.toNat ∧
    FitsBits 24 (s.toNat / (numberOfParts storageSizes s).toNat) ∧
    (FitsBits 25 s.toNat → FitsBits 24 s.toNat)

/-- Every file of this size comes back as it was, whatever the storages and the orders. -/
def RoundTrips (hashBufferHex : Bytes → Sha1Type) (s : FsizeType) : Prop :=
  ∀ (file : File), file.size = s →
    ∀ (fid : FidType) (loc : PartnumType → StidType) (initial : StoredParts)
      (up down : List PartnumType),
      up.Perm (partnums (numberOfParts storageSizes s)) →
      down.Perm (partnums (numberOfParts storageSizes s)) →
        transfer hashBufferHex fid file loc initial up down = some file.data

theorem mem_partnums {n i : PartnumType} : i ∈ partnums n ↔ i.toNat < n.toNat := by
  simp only [partnums, List.mem_map, List.mem_range]
  constructor
  · rintro ⟨j, hj, rfl⟩
    have := n.toNat_lt
    rwa [UInt32.toNat_ofNat', Nat.mod_eq_of_lt (by omega)]
  · intro h
    exact ⟨i.toNat, h, UInt32.ofNat_toNat⟩

/-! ### What is stored and what is written back -/

section Stored

variable {hashBufferHex : Bytes → Sha1Type} {fid : FidType} {file : File}
  {loc : PartnumType → StidType} {n : PartnumType}

/-- The data that travels is the part cut to the 32 bits its size has in the packet. -/
theorem upActData_upActPacket (partNum : PartnumType) (hash : Sha1Type) (buffer : Bytes) :
    upActData (upActPacket fid partNum hash buffer) = buffer.take (buffer.length % 2 ^ 32) := by
  simp [upActData, upActPacket, Packet.addData, Packet.addMessage]

theorem storeParts_apply {order : List PartnumType} {initial st : StoredParts}
    (h : storeParts hashBufferHex fid file loc n order initial = some st) (i : PartnumType) :
    (i ∈ order → ∃ buffer, partBuffer file n.toUInt64 i.toUInt64 = some buffer ∧
        st (loc i) ⟨fid, i⟩ = some (buffer.take (buffer.length % 2 ^ 32))) ∧
      (i ∉ order → st (loc i) ⟨fid, i⟩ = initial (loc i) ⟨fid, i⟩) := by
  induction order generalizing initial with
  | nil =>
      rw [storeParts, Option.some_inj] at h
      simp [h]
  | cons j rest ih =>
      rw [storeParts, Option.bind_eq_some_iff] at h
      obtain ⟨p, hp, hrest⟩ := h
      obtain ⟨hin, hout⟩ := ih hrest
      rw [sendPart, Option.map_eq_some_iff] at hp
      obtain ⟨buffer, hbuffer, rfl⟩ := hp
      constructor
      · intro hi
        by_cases hlater : i ∈ rest
        · exact hin hlater
        · obtain rfl : i = j := (List.mem_cons.mp hi).resolve_right hlater
          refine ⟨buffer, hbuffer, ?_⟩
          rw [hout hlater, StoredParts.put, if_pos ⟨rfl, rfl⟩, upActData_upActPacket]
      · intro hi
        rw [List.mem_cons, not_or] at hi
        rw [hout hi.2, StoredParts.put, if_neg]
        rintro ⟨-, heq⟩
        exact hi.1 (congrArg PartId.partnum heq)

theorem storeParts_isSome {order : List PartnumType}
    (h : ∀ i ∈ order, (partBuffer file n.toUInt64 i.toUInt64).isSome) (initial : StoredParts) :
    ∃ st, storeParts hashBufferHex fid file loc n order initial = some st := by
  induction order generalizing initial with
  | nil => exact ⟨initial, rfl⟩
  | cons i rest ih =>
      obtain ⟨buffer, hbuffer⟩ := Option.isSome_iff_exists.mp (h i List.mem_cons_self)
      rw [storeParts, sendPart, hbuffer, Option.map_some, Option.bind_some]
      exact ih (fun j hj => h j (List.mem_cons_of_mem _ hj)) _

theorem fetchParts_eq_writeAll {st : StoredParts} {partSize : UInt64} {order : List PartnumType}
    {data : PartnumType → Bytes} (hst : ∀ i ∈ order, st (loc i) ⟨fid, i⟩ = some (data i))
    (out : Bytes) :
    fetchParts fid loc st partSize order out =
      Window.writeAll out (order.map fun i => ((i.toUInt64 * partSize).toNat, data i)) := by
  induction order generalizing out with
  | nil => rfl
  | cons i rest ih =>
      rw [fetchParts, hst i List.mem_cons_self, Option.bind_some, List.map_cons,
        Window.writeAll_cons, recvPart]
      congr 1
      funext out
      exact ih (fun j hj => hst j (List.mem_cons_of_mem _ hj)) out

end Stored

/-! ### Where the parts lie -/

section Parts

variable {file : File} {n i : PartnumType} {buffer : Bytes}

theorem toNat_offset (hi : i.toNat < n.toNat) :
    (file.size / n.toUInt64 * i.toUInt64).toNat = file.data.length / n.toNat * i.toNat := by
  have hle : file.data.length / n.toNat * i.toNat ≤ file.data.length :=
    (Nat.mul_le_mul_left _ hi.le).trans (Nat.div_mul_le_self _ _)
  have hlt := file.size_lt
  rw [UInt64.toNat_mul, UInt64.toNat_div, file.toNat_size, UInt32.toNat_toUInt64,
    UInt32.toNat_toUInt64, Nat.mod_eq_of_lt (by omega)]

theorem partBuffer_eq_read (hi : i.toNat < n.toNat) :
    partBuffer file n.toUInt64 i.toUInt64 =
      Window.read file.data (file.data.length / n.toNat * i.toNat)
        (getPartSize file.size i n).toNat := by
  rw [← toNat_offset hi]
  simp [partBuffer]

theorem copyOf_part (hi : i.toNat < n.toNat)
    (h : partBuffer file n.toUInt64 i.toUInt64 = some buffer) (m : ℕ) :
    Window.CopyOf file.data (file.data.length / n.toNat * i.toNat, buffer.take m) := by
  intro j hj
  have hread := (partBuffer_eq_read hi).symm.trans h
  have hlen := Window.length_of_read hread
  simp only [List.length_take] at hj
  rw [List.getElem?_take_of_lt (by omega), Window.getElem?_of_read hread (by omega)]

end Parts

section Sizes

variable {file : File} {i : PartnumType} {buffer : Bytes}

theorem mul_ceilFloatDiv_lt {s n : ℕ} (h : TableRow s n) (hs : s < 2 ^ 56) :
    n * ceilFloatDiv s n < 2 ^ 64 := by
  by_cases hn : n = 1
  · subst hn
    rw [ceilFloatDiv_one h, one_mul]
    omega
  · have hlt := ceilFloatDiv_lt h.toFloat_parts h.pos (h.quot_ge hn)
    calc n * ceilFloatDiv s n ≤ n * (2 * (s / n)) := Nat.mul_le_mul_left n hlt.le
      _ = 2 * (n * (s / n)) := by ring
      _ ≤ 2 * s := Nat.mul_le_mul_left 2 (Nat.mul_div_le s n)
      _ < 2 ^ 64 := by omega

/-- The last part of a file in several parts, when the part size is not the exact quotient. -/
theorem last_part_end_lt {s i p q len : ℕ} (hi : 0 < i) (hq : (i + 1) * q ≤ s) (hs : s < 2 ^ 64)
    (hp : (i + 1) * p < 2 ^ 64) (hne : p = q → (i + 1) * q ≠ s) (hfloor : (i + 1) * p ≤ s → p ≤ q)
    (hlen : len = if s < (i + 1) * p then (2 ^ 64 + s - i * p) % 2 ^ 64 else p)
    (hfit : q * i + len ≤ s) : q * i + len < s := by
  have hip : (i + 1) * p = i * p + p := by ring
  have hiq : (i + 1) * q = q * i + q := by ring
  by_cases hlt : s < (i + 1) * p
  · -- the correction counts the parts before the last as if they did not overlap
    rw [if_pos hlt] at hlen
    have hqp : q < p := by
      by_contra hle
      have : (i + 1) * p ≤ (i + 1) * q := Nat.mul_le_mul_left _ (by omega)
      omega
    have hmul : q * i < i * p := by
      rw [mul_comm q i]
      exact Nat.mul_lt_mul_of_pos_left hqp hi
    omega
  · rw [if_neg hlt] at hlen
    have hle := hfloor (by omega)
    rcases hle.lt_or_eq with hpq | hpq
    · omega
    · have := hne hpq
      omega

/-- **A lost last byte.** When the size is not one of those that survive, what travels of any part
ends before the last byte of the file. -/
theorem part_end_lt (hs : ¬ Lossless file.size)
    (hi : i.toNat < (numberOfParts storageSizes file.size).toNat)
    (h : partBuffer file (numberOfParts storageSizes file.size).toUInt64 i.toUInt64
      = some buffer) :
    file.data.length / (numberOfParts storageSizes file.size).toNat * i.toNat
      + buffer.length % 2 ^ 32 < file.data.length := by
  have hrow := tableRow file.size
  rw [file.toNat_size] at hrow
  rw [Lossless, file.toNat_size] at hs
  generalize numberOfParts storageSizes file.size = n at *
  have hread := (partBuffer_eq_read hi).symm.trans h
  have hlen := Window.length_of_read hread
  have hfit := (Window.read_eq_some_iff.mp hread).1
  have hsize := file.size_lt
  set s := file.data.length with hsdef
  set q := s / n.toNat with hq
  have hpos := hrow.pos
  have hnq : n.toNat * q ≤ s := Nat.mul_div_le s n.toNat
  have hmod : buffer.length % 2 ^ 32 ≤ buffer.length := Nat.mod_le _ _
  rcases Nat.lt_or_ge s (2 ^ 56) with hsmall | hlarge
  · have hone : n.toNat ≠ 1 := by
      intro hone
      rw [hone] at hrow
      have hlt := hrow.lt_of_eq_one
      refine hs ⟨hsmall, hone ▸ one_dvd s, ?_, fun _ => fitsBits_of_lt (by omega)⟩
      rw [hq, hone, Nat.div_one]
      exact fitsBits_of_lt (by omega)
    have hmul := mul_ceilFloatDiv_lt hrow hsmall
    have hsz := toNat_getPartSize (s := file.size) hi (by rwa [file.toNat_size])
    rw [file.toNat_size, ← hlen] at hsz
    set p := ceilFloatDiv s n.toNat with hp
    by_cases hlast : i.toNat + 1 = n.toNat
    · have hne : p = q → n.toNat * q ≠ s := by
        intro hpq hns
        have hdvd : n.toNat ∣ s := Dvd.intro q hns
        exact hs ⟨hsmall, hdvd, (ceilFloatDiv_eq_iff hrow hdvd).mp hpq⟩
      have hfloor : n.toNat * p ≤ s → p ≤ q := fun hle =>
        (Nat.le_div_iff_mul_le hpos).mpr (by rwa [mul_comm])
      rw [← hlast] at hnq hmul hne hfloor hsz
      simp only [true_and] at hsz
      have := last_part_end_lt (by omega) hnq hsize hmul hne hfloor hsz (by omega)
      omega
    · have hlt : p < 2 * q := ceilFloatDiv_lt hrow.toFloat_parts hpos (hrow.quot_ge hone)
      rw [if_neg (by tauto)] at hsz
      have hiq : q * i.toNat + 2 * q ≤ n.toNat * q := by
        calc q * i.toNat + 2 * q = (i.toNat + 2) * q := by ring
          _ ≤ n.toNat * q := Nat.mul_le_mul_right q (by omega)
      omega
  · -- what travels of a part has fewer than `2³²` bytes, the step from part to part has more
    have hq32 : 2 ^ 32 ≤ q := (Nat.le_div_iff_mul_le hpos).mpr (hrow.quot_ge_of_large hlarge)
    have hmod32 : buffer.length % 2 ^ 32 < 2 ^ 32 := Nat.mod_lt _ (by norm_num)
    have hiq : q * i.toNat + q ≤ n.toNat * q := by
      calc q * i.toNat + q = (i.toNat + 1) * q := by ring
        _ ≤ n.toNat * q := Nat.mul_le_mul_right q (by omega)
    omega

/-- **Exact parts.** When the size survives, part `i` is the `i`-th piece of the exact quotient and
travels whole. -/
theorem getPartSize_of_lossless (hs : Lossless file.size)
    (hi : i.toNat < (numberOfParts storageSizes file.size).toNat) :
    (getPartSize file.size i (numberOfParts storageSizes file.size)).toNat
      = file.data.length / (numberOfParts storageSizes file.size).toNat := by
  have hrow := tableRow file.size
  rw [file.toNat_size] at hrow
  obtain ⟨hsmall, hdvd, hbits⟩ := hs
  rw [file.toNat_size] at hsmall hdvd hbits
  have hexact := (ceilFloatDiv_eq_iff hrow hdvd).mpr hbits
  have hmul : (numberOfParts storageSizes file.size).toNat
      * ceilFloatDiv file.data.length (numberOfParts storageSizes file.size).toNat
      = file.data.length := by
    rw [hexact, Nat.mul_div_cancel' hdvd]
  rw [toNat_getPartSize hi (by rw [file.toNat_size, hmul]; omega), file.toNat_size, hmul,
    if_neg (by omega), hexact]

end Sizes

/-! ### The whole transfer -/

section Whole

variable {hashBufferHex : Bytes → Sha1Type} {fid : FidType} {file : File}
  {loc : PartnumType → StidType} {initial : StoredParts} {up down : List PartnumType}

theorem length_createEmptyFile (s : FsizeType) : (createEmptyFile s).length = s.toNat :=
  List.length_replicate

/-- What a transfer writes: the stored copy of every part, each at its own offset. -/
theorem transfer_eq_writeAll
    (hup : up.Perm (partnums (numberOfParts storageSizes file.size)))
    (hdown : down.Perm (partnums (numberOfParts storageSizes file.size)))
    {st : StoredParts}
    (hst : storeParts hashBufferHex fid file loc (numberOfParts storageSizes file.size) up initial
      = some st) :
    ∃ buffer : PartnumType → Bytes,
      (∀ i ∈ down, partBuffer file (numberOfParts storageSizes file.size).toUInt64 i.toUInt64
        = some (buffer i)) ∧
      transfer hashBufferHex fid file loc initial up down =
        Window.writeAll (createEmptyFile file.size) (down.map fun i =>
          (file.data.length / (numberOfParts storageSizes file.size).toNat * i.toNat,
            (buffer i).take ((buffer i).length % 2 ^ 32))) := by
  have hstored (i : PartnumType) (hi : i ∈ down) :=
    (storeParts_apply hst i).1 (hup.mem_iff.mpr (hdown.mem_iff.mp hi))
  choose! buffer hbuffer hdata using hstored
  refine ⟨buffer, hbuffer, ?_⟩
  rw [transfer, hst, Option.bind_some, fetchParts_eq_writeAll hdata]
  congr 1
  refine List.map_congr_left fun i hi => ?_
  rw [UInt64.mul_comm i.toUInt64, toNat_offset (mem_partnums.mp (hdown.mem_iff.mp hi))]

/-- **Round trip.** A file whose size survives comes back byte for byte. -/
theorem transfer_of_lossless (hs : Lossless file.size)
    (hup : up.Perm (partnums (numberOfParts storageSizes file.size)))
    (hdown : down.Perm (partnums (numberOfParts storageSizes file.size))) :
    transfer hashBufferHex fid file loc initial up down = some file.data := by
  have hpos := (tableRow file.size).pos
  have hlt := (tableRow file.size).quot_lt hs.1
  have hdvd := hs.2.1
  rw [file.toNat_size] at hlt hdvd
  have hsize (i : PartnumType) (hi : i ∈ partnums (numberOfParts storageSizes file.size)) :=
    getPartSize_of_lossless hs (mem_partnums.mp hi)
  have hfit (i : PartnumType) (hi : i ∈ partnums (numberOfParts storageSizes file.size)) :
      file.data.length / (numberOfParts storageSizes file.size).toNat * i.toNat
        + file.data.length / (numberOfParts storageSizes file.size).toNat
        ≤ file.data.length := by
    have hi := mem_partnums.mp hi
    calc _ = (i.toNat + 1)
          * (file.data.length / (numberOfParts storageSizes file.size).toNat) := by ring
      _ ≤ (numberOfParts storageSizes file.size).toNat
          * (file.data.length / (numberOfParts storageSizes file.size).toNat) :=
        Nat.mul_le_mul_right _ hi
      _ = file.data.length := Nat.mul_div_cancel' hdvd
  obtain ⟨st, hst⟩ := @storeParts_isSome hashBufferHex fid file loc
    (numberOfParts storageSizes file.size) up (fun i hi => by
      have hi := hup.mem_iff.mp hi
      rw [partBuffer_eq_read (mem_partnums.mp hi), hsize i hi, Window.read, if_pos (hfit i hi),
        Option.isSome_some]) initial
  obtain ⟨buffer, hbuffer, heq⟩ := transfer_eq_writeAll hup hdown hst
  have hlen (i : PartnumType) (hi : i ∈ down) : (buffer i).length
      = file.data.length / (numberOfParts storageSizes file.size).toNat := by
    have hi' := hdown.mem_iff.mp hi
    rw [Window.length_of_read ((partBuffer_eq_read (mem_partnums.mp hi')).symm.trans
      (hbuffer i hi)), hsize i hi']
  have htake (i : PartnumType) (hi : i ∈ down) :
      (buffer i).take ((buffer i).length % 2 ^ 32) = buffer i := by
    rw [Nat.mod_eq_of_lt (by rw [hlen i hi]; exact hlt), List.take_length]
  rw [heq]
  apply Window.writeAll_eq_source
  · rw [length_createEmptyFile, file.toNat_size]
  · simp only [List.forall_mem_map]
    intro i hi
    rw [htake i hi, hlen i hi]
    exact hfit i (hdown.mem_iff.mp hi)
  · simp only [List.forall_mem_map]
    intro i hi
    exact copyOf_part (mem_partnums.mp (hdown.mem_iff.mp hi)) (hbuffer i hi) _
  · intro k hk
    set q := file.data.length / (numberOfParts storageSizes file.size).toNat with hq
    have hnq : (numberOfParts storageSizes file.size).toNat * q = file.data.length :=
      Nat.mul_div_cancel' hdvd
    have hqpos : 0 < q := by
      by_contra hzero
      rw [Nat.eq_zero_of_not_pos hzero, mul_zero] at hnq
      omega
    have hkn : k / q < (numberOfParts storageSizes file.size).toNat := by
      rw [Nat.div_lt_iff_lt_mul hqpos, hnq]
      exact hk
    have hn := (numberOfParts storageSizes file.size).toNat_lt
    have hnum : (UInt32.ofNat (k / q)).toNat = k / q := by
      rw [UInt32.toNat_ofNat', Nat.mod_eq_of_lt (by omega)]
    have hmem : UInt32.ofNat (k / q) ∈ down := by
      rw [hdown.mem_iff, mem_partnums, hnum]
      exact hkn
    refine ⟨_, List.mem_map_of_mem hmem, ?_⟩
    have hdiv := Nat.div_add_mod k q
    have hmod := Nat.mod_lt k hqpos
    rw [Window.Reaches, htake _ hmem, hlen _ hmem, hnum]
    omega

/-- **Lost byte.** A file whose size does not survive comes back, if at all, with a zero for its
last byte. -/
theorem transfer_of_not_lossless (hs : ¬ Lossless file.size)
    (hup : up.Perm (partnums (numberOfParts storageSizes file.size)))
    (hdown : down.Perm (partnums (numberOfParts storageSizes file.size))) {out : Bytes}
    (h : transfer hashBufferHex fid file loc initial up down = some out) :
    out[file.data.length - 1]? = some 0 := by
  obtain ⟨st, hst, -⟩ := Option.bind_eq_some_iff.mp h
  obtain ⟨buffer, hbuffer, heq⟩ := transfer_eq_writeAll hup hdown hst
  have hend (i : PartnumType) (hi : i ∈ down) :=
    part_end_lt hs (mem_partnums.mp (hdown.mem_iff.mp hi)) (hbuffer i hi)
  have hpos : 0 < file.data.length := by
    have hmem : (0 : PartnumType) ∈ down := by
      rw [hdown.mem_iff, mem_partnums]
      exact (tableRow file.size).pos
    have := hend 0 hmem
    omega
  have hcopy (i : PartnumType) (hi : i ∈ down) :=
    copyOf_part (mem_partnums.mp (hdown.mem_iff.mp hi)) (hbuffer i hi)
      ((buffer i).length % 2 ^ 32)
  rw [heq] at h
  rw [Window.getElem?_of_writeAll h (List.forall_mem_map.mpr hcopy), if_neg, createEmptyFile,
    file.toNat_size, List.getElem?_replicate, if_pos (by omega)]
  simp only [List.mem_map, not_exists, not_and, forall_exists_index, and_imp,
    forall_apply_eq_imp_iff₂]
  intro i hi hreach
  have := hend i hi
  simp only [Window.Reaches, List.length_take] at hreach
  omega

theorem transfer_ne_of_not_lossless (hs : ¬ Lossless file.size)
    (hlast : file.data.getLast? ≠ some 0)
    (hup : up.Perm (partnums (numberOfParts storageSizes file.size)))
    (hdown : down.Perm (partnums (numberOfParts storageSizes file.size))) :
    transfer hashBufferHex fid file loc initial up down ≠ some file.data := by
  intro h
  apply hlast
  rw [List.getLast?_eq_getElem?]
  exact transfer_of_not_lossless hs hup hdown h

end Whole

def filledFile (s : FsizeType) : File where
  data := List.replicate s.toNat 1
  size_lt := by
    rw [List.length_replicate]
    exact s.toNat_lt

theorem size_filledFile (s : FsizeType) : (filledFile s).size = s := by
  rw [File.size, filledFile, List.length_replicate, UInt64.ofNat_toNat]

theorem getLast?_filledFile (s : FsizeType) : (filledFile s).data.getLast? ≠ some 0 := by
  rw [filledFile, List.getLast?_replicate]
  split_ifs <;> simp

theorem not_roundTrips_of_not_lossless {hashBufferHex : Bytes → Sha1Type} {s : FsizeType}
    (hs : ¬ Lossless s) : ¬ RoundTrips hashBufferHex s := by
  intro hround
  have hback := hround (filledFile s) (size_filledFile s) 0 (fun _ => 0) (fun _ _ => none) _ _
    (.refl _) (.refl _)
  rw [← size_filledFile s] at hs
  exact transfer_ne_of_not_lossless hs (getLast?_filledFile s) (by rw [size_filledFile])
    (by rw [size_filledFile]) hback

/-- **Upload then download.** The files of a size all come back as they were exactly when the size
survives the float division of `get_part_size`; otherwise no file with a nonzero last byte does,
whatever the storages and the orders. -/
theorem roundTrips_iff (hashBufferHex : Bytes → Sha1Type) (s : FsizeType) :
    (RoundTrips hashBufferHex s ↔ Lossless s) ∧
      (¬ Lossless s → ∀ (file : File), file.size = s → file.data.getLast? ≠ some 0 →
        ∀ (fid : FidType) (loc : PartnumType → StidType) (initial : StoredParts)
          (up down : List PartnumType),
          up.Perm (partnums (numberOfParts storageSizes s)) →
          down.Perm (partnums (numberOfParts storageSizes s)) →
            transfer hashBufferHex fid file loc initial up down ≠ some file.data) := by
  refine ⟨⟨fun hround => ?_, ?_⟩, ?_⟩
  · by_contra hs
    exact not_roundTrips_of_not_lossless hs hround
  · rintro hs file rfl fid loc initial up down hup hdown
    exact transfer_of_lossless hs hup hdown
  · rintro hs file rfl hlast fid loc initial up down hup hdown
    exact transfer_ne_of_not_lossless hs hlast hup hdown

/-- `2²¹ + 1` bytes make two parts, and the byte left over is in neither. -/
theorem not_roundTrips_odd : ¬ ∀ (hashBufferHex : Bytes → Sha1Type) (s : FsizeType),
    RoundTrips hashBufferHex s := by
  intro h
  have hs : ¬ Lossless 2097153 := by
    rintro ⟨-, hdvd, -⟩
    revert hdvd
    decide
  exact not_roundTrips_of_not_lossless hs (h (fun _ => List.Vector.replicate 20 0) 2097153)

end Mp2p
