import Mp2p.Proof.Acknowledgements
import Mp2p.Proof.Answers
import Mp2p.Proof.Names

/-!
# What a download serves

A download is answered from whatever parts the record of the file has, and every part of a record has
a location. Nothing compares them with the parts the file is to have, so an incomplete file is served
like a complete one.
-/

namespace Mp2p.Master

open Masks Network DB DB.Tools

/-! ### Locations -/

def Locates (env : Env) (storages : List StorageItem) (stid : StidType) (addr : Addr) : Prop :=
  ∃ st ∈ storages, st.id = stid ∧ st.addrGet env = some addr

/-- Every part of the file has a location that is registered and resolves. -/
def Complete (env : Env) (storages : List StorageItem) (fi : FileItem) : Prop :=
  ∀ num < (Master.numberOfParts Master.storageSizes fi.fileSize).toNat,
    ∃ part ∈ fi.parts, part.numGet.toNat = num ∧
      ∃ stid ∈ part.locations, ∃ addr, Locates env storages stid addr

/-- The fields list every part of the file once, each with the address of a storage in the locations
of that part, and none with port 0. -/
structure Lists (env : Env) (storages : List StorageItem) (fi : FileItem)
    (fields : List StpField) : Prop where
  nums : (fields.map fun field => field.nb.toNat).Perm
    (List.range (Master.numberOfParts Master.storageSizes fi.fileSize).toNat)
  located : ∀ field ∈ fields, ∃ part ∈ fi.parts, part.numGet = field.nb ∧
    ∃ stid ∈ part.locations, Locates env storages stid field.addr
  ports : ∀ field ∈ fields, field.addr.port ≠ 0

/-- A complete file is answered with such fields, any other with an error. -/
structure ServesComplete (r : Request) (w : World Record) (storages : List StorageItem)
    (fi : FileItem) :
    Prop where
  pieces : Complete r.env storages fi → ∃ fields,
    downloadFields r.env storages fi.parts = some fields ∧
    ((cmDownReq r).run exec w).2.sent = w.sent ++ [downPiecesLocPacket fi.fileSize fi.id fields] ∧
    Lists r.env storages fi fields
  error : ¬Complete r.env storages fi →
    ((cmDownReq r).run exec w).2.sent = w.sent ++ [ackPacket MC.fromto .incompleteFile]

section Locations

variable {env : Env} {storages : List StorageItem} {stid : StidType} {addr : Addr}

theorem locates_of_storageAddr (h : storageAddr env storages stid = some addr) :
    Locates env storages stid addr := by
  obtain ⟨st, hst, haddr⟩ := List.exists_of_findSome?_eq_some h
  split_ifs at haddr with hid
  exact ⟨st, hst, hid, haddr⟩

theorem port_partAddr_iff (stid : StidType) (ipv6 : Ipv6Type) :
    (partAddr env storages [stid] ⟨ipv6, 0⟩).port ≠ 0 ↔
      ∃ addr, storageAddr env storages stid = some addr ∧ addr.port ≠ 0 := by
  rw [partAddr]
  cases hfound : storageAddr env storages stid with
  | none =>
      rw [Option.getD_none, if_neg (not_not_intro rfl)]
      exact iff_of_false (not_not_intro rfl) nofun
  | some addr =>
      rw [Option.getD_some]
      split_ifs with hport
      · exact iff_of_true hport ⟨addr, rfl, hport⟩
      · refine iff_of_false hport ?_
        rintro ⟨addr', heq, hport'⟩
        cases heq
        exact hport hport'

theorem partAddr_of_storageAddr (h : storageAddr env storages stid = some addr) (first : Addr) :
    partAddr env storages [stid] first = addr := by
  rw [partAddr, h, Option.getD_some]
  split_ifs
  · rfl
  · rfl

theorem downloadFields_of_locations (env : Env) (storages : List StorageItem)
    {parts : List PartItem} (h : ∀ part ∈ parts, part.locations ≠ []) :
    downloadFields env storages parts = some (parts.map fun part =>
      ⟨partAddr env storages part.locations ⟨env.uninitialized, 0⟩, part.numGet⟩) := by
  rw [downloadFields]
  induction parts with
  | nil => rfl
  | cons part rest ih =>
      rw [List.forall_mem_cons] at h
      rw [List.mapM_cons, if_neg (by simpa using h.1), ih h.2]
      rfl

end Locations

theorem locations_ne_nil (parts : List PartItem) (h : ∀ part ∈ parts, part.locations ≠ [])
    (acks : List SM.PartAck) : ∀ part ∈ partsAfter parts acks, part.locations ≠ [] := by
  induction acks generalizing parts with
  | nil => exact h
  | cons ack rest ih =>
      rw [partsAfter, List.foldl_cons, ← partsAfter]
      apply ih
      rw [ackParts_fst]
      intro part hpart
      obtain hold | hnew := List.mem_append.mp hpart
      · obtain ⟨before, hbefore, rfl⟩ := List.mem_map.mp hold
        rw [addAck]
        split_ifs
        · exact List.append_ne_nil_of_right_ne_nil _ (List.cons_ne_nil _ _)
        · exact h before hbefore
      · rw [List.mem_singleton.mp hnew]
        exact List.cons_ne_nil _ _

section Serves

variable {r : Request} {w : World Record} {storages : List StorageItem} {fi : FileItem}
  {fname : Bytes}
  {acks : List SM.PartAck}

theorem sent_cmDownReq (hcarries : Carries r fname)
    (hfile : w.database.lookup (fileKey fname) = some (.file fi))
    (hstorages : allStorages w.database = some storages) {fields : List StpField}
    (hfields : downloadFields r.env storages fi.parts = some fields) :
    ((cmDownReq r).run exec w).2.sent =
      w.sent ++ [downPiecesLocPacket fi.fileSize fi.id fields] := by
  rw [run_cmDownReq, hcarries.fname_eq]
  dsimp only
  rw [hfile]
  dsimp only [Record.file?_file]
  rw [hstorages]
  dsimp only
  rw [hfields]
  rfl

theorem pieces_ne_incomplete {fields : List StpField} :
    downPiecesLocPacket fi.fileSize fi.id fields ≠ ackPacket MC.fromto .incompleteFile := by
  intro hsame
  have hwhat : MC.downPiecesLocW = ackW := congrArg Packet.whatGet hsame
  exact absurd hwhat (by decide)

/-- The acknowledgements are one for each part, each from a storage at an address with a port. -/
structure AckedOnce (env : Env) (storages : List StorageItem) (fi : FileItem)
    (acks : List SM.PartAck) : Prop where
  nums : (acks.map fun ack => ack.partid.partnum.toNat).Perm
    (List.range (Master.numberOfParts Master.storageSizes fi.fileSize).toNat)
  located : ∀ ack ∈ acks, ∃ addr, storageAddr env storages ack.stid = some addr ∧ addr.port ≠ 0

theorem parts_of_nums (hparts : fi.parts = partsAfter [] acks)
    (hnums : (acks.map fun ack => ack.partid.partnum.toNat).Perm
      (List.range (Master.numberOfParts Master.storageSizes fi.fileSize).toNat)) :
    fi.parts = acks.map ackItem := by
  have hnodup : (acks.map fun ack => ack.partid.partnum).Nodup := by
    have htoNat := hnums.nodup_iff.mpr List.nodup_range
    rw [← Function.comp_def UInt32.toNat, ← List.map_map] at htoNat
    exact htoNat.of_map _
  rw [hparts]
  exact partsAfter_of_nodup hnodup

theorem downloadFields_acks (env : Env) (storages : List StorageItem)
    (hparts : fi.parts = acks.map ackItem) :
    downloadFields env storages fi.parts = some (acks.map fun ack =>
      ⟨partAddr env storages [ack.stid] ⟨env.uninitialized, 0⟩, ack.partid.partnum⟩) := by
  rw [downloadFields_of_locations, hparts, List.map_map]
  · rfl
  · intro part hpart
    rw [hparts] at hpart
    obtain ⟨ack, -, rfl⟩ := List.mem_map.mp hpart
    exact List.cons_ne_nil _ _

theorem servesComplete_of_ackedOnce (hcarries : Carries r fname)
    (hfile : w.database.lookup (fileKey fname) = some (.file fi))
    (hstorages : allStorages w.database = some storages) (hparts : fi.parts = partsAfter [] acks)
    (h : AckedOnce r.env storages fi acks) : ServesComplete r w storages fi := by
  have hitems := parts_of_nums hparts h.nums
  have hfields := downloadFields_acks r.env storages hitems
  have hitem : ∀ ack ∈ acks, ackItem ack ∈ fi.parts := by
    intro ack hack
    rw [hitems]
    exact List.mem_map_of_mem hack
  have hlists : Lists r.env storages fi (acks.map fun ack =>
      ⟨partAddr r.env storages [ack.stid] ⟨r.env.uninitialized, 0⟩, ack.partid.partnum⟩) := by
    refine ⟨?_, ?_, ?_⟩
    · rw [List.map_map]
      exact h.nums
    · intro field hfield
      obtain ⟨ack, hack, rfl⟩ := List.mem_map.mp hfield
      obtain ⟨addr, haddr, -⟩ := h.located ack hack
      rw [partAddr_of_storageAddr haddr]
      exact ⟨_, hitem ack hack, rfl, ack.stid, List.mem_cons_self, locates_of_storageAddr haddr⟩
    · intro field hfield
      obtain ⟨ack, hack, rfl⟩ := List.mem_map.mp hfield
      exact (port_partAddr_iff _ _).mpr (h.located ack hack)
  have hcomplete : Complete r.env storages fi := by
    intro num hnum
    have hmem := h.nums.mem_iff.mpr (List.mem_range.mpr hnum)
    obtain ⟨ack, hack, heq⟩ := List.mem_map.mp hmem
    obtain ⟨addr, haddr, -⟩ := h.located ack hack
    exact ⟨_, hitem ack hack, heq, ack.stid, List.mem_cons_self, addr, locates_of_storageAddr haddr⟩
  exact ⟨fun _ => ⟨_, hfields, sent_cmDownReq hcarries hfile hstorages hfields, hlists⟩,
    fun hincomplete => absurd hcomplete hincomplete⟩

theorem ackedOnce_of_servesComplete (hcarries : Carries r fname)
    (hfile : w.database.lookup (fileKey fname) = some (.file fi))
    (hstorages : allStorages w.database = some storages) (hparts : fi.parts = partsAfter [] acks)
    (h : ServesComplete r w storages fi) : AckedOnce r.env storages fi acks := by
  by_cases hcomplete : Complete r.env storages fi
  · obtain ⟨fields, hfields, -, hlists⟩ := h.pieces hcomplete
    have hanswer := downloadFields_of_locations r.env storages (locations_ne_nil [] nofun acks)
    rw [← hparts, hfields, Option.some_inj] at hanswer
    subst hanswer
    have hnums : (acks.map fun ack => ack.partid.partnum.toNat).Perm
        (List.range (Master.numberOfParts Master.storageSizes fi.fileSize).toNat) := by
      have hparts' : fi.parts.map PartItem.numGet = acks.map fun ack => ack.partid.partnum := by
        rw [hparts, nums_partsAfter, List.map_nil, List.nil_append]
      have hlisted := hlists.nums
      rw [List.map_map] at hlisted
      have hsame : (acks.map fun ack => ack.partid.partnum.toNat) =
          (fi.parts.map PartItem.numGet).map UInt32.toNat := by
        rw [hparts', List.map_map]
        rfl
      rw [hsame, List.map_map]
      exact hlisted
    refine ⟨hnums, fun ack hack => ?_⟩
    have hmem : ackItem ack ∈ fi.parts := by
      rw [parts_of_nums hparts hnums]
      exact List.mem_map_of_mem hack
    exact (port_partAddr_iff _ _).mp (hlists.ports _ (List.mem_map_of_mem hmem))
  · have hanswer := downloadFields_of_locations r.env storages (locations_ne_nil [] nofun acks)
    rw [← hparts] at hanswer
    have hsent := sent_cmDownReq hcarries hfile hstorages hanswer
    rw [h.error hcomplete] at hsent
    have hpacket := List.append_cancel_left hsent
    rw [List.cons.injEq] at hpacket
    exact absurd hpacket.1.symm pieces_ne_incomplete

/-- **What is served rightly.** A file is served as it should be exactly when each of its parts was
acknowledged once, by a storage at an address with a port. -/
theorem servesComplete_iff (hcarries : Carries r fname)
    (hfile : w.database.lookup (fileKey fname) = some (.file fi))
    (hstorages : allStorages w.database = some storages) (hparts : fi.parts = partsAfter [] acks) :
    ServesComplete r w storages fi ↔
      (acks.map fun ack => ack.partid.partnum.toNat).Perm
          (List.range (Master.numberOfParts Master.storageSizes fi.fileSize).toNat) ∧
        ∀ ack ∈ acks, ∃ addr, storageAddr r.env storages ack.stid = some addr ∧ addr.port ≠ 0 := by
  constructor
  · intro h
    obtain ⟨hnums, hlocated⟩ := ackedOnce_of_servesComplete hcarries hfile hstorages hparts h
    exact ⟨hnums, hlocated⟩
  · rintro ⟨hnums, hlocated⟩
    exact servesComplete_of_ackedOnce hcarries hfile hstorages hparts ⟨hnums, hlocated⟩

def fileAfter (acks : List SM.PartAck) : FileItem :=
  ⟨0, [120], 3000000, 1, 0, blankHash, false, partsAfter [] acks⟩

def storedAfter (acks : List SM.PartAck) : World Record :=
  twoRegistered.put (fileKey [120]) (.file (fileAfter acks))

def ackOf (num : PartnumType) : SM.PartAck := ⟨0, ⟨0, num⟩, 0⟩

theorem carries_x : Carries (carrying [120]) [120] := carries_carrying (by decide)

theorem lookup_storedAfter (acks : List SM.PartAck) :
    (storedAfter acks).database.lookup (fileKey [120]) = some (.file (fileAfter acks)) :=
  AList.lookup_insert _

theorem servesComplete_two_acks :
    ServesComplete (carrying [120]) (storedAfter [ackOf 1, ackOf 0]) twoHuge
        (fileAfter [ackOf 1, ackOf 0]) ↔
      ([ackOf 1, ackOf 0].map fun ack => ack.partid.partnum.toNat).Perm
          (List.range (Master.numberOfParts Master.storageSizes 3000000).toNat) ∧
        ∀ ack ∈ [ackOf 1, ackOf 0], ∃ addr,
          storageAddr anyHost twoHuge ack.stid = some addr ∧ addr.port ≠ 0 :=
  servesComplete_iff carries_x (lookup_storedAfter _) rfl rfl

/-- One of the two parts is served as if it were the file. -/
theorem not_servesComplete_one_ack :
    ¬ServesComplete (carrying [120]) (storedAfter [ackOf 0]) twoHuge (fileAfter [ackOf 0]) := by
  intro h
  have hacked := ackedOnce_of_servesComplete carries_x (lookup_storedAfter _) rfl rfl h
  exact absurd hacked.nums.length_eq (by decide)

end Serves

end Mp2p.Master
