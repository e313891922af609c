import Mp2p.Proof.Messages
import Mp2p.Proof.Redundancy
import Mp2p.Proof.Statics

/-!
# The replication decision

A part is replicated until as many storages have acknowledged it as the file asks for. What is
counted is the item of the last acknowledgement alone, which has one storage, so a file that asks for
more than one never gets enough, and the storage that is asked next may have the part.
-/

namespace Mp2p.Master

open Masks Network DB DB.Tools

def ackers (acks : List SM.PartAck) (partnum : PartnumType) : Finset StidType :=
  ((acks.filter fun ack => ack.partid.partnum = partnum).map SM.PartAck.stid).toFinset

/-- A file that has this number in the database, none of whose parts has been acknowledged. -/
structure FileAdded (w : World Record) (fid : FidType) (fname : Bytes) (fi : FileItem) : Prop where
  named : ∃ mof, w.database.lookup filesKey = some (.files mof) ∧
    mof.nameById.lookup fid = some fname
  file : w.database.lookup (fileKey fname) = some (.file fi)
  parts : fi.parts = []

/-- The decision on an acknowledgement follows the redundancy of the file: success if enough storages
have the part, and if not a request to one that has not, as long as there is one. -/
structure FollowsTarget (w : World Record) (r : Request) (partid : PartId) (redundancy : RdcyType)
    (acked : Finset StidType) (storages : List StorageItem) : Prop where
  success : (handle w r).sent = w.sent ++ [ackPacket MS.fromto .success] ↔
    redundancy.toNat ≤ acked.card
  replication : acked.card < redundancy.toNat → (∃ st ∈ storages, st.id ∉ acked) →
    ∃ addr, (handle w r).sent = w.sent ++ [partLocPacket partid addr] ∧
      ∃ st ∈ storages, st.id ∉ acked ∧ st.addrGet r.env = some addr

def nextStorage (env : Env) (storages : List StorageItem) (stid : StidType) : Option StorageItem :=
  (env.shuffle storages).find? fun st => st.id ≠ stid

section Acks

variable {w : World Record} {r : Request} {req : SM.PartAck} {mof : MetaOnFilesItem} {fname : Bytes}
  {fi : FileItem} {fid : FidType} {requests : List Request} {storages : List StorageItem}
  {acks : List SM.PartAck} {partnum : PartnumType} {stid : StidType}

theorem mem_ackers :
    stid ∈ ackers acks partnum ↔ ∃ ack ∈ acks, ack.partid.partnum = partnum ∧ ack.stid = stid := by
  simp [ackers, and_assoc]

/-! ### The history -/

/-- What a sequence of acknowledgements of a file leaves in the database. -/
theorem acknowledges_acknowledgeAll (hfiles : w.database.lookup filesKey = some (.files mof))
    (hname : mof.nameById.lookup fid = some fname)
    (hfile : w.database.lookup (fileKey fname) = some (.file fi)) (habout : AboutFile fid requests)
    (hreq : readPartAck r.packet = some req) (hfid : req.partid.fid = fid) :
    Acknowledges (acknowledgeAll w requests) r req mof fname
        { fi with parts := partsAfter fi.parts (acksOf requests) } ∧
      allStorages (acknowledgeAll w requests).database = allStorages w.database := by
  obtain ⟨hrecord, hothers⟩ := lookup_acknowledgeAll hfiles hname hfile habout
  refine ⟨⟨hreq, ?_, hfid ▸ hname, hrecord⟩, allStorages_congr ?_ ?_⟩
  · rw [hothers _ fileKey_ne_filesKey.symm, hfiles]
  · exact hothers _ fileKey_ne_storagesKey.symm
  · intro id
    exact hothers _ fileKey_ne_storageKey.symm

/-! ### The decision -/

/-- The answer: a success if one storage is enough, and if not the address of the next one. -/
theorem sent_smPartAck (hack : Acknowledges w r req mof fname fi)
    (hstorages : allStorages w.database = some storages)
    (hfromto : r.packet.fromtoGet = SM.fromto) :
    ((smPartAck r).run exec w).2.sent = w.sent ++
      if fi.redundancy.toNat ≤ 1 then [ackPacket MS.fromto .success]
      else (((nextStorage r.env storages req.stid).bind (StorageItem.addrGet r.env)).map
        (partLocPacket req.partid)).toList := by
  have hfiles : (w.database.lookup filesKey).bind Coding.files? = some mof := by
    rw [hack.files]
    rfl
  have hfile : (w.database.lookup (fileKey fname)).bind Coding.file? = some fi := by
    rw [hack.file]
    rfl
  rw [run_smPartAck, hfiles]
  dsimp only
  rw [fid_of_readPartAck hack.request]
  dsimp only
  rw [hack.name]
  dsimp only
  rw [hfile]
  dsimp only
  rw [hack.request]
  dsimp only
  rw [getElem?_ackParts]
  dsimp only
  rw [run_afterAck]
  by_cases hone : fi.redundancy.toNat ≤ 1
  · have henough : (ackItem req).locations.length ≥ fi.redundancy.toNat := hone
    rw [if_pos henough, if_pos hone, run_sendAck, hfromto]
    rfl
  have henough : ¬(ackItem req).locations.length ≥ fi.redundancy.toNat := hone
  have hnext : ((r.env.shuffle storages).find? fun st => st.id ∉ (ackItem req).locations) =
      nextStorage r.env storages req.stid := by
    simp only [ackItem, List.mem_singleton, nextStorage]
  rw [if_neg henough, if_neg hone, run_replicate, allStorages_put, hstorages]
  dsimp only
  rw [hnext]
  cases nextStorage r.env storages req.stid with
  | none => exact (List.append_nil _).symm
  | some st =>
      dsimp only [Option.bind_some]
      cases st.addrGet r.env with
      | none => exact (List.append_nil _).symm
      | some addr => rfl

theorem partLocPacket_ne_ack (partid : PartId) (addr : Addr) :
    partLocPacket partid addr ≠ ackPacket MS.fromto .success := by
  intro heq
  have hwhat : (partLocPacket partid addr).whatGet = (ackPacket MS.fromto .success).whatGet := by
    rw [heq]
  have hcode : MS.partLocW = ackW := hwhat
  exact absurd hcode (by decide)

theorem partLocPacket_injective (partid : PartId) : Function.Injective (partLocPacket partid) := by
  intro addr addr' heq
  have hpayload (addr : Addr) : (partLocPacket partid addr).payload =
      Layout.image (MS.PartLoc.mk partid addr) := by
    rw [partLocPacket, payload_addValue _ _ _ (by decide)]
    rfl
  have himage : Layout.image (MS.PartLoc.mk partid addr) =
      Layout.image (MS.PartLoc.mk partid addr') := by
    rw [← hpayload, heq, hpayload]
  have hloc := Layout.image_injective himage
  cases hloc
  rfl

/-- **The replication decision.** On an acknowledgement of a part of a file, whatever was acknowledged
before and whatever the random order, the decision follows the redundancy exactly when one storage
is enough, or the storages are too few, and either there is no other one or the next one is not among
them. -/
theorem followsTarget_iff (hadded : FileAdded w fid fname fi) (habout : AboutFile fid requests)
    (hkind : kindOf r.packet = .partAck) (hreq : readPartAck r.packet = some req)
    (hfid : req.partid.fid = fid) (hstorages : allStorages w.database = some storages) :
    FollowsTarget (acknowledgeAll w requests) r req.partid fi.redundancy
        (ackers (acksOf requests ++ [req]) req.partid.partnum) storages ↔
      fi.redundancy.toNat ≤ 1 ∨
        (ackers (acksOf requests ++ [req]) req.partid.partnum).card < fi.redundancy.toNat ∧
          ((∀ st ∈ storages, st.id ∈ ackers (acksOf requests ++ [req]) req.partid.partnum) ∨
            ∃ st addr, nextStorage r.env storages req.stid = some st ∧
              st.addrGet r.env = some addr ∧ ∃ st' ∈ storages,
                st'.id ∉ ackers (acksOf requests ++ [req]) req.partid.partnum ∧
                  st'.addrGet r.env = some addr) := by
  obtain ⟨mof, hfiles, hname⟩ := hadded.named
  obtain ⟨hack, hkept⟩ := acknowledges_acknowledgeAll hfiles hname hadded.file habout hreq hfid
  have hsent := sent_smPartAck hack (hkept.trans hstorages) (fromto_of_partAck hkind)
  have hhandle : handle (acknowledgeAll w requests) r =
      ((smPartAck r).run exec (acknowledgeAll w requests)).2 := by
    rw [handle, recvDispatcher_eq, hkind, handlerOf]
  rw [← hhandle] at hsent
  set acked := ackers (acksOf requests ++ [req]) req.partid.partnum with hacked
  have hself : req.stid ∈ acked :=
    mem_ackers.mpr ⟨req, List.mem_append_right _ (List.mem_singleton_self req), rfl, rfl⟩
  have hpos : 0 < acked.card := Finset.card_pos.mpr ⟨_, hself⟩
  dsimp only at hsent
  by_cases hone : fi.redundancy.toNat ≤ 1
  · rw [if_pos hone] at hsent
    refine iff_of_true ⟨iff_of_true hsent (hone.trans hpos), ?_⟩ (.inl hone)
    intro hfew
    omega
  rw [if_neg hone] at hsent
  have hnot : (handle (acknowledgeAll w requests) r).sent ≠
      (acknowledgeAll w requests).sent ++ [ackPacket MS.fromto .success] := by
    rw [hsent]
    intro heq
    have hlast := List.append_cancel_left heq
    cases haddr : (nextStorage r.env storages req.stid).bind (StorageItem.addrGet r.env) with
    | none =>
        rw [haddr] at hlast
        cases hlast
    | some addr =>
        rw [haddr] at hlast
        exact partLocPacket_ne_ack _ _ (List.head_eq_of_cons_eq hlast)
  rw [or_iff_right hone]
  constructor
  · intro h
    have hfew : acked.card < fi.redundancy.toNat := by
      by_contra hmany
      exact hnot (h.success.mpr (Nat.le_of_not_lt hmany))
    refine ⟨hfew, ?_⟩
    by_cases hall : ∀ st ∈ storages, st.id ∈ acked
    · exact .inl hall
    right
    push Not at hall
    obtain ⟨addr, haddr, hother⟩ := h.replication hfew hall
    rw [hsent] at haddr
    have hlast := List.append_cancel_left haddr
    rw [Option.toList_eq_singleton_iff, Option.map_eq_some_iff] at hlast
    obtain ⟨addr', hbind, hpacket⟩ := hlast
    obtain ⟨st, hnext, hst⟩ := Option.bind_eq_some_iff.mp hbind
    rw [partLocPacket_injective req.partid hpacket] at hst
    exact ⟨st, addr, hnext, hst, hother⟩
  · rintro ⟨hfew, hcases⟩
    refine ⟨iff_of_false hnot (Nat.not_le_of_lt hfew), ?_⟩
    intro _ hsome
    obtain hall | ⟨st, addr, hnext, haddr, hother⟩ := hcases
    · obtain ⟨st, hst, hnotAcked⟩ := hsome
      exact absurd (hall st hst) hnotAcked
    · refine ⟨addr, ?_, hother⟩
      rw [hsent, hnext, Option.bind_some, haddr]
      rfl

end Acks

/-! ### A file of two copies -/

def twoCopies : FileItem := ⟨0, ascii "a", 5, 2, 0, blankHash, false, []⟩

def copiedTwice : World Record where
  database := (twoRegistered.database.insert filesKey
    (.files ⟨1, 5, AList.insert 0 (ascii "a") ∅⟩)).insert (fileKey (ascii "a")) (.file twoCopies)
  statics := ⟨false, 0, []⟩
  sent := []

theorem fileAdded_copiedTwice : FileAdded copiedTwice 0 (ascii "a") twoCopies where
  named := ⟨_, rfl, rfl⟩
  file := rfl
  parts := rfl

def copyAck (num : PartnumType) (stid : StidType) : Request :=
  { ackRequest num stid with env := anyHost }

/-- When the other storage has another part, it is asked for this one. -/
theorem followsTarget_other_part :
    FollowsTarget (acknowledgeAll copiedTwice [copyAck 1 1]) (copyAck 0 0) ⟨0, 0⟩
      twoCopies.redundancy (ackers (acksOf [copyAck 1 1] ++ [⟨0, ⟨0, 0⟩, 10⟩]) 0) twoHuge := by
  have habout : AboutFile 0 [copyAck 1 1] := by
    intro r hr
    rw [List.mem_singleton.mp hr]
    exact ⟨_, rfl, rfl⟩
  apply (@followsTarget_iff copiedTwice (copyAck 0 0) ⟨0, ⟨0, 0⟩, 10⟩ (ascii "a") twoCopies 0
    [copyAck 1 1] twoHuge fileAdded_copiedTwice habout rfl rfl rfl rfl).mpr
  right
  refine ⟨by decide, .inr ⟨hugeStorage 1 4243, _, rfl, rfl, hugeStorage 1 4243, ?_, ?_, rfl⟩⟩
  · exact .tail _ (.head _)
  · decide

/-- After the second one both have it, and the first is asked again. -/
theorem not_followsTarget_second_ack :
    ¬∀ (w : World Record) (fid : FidType) (fname : Bytes) (fi : FileItem) (requests : List Request)
      (r : Request) (req : SM.PartAck) (storages : List StorageItem), FileAdded w fid fname fi →
      AboutFile fid requests → kindOf r.packet = .partAck → readPartAck r.packet = some req →
      req.partid.fid = fid → allStorages w.database = some storages →
      FollowsTarget (acknowledgeAll w requests) r req.partid fi.redundancy
        (ackers (acksOf requests ++ [req]) req.partid.partnum) storages := by
  intro h
  have habout : AboutFile 0 [copyAck 0 0] := by
    intro r hr
    rw [List.mem_singleton.mp hr]
    exact ⟨_, rfl, rfl⟩
  have hfollows := h copiedTwice 0 _ twoCopies [copyAck 0 0] (copyAck 0 1) ⟨1, ⟨0, 0⟩, 10⟩ twoHuge
    fileAdded_copiedTwice habout rfl rfl rfl rfl
  obtain hone | ⟨hfew, -⟩ := (followsTarget_iff fileAdded_copiedTwice habout rfl rfl rfl rfl).mp
    hfollows
  · exact absurd hone (by decide)
  · exact absurd hfew (by decide)

end Mp2p.Master
