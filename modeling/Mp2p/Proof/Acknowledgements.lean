import Mp2p.Proof.Metadata

/-!
# Acknowledgements of one file

The search of `sm_part_ack` runs to the end of the parts whether or not it finds one, and what
follows takes the end for a failure, so every acknowledgement adds an item. The parts are a map from
part numbers to storages as long as no part is acknowledged twice, and never after.
-/

namespace Mp2p.Master

open Masks Network DB DB.Tools

def acknowledgeAll (w : World Record) (requests : List Request) : World Record :=
  requests.foldl (fun w r => ((smPartAck r).run exec w).2) w

def acksOf (requests : List Request) : List SM.PartAck :=
  requests.filterMap fun r => readPartAck r.packet

def partsOf {V : Type} [Coding V] (db : Database V) (fname : Bytes) : List PartItem :=
  ((db.lookup (fileKey fname)).bind Coding.file?).elim [] FileItem.parts

/-- One item for every part that was acknowledged, with the storages that acknowledged it. -/
structure RecordsMap (acks : List SM.PartAck) (parts : List PartItem) : Prop where
  nodup : (parts.map PartItem.numGet).Nodup
  nums : ∀ n, n ∈ parts.map PartItem.numGet ↔ ∃ ack ∈ acks, ack.partid.partnum = n
  locations_nodup : ∀ part ∈ parts, part.locations.Nodup
  locations : ∀ part ∈ parts, ∀ stid, stid ∈ part.locations ↔
    ∃ ack ∈ acks, ack.partid.partnum = part.numGet ∧ ack.stid = stid

/-! ### The parts alone -/

section Parts

variable {acks : List SM.PartAck} {parts : List PartItem}

def ackItem (ack : SM.PartAck) : PartItem := ⟨ack.partid, blankHash, [ack.stid]⟩

def addAck (ack : SM.PartAck) (part : PartItem) : PartItem :=
  if part.numGet = ack.partid.partnum then part.addStid ack.stid else part

def partsAfter (parts : List PartItem) (acks : List SM.PartAck) : List PartItem :=
  acks.foldl (fun parts ack => (ackParts ack parts).1) parts

theorem searchPart_eq (ack : SM.PartAck) (parts : List PartItem) (it : ℕ) :
    searchPart ack.partid.partnum ack.stid parts it =
      (parts.map (addAck ack), it + parts.length) := by
  induction parts generalizing it with
  | nil => rfl
  | cons part rest ih =>
      rw [searchPart, ih, List.map_cons, List.length_cons, addAck, Nat.add_assoc,
        Nat.add_comm 1]

/-- The search always ends at the end, and the end always means a new item. -/
theorem ackParts_fst (ack : SM.PartAck) (parts : List PartItem) :
    (ackParts ack parts).1 = parts.map (addAck ack) ++ [ackItem ack] := by
  rw [ackParts, searchPart_eq]
  simp [ackItem]

theorem numGet_addAck (ack : SM.PartAck) (part : PartItem) :
    (addAck ack part).numGet = part.numGet := by
  rw [addAck]
  split <;> rfl

theorem nums_partsAfter : (partsAfter parts acks).map PartItem.numGet =
    parts.map PartItem.numGet ++ acks.map fun ack => ack.partid.partnum := by
  induction acks generalizing parts with
  | nil => simp [partsAfter]
  | cons ack rest ih =>
      have hadd : PartItem.numGet ∘ addAck ack = PartItem.numGet :=
        funext fun part => numGet_addAck ack part
      rw [partsAfter, List.foldl_cons, ← partsAfter, ih, ackParts_fst, List.map_append,
        List.map_map, hadd, List.map_cons, List.append_assoc]
      rfl

/-- Without a second acknowledgement of a part the items stay as they are. -/
theorem partsAfter_of_nodup
    (h : (parts.map PartItem.numGet ++ acks.map fun ack => ack.partid.partnum).Nodup) :
    partsAfter parts acks = parts ++ acks.map ackItem := by
  induction acks generalizing parts with
  | nil => simp [partsAfter]
  | cons ack rest ih =>
      have hnew : ack.partid.partnum ∉ parts.map PartItem.numGet := fun hmem =>
        List.disjoint_of_nodup_append h hmem List.mem_cons_self
      have hsame : parts.map (addAck ack) = parts := by
        conv_rhs => rw [← List.map_id parts]
        refine List.map_congr_left fun part hpart => ?_
        rw [addAck, if_neg, id_eq]
        intro heq
        exact hnew (heq ▸ List.mem_map_of_mem hpart)
      rw [partsAfter, List.foldl_cons, ← partsAfter, ackParts_fst, hsame, ih, List.map_cons,
        List.append_assoc, List.singleton_append]
      rw [List.map_append, List.append_assoc]
      exact h

theorem RecordsMap.congr {acks' : List SM.PartAck} (h : RecordsMap acks parts)
    (hmem : ∀ ack, ack ∈ acks' ↔ ack ∈ acks) : RecordsMap acks' parts := by
  refine ⟨h.nodup, ?_, h.locations_nodup, ?_⟩
  · intro n
    simp only [hmem, h.nums]
  · intro part hpart stid
    simp only [hmem, h.locations part hpart]

theorem RecordsMap.append {earlier : List SM.PartAck} (h : RecordsMap earlier parts)
    (hnodup : (parts.map PartItem.numGet ++ acks.map fun ack => ack.partid.partnum).Nodup) :
    RecordsMap (earlier ++ acks) (parts ++ acks.map ackItem) := by
  have hnum (ack : SM.PartAck) : (ackItem ack).numGet = ack.partid.partnum := rfl
  have hdisjoint := List.disjoint_of_nodup_append hnodup
  refine ⟨?_, ?_, ?_, ?_⟩
  · rwa [List.map_append, List.map_map]
  · intro n
    simp only [List.map_append, List.mem_append, h.nums, List.map_map, List.mem_map,
      Function.comp_apply, hnum, or_and_right, exists_or]
  · intro part hpart
    rcases List.mem_append.mp hpart with hold | hnew
    · exact h.locations_nodup part hold
    · obtain ⟨ack, -, rfl⟩ := List.mem_map.mp hnew
      exact List.nodup_singleton _
  · intro part hpart stid
    rcases List.mem_append.mp hpart with hold | hnew
    · rw [h.locations part hold]
      constructor
      · rintro ⟨ack, hack, heq⟩
        exact ⟨ack, List.mem_append_left _ hack, heq⟩
      · rintro ⟨ack, hack, hpartnum, hstid⟩
        rcases List.mem_append.mp hack with hack | hack
        · exact ⟨ack, hack, hpartnum, hstid⟩
        · refine absurd (List.mem_map_of_mem hold) fun hmem => hdisjoint hmem ?_
          exact hpartnum ▸ List.mem_map_of_mem hack
    · obtain ⟨ack, hack, rfl⟩ := List.mem_map.mp hnew
      constructor
      · intro hmem
        exact ⟨ack, List.mem_append_right _ hack, rfl, (List.mem_singleton.mp hmem).symm⟩
      · rintro ⟨ack', hack', hpartnum, hstid⟩
        rcases List.mem_append.mp hack' with hold | hnew'
        · exact absurd (List.mem_map_of_mem hack) fun hmem =>
            hdisjoint ((h.nums _).mpr ⟨ack', hold, hpartnum⟩) hmem
        · have heq : ack' = ack :=
            List.inj_on_of_nodup_map hnodup.of_append_right hnew' hack hpartnum
          rw [← hstid, heq]
          exact List.mem_singleton_self _

end Parts

/-! ### Whole sequences -/

section Run

variable {w : World Record} {mof : MetaOnFilesItem} {fi : FileItem} {fname : Bytes} {fid : FidType}
  {requests : List Request}

def AboutFile (fid : FidType) (requests : List Request) : Prop :=
  ∀ r ∈ requests, ∃ req, readPartAck r.packet = some req ∧ req.partid.fid = fid

theorem partsOf_eq (h : w.database.lookup (fileKey fname) = some (.file fi)) :
    partsOf w.database fname = fi.parts := by
  rw [partsOf, h]
  rfl

theorem acksOf_cons {r : Request} {req : SM.PartAck} (h : readPartAck r.packet = some req) :
    acksOf (r :: requests) = req :: acksOf requests := by
  rw [acksOf, List.filterMap_cons, h]
  rfl

/-- What a sequence of acknowledgements of a file leaves in the database: the record of the file, with
its parts, and everything else as it was. -/
theorem lookup_acknowledgeAll (hfiles : w.database.lookup filesKey = some (.files mof))
    (hname : mof.nameById.lookup fid = some fname)
    (hfile : w.database.lookup (fileKey fname) = some (.file fi))
    (habout : AboutFile fid requests) :
    (acknowledgeAll w requests).database.lookup (fileKey fname) =
        some (.file { fi with parts := partsAfter fi.parts (acksOf requests) }) ∧
      ∀ key, key ≠ fileKey fname →
        (acknowledgeAll w requests).database.lookup key = w.database.lookup key := by
  induction requests generalizing w fi with
  | nil => exact ⟨hfile, fun _ _ => rfl⟩
  | cons r rest ih =>
      obtain ⟨req, hreq, hfid⟩ := habout r List.mem_cons_self
      have hack : Acknowledges w r req mof fname fi := ⟨hreq, hfiles, hfid ▸ hname, hfile⟩
      have hview : ((smPartAck r).run exec w).2.database = (putAck w req fname fi).database :=
        congrArg Prod.fst (view_smPartAck hack)
      have hkept (key : Bytes) (hkey : key ≠ fileKey fname) :
          ((smPartAck r).run exec w).2.database.lookup key = w.database.lookup key := by
        rw [hview]
        exact AList.lookup_insert_ne hkey
      have hput : ((smPartAck r).run exec w).2.database.lookup (fileKey fname) =
          some (.file { fi with parts := (ackParts req fi.parts).1 }) := by
        rw [hview]
        exact AList.lookup_insert _
      obtain ⟨hrecord, hothers⟩ := ih ((hkept _ fileKey_ne_filesKey.symm).trans hfiles) hput
        (fun r hr => habout r (List.mem_cons_of_mem _ hr))
      rw [acknowledgeAll, List.foldl_cons, ← acknowledgeAll, acksOf_cons hreq]
      exact ⟨hrecord, fun key hkey => (hothers key hkey).trans (hkept key hkey)⟩

theorem partsOf_acknowledgeAll (hfiles : w.database.lookup filesKey = some (.files mof))
    (hname : mof.nameById.lookup fid = some fname)
    (hfile : w.database.lookup (fileKey fname) = some (.file fi))
    (habout : AboutFile fid requests) :
    partsOf (acknowledgeAll w requests).database fname = partsAfter fi.parts (acksOf requests) :=
  partsOf_eq (lookup_acknowledgeAll hfiles hname hfile habout).1

theorem nodup_of_recordsMap {earlier : List SM.PartAck}
    (hfiles : w.database.lookup filesKey = some (.files mof))
    (hname : mof.nameById.lookup fid = some fname)
    (hfile : w.database.lookup (fileKey fname) = some (.file fi)) (habout : AboutFile fid requests)
    (h : RecordsMap earlier (partsOf (acknowledgeAll w requests).database fname)) :
    (fi.parts.map PartItem.numGet ++
      (acksOf requests).map fun ack => ack.partid.partnum).Nodup := by
  rw [← nums_partsAfter, ← partsOf_acknowledgeAll hfiles hname hfile habout]
  exact h.nodup

/-- **A map of parts.** Handled in every order, acknowledgements of a file leave a map from part
numbers to storages in its record exactly when none of them is of a part that another of them, or
one before, is of. -/
theorem recordsMap_iff {earlier : List SM.PartAck}
    (hfiles : w.database.lookup filesKey = some (.files mof))
    (hname : mof.nameById.lookup fid = some fname)
    (hfile : w.database.lookup (fileKey fname) = some (.file fi)) (habout : AboutFile fid requests)
    (hmap : RecordsMap earlier fi.parts) :
    (∀ requests' : List Request, requests'.Perm requests →
      RecordsMap (earlier ++ acksOf requests)
        (partsOf (acknowledgeAll w requests').database fname)) ↔
    (fi.parts.map PartItem.numGet ++
      (acksOf requests).map fun ack => ack.partid.partnum).Nodup := by
  constructor
  · intro h
    exact nodup_of_recordsMap hfiles hname hfile habout (h requests (.refl _))
  · intro hnodup requests' hperm
    have hacks : (acksOf requests').Perm (acksOf requests) := hperm.filterMap _
    have hnodup' : (fi.parts.map PartItem.numGet ++
        (acksOf requests').map fun ack => ack.partid.partnum).Nodup :=
      ((hacks.map _).append_left _).nodup_iff.mpr hnodup
    rw [partsOf_acknowledgeAll hfiles hname hfile
      (fun r hr => habout r (hperm.mem_iff.mp hr)), partsAfter_of_nodup hnodup']
    refine (hmap.append hnodup').congr fun ack => ?_
    rw [List.mem_append, List.mem_append, hacks.mem_iff]

end Run

/-! ### One file of five bytes -/

def oneFile : World Record where
  database := (AList.insert filesKey (.files ⟨1, 5, AList.insert 0 (ascii "a") ∅⟩) ∅).insert
    (fileKey (ascii "a")) (.file ⟨0, ascii "a", 5, 1, 0, blankHash, false, []⟩)
  statics := ⟨false, 0, []⟩
  sent := []

def ackRequest (partnum : PartnumType) (stid : StidType) : Request where
  packet := received (Storage.partAckPacket stid ⟨0, partnum⟩ 10).header
    (Storage.partAckPacket stid ⟨0, partnum⟩ 10).payload
  env := ⟨0, fun _ => none, id, List.Perm.refl, none, List.Vector.replicate 16 0⟩
  fuel := 0

theorem recordsMap_two_parts :
    (∀ requests' : List Request, requests'.Perm [ackRequest 0 0, ackRequest 1 0] →
      RecordsMap ([] ++ acksOf [ackRequest 0 0, ackRequest 1 0])
        (partsOf (acknowledgeAll oneFile requests').database (ascii "a"))) ↔
    (([] : List PartItem).map PartItem.numGet ++
      (acksOf [ackRequest 0 0, ackRequest 1 0]).map fun ack => ack.partid.partnum).Nodup :=
  @recordsMap_iff oneFile ⟨1, 5, AList.insert 0 (ascii "a") ∅⟩
    ⟨0, ascii "a", 5, 1, 0, blankHash, false, []⟩ (ascii "a") 0 _ [] rfl rfl rfl
    (by simp only [AboutFile, List.forall_mem_cons]; exact ⟨⟨_, rfl, rfl⟩, ⟨_, rfl, rfl⟩, nofun⟩)
    ⟨List.nodup_nil, by simp, nofun, nofun⟩

/-- Part 0 acknowledged by storages 0 and 1 gets two items. -/
theorem not_recordsMap_twice :
    ¬ ∀ (w : World Record) (mof : MetaOnFilesItem) (fi : FileItem) (fname : Bytes) (fid : FidType)
      (requests : List Request), w.database.lookup filesKey = some (.files mof) →
      mof.nameById.lookup fid = some fname →
      w.database.lookup (fileKey fname) = some (.file fi) → fi.parts = [] →
      AboutFile fid requests →
      RecordsMap (acksOf requests) (partsOf (acknowledgeAll w requests).database fname) := by
  intro h
  have habout : AboutFile 0 [ackRequest 0 0, ackRequest 0 1] := by
    simp only [AboutFile, List.forall_mem_cons]
    exact ⟨⟨_, rfl, rfl⟩, ⟨_, rfl, rfl⟩, nofun⟩
  have hnodup := @nodup_of_recordsMap oneFile ⟨1, 5, AList.insert 0 (ascii "a") ∅⟩
    ⟨0, ascii "a", 5, 1, 0, blankHash, false, []⟩ (ascii "a") 0 _ _ rfl rfl rfl habout
    (h _ _ _ _ _ _ rfl rfl rfl rfl habout)
  revert hnodup
  decide

end Mp2p.Master
