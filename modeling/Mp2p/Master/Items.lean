import Mathlib.Data.List.AList
import Mp2p.Masks.Blocks

/-!
# Database items

What the master keeps about files, their parts and the storages. The totals are 128 bits wide; a map
from file identifiers to names is an association list in which the order of the entries, like that
of an `unordered_map`, means nothing.
-/

namespace Mp2p.DB

open Masks

abbrev UInt128 := BitVec 128

structure PartItem where
  partid : PartId
  hash : Sha1Type
  locations : List StidType
  deriving DecidableEq

namespace PartItem

def numGet (part : PartItem) : PartnumType := part.partid.partnum

def addStid (part : PartItem) (id : StidType) : PartItem :=
  { part with locations := part.locations ++ [id] }

end PartItem

structure FileItem where
  id : FidType
  name : Bytes
  fileSize : FsizeType
  redundancy : RdcyType
  currentRedundancy : RdcyType
  hash : Sha1Type
  uploaded : Bool
  parts : List PartItem
  deriving DecidableEq

structure MasterItem where
  id : MtidType
  hostAddr : Bytes
  deriving DecidableEq

structure StorageItem where
  id : StidType
  hostAddr : Bytes
  port : PortType
  availableSpace : AvspaceType
  deriving DecidableEq

abbrev NameById := AList fun _ : FidType => Bytes

structure MetaOnFilesItem where
  count : UInt64
  totalSize : UInt128
  nameById : NameById
  deriving DecidableEq

structure MetaOnStoragesItem where
  count : StidType
  availableSpace : UInt128
  deriving DecidableEq

/-- `unordered_map::emplace`: a key that is there keeps its value. -/
def NameById.emplace (names : NameById) (id : FidType) (name : Bytes) : NameById :=
  if id ∈ names then names else names.insert id name

theorem NameById.lookup_emplace (names : NameById) (id : FidType) (name : Bytes) (id' : FidType) :
    (names.emplace id name).lookup id' =
      (names.lookup id').or (if id = id' then some name else none) := by
  unfold NameById.emplace
  by_cases hid : id = id'
  · subst hid
    rw [if_pos rfl]
    by_cases hmem : id ∈ names
    · obtain ⟨old, hold⟩ := Option.isSome_iff_exists.mp (AList.lookup_isSome.mpr hmem)
      rw [if_pos hmem, hold, Option.some_or]
    · rw [if_neg hmem, AList.lookup_insert, AList.lookup_eq_none.mpr hmem, Option.none_or]
  · rw [if_neg hid, Option.or_none]
    split_ifs with hmem
    · rfl
    · exact AList.lookup_insert_ne (Ne.symm hid)

/-- The placeholder of 20 spaces the master stores where a hash would go. -/
def blankHash : Sha1Type := List.Vector.replicate 20 32

end Mp2p.DB
