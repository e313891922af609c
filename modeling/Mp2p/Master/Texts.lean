import Mp2p.Master.Serialization
import Mp2p.Master.Threads

/-!
# The texts of the database

The database stores texts under its keys: what is read is decoded through the property tree, and what
is written is serialized.
-/

namespace Mp2p.Texts

open Masks DB Utils.Misc

def sizeRow (value : FsizeType × PartnumType) : Bytes :=
  ascii "\n  \x7b\"file_size\": " ++ Decimal.digits value.1.toNat ++ ascii ", \"nb_part\": " ++
    Decimal.digits value.2.toNat ++ ascii " \x7d"

/-- The text of `ressources/data/storage_sizes.json`. -/
def storageSizesJson : Bytes :=
  ascii "\x7b \"values\": [" ++ separate (Master.storageSizes.map sizeRow) (ascii ",") ++
    ascii "\n]\x7d\n"

def storagesJson : Bytes := ascii "\x7b\"count\":0, \"available_space\":0\x7d"

def filesJson : Bytes := ascii "\x7b\"count\":0, \"total_size\":0, \"name_by_id\":[]\x7d"

section

variable (boost : PropertyTree)

def sizeOfTree (pt : Json.Tree) : Option (FsizeType × PartnumType) := do
  let fileSize ← getUInt boost 64 pt (ascii "file_size")
  let nbPart ← getUInt boost 32 pt (ascii "nb_part")
  pure (UInt64.ofNat fileSize, UInt32.ofNat nbPart)

def sizesOfTree (pt : Json.Tree) : Option (List (FsizeType × PartnumType)) := do
  let valuesPt ← boost.getChild pt (ascii "values")
  valuesPt.children.mapM fun it => sizeOfTree boost it.2

/-- A stored text, which the library reads. -/
def Value (_ : PropertyTree) := Bytes

instance : Coding (Value boost) where
  storageSizes? := deserialize boost (sizesOfTree boost)
  storages? := MetaOnStoragesItem.deserialize boost
  files? := MetaOnFilesItem.deserialize boost
  file? := FileItem.deserialize boost
  storage? := StorageItem.deserialize boost
  ofStorages := MetaOnStoragesItem.serialize
  ofFiles := MetaOnFilesItem.serialize
  ofFile := FileItem.serialize
  ofStorage := StorageItem.serialize
  firstStorageSizes := storageSizesJson
  firstStorages := storagesJson
  firstFiles := filesJson

end

end Mp2p.Texts
