import Mp2p.Lib.Json
import Mp2p.Master.Database

/-!
# Items as JSON texts

`serialize` puts the text of an item together by hand and `deserialize` reads it back through a
property tree. The property tree is a library of its own: what it is taken to do is `Correct`.
-/

namespace Mp2p

namespace Utils.Misc

open DB

def stringFrom (value : Bytes) : Bytes := ascii "\"" ++ value ++ ascii "\""

/-- `string_from` of an integer. A `uint8_t` is written so only where the specialisation of misc.cc,
which no header declares, is the one that is linked: the template itself writes the byte. -/
def stringFromUInt (value : ℕ) : Bytes := Decimal.digits value

def stringFromBool (value : Bool) : Bytes := Decimal.digits (if value then 1 else 0)

def separate (container : List Bytes) (separator : Bytes) : Bytes :=
  match container with
  | [] => []
  | [last] => last
  | first :: second :: rest => first ++ separator ++ separate (second :: rest) separator

end Utils.Misc

namespace DB

open Masks Utils.Misc

/-! ### Serializers -/

def PartItem.serialize (part : PartItem) : Bytes :=
  ascii "\x7b" ++
    ascii "\"partid_fid\":" ++ stringFromUInt part.partid.fid.toNat ++ ascii "," ++
    ascii "\"partid_partnum\":" ++ stringFromUInt part.partid.partnum.toNat ++ ascii "," ++
    ascii "\"hash\":" ++ stringFrom part.hash.toList ++ ascii "," ++
    ascii "\"locations\":[" ++
      separate (part.locations.map fun stid => stringFromUInt stid.toNat) (ascii ",") ++ ascii "]" ++
  ascii "\x7d"

def serializeParts : List PartItem → Bytes
  | [] => []
  | it :: rest => it.serialize ++ rest.flatMap fun it => ascii "," ++ it.serialize

def FileItem.serialize (fi : FileItem) : Bytes :=
  ascii "\x7b" ++
    ascii "\"id\":" ++ stringFromUInt fi.id.toNat ++ ascii "," ++
    ascii "\"name\": " ++ stringFrom fi.name ++ ascii "," ++
    ascii "\"file_size\":" ++ stringFromUInt fi.fileSize.toNat ++ ascii "," ++
    ascii "\"redundancy\":" ++ stringFromUInt fi.redundancy.toNat ++ ascii "," ++
    ascii "\"current_redundancy\":" ++ stringFromUInt fi.currentRedundancy.toNat ++ ascii "," ++
    ascii "\"hash\":" ++ stringFrom fi.hash.toList ++ ascii "," ++
    ascii "\"uploaded\":" ++ stringFromBool fi.uploaded ++ ascii "," ++
    ascii "\"parts\":[" ++ serializeParts fi.parts ++ ascii "]" ++
  ascii "\x7d"

def MasterItem.serialize (mi : MasterItem) : Bytes :=
  ascii "\x7b" ++
    ascii "\"id\":" ++ stringFromUInt mi.id.toNat ++ ascii "," ++
    ascii "\"host_addr\":" ++ stringFrom mi.hostAddr ++
  ascii "\x7d"

def StorageItem.serialize (si : StorageItem) : Bytes :=
  ascii "\x7b" ++
    ascii "\"id\":" ++ stringFromUInt si.id.toNat ++ ascii "," ++
    ascii "\"host_addr\":" ++ stringFrom si.hostAddr ++ ascii "," ++
    ascii "\"port\":" ++ stringFromUInt si.port.toNat ++ ascii "," ++
    ascii "\"available_space\":" ++ stringFromUInt si.availableSpace.toNat ++
  ascii "\x7d"

def serializeName (it : Σ _ : FidType, Bytes) : Bytes :=
  ascii "\x7b\"id\":" ++ stringFromUInt it.1.toNat ++ ascii ",\"name\":" ++ stringFrom it.2 ++
    ascii "\x7d"

/-- The entries of the map in the order they are iterated in. Before the loop the iterator is
incremented in any case, which is a fault when it is at the end. -/
def serializeNames : List (Σ _ : FidType, Bytes) → Option Bytes
  | [] => none
  | it :: rest => some (serializeName it ++ rest.flatMap fun it => ascii "," ++ serializeName it)

def MetaOnFilesItem.serialize (mof : MetaOnFilesItem) : Option Bytes :=
  (serializeNames mof.nameById.entries).map fun names =>
    ascii "\x7b" ++
      ascii "\"count\":" ++ stringFromUInt mof.count.toNat ++ ascii "," ++
      ascii "\"total_size\":" ++ stringFromUInt mof.totalSize.toNat ++ ascii "," ++
      ascii "\"name_by_id\":[" ++ names ++ ascii "]" ++
    ascii "\x7d"

def MetaOnStoragesItem.serialize (mos : MetaOnStoragesItem) : Bytes :=
  ascii "\x7b" ++
    ascii "\"count\":" ++ stringFromUInt mos.count.toNat ++ ascii "," ++
    ascii "\"available_space\":" ++ stringFromUInt mos.availableSpace.toNat ++
  ascii "\x7d"

/-! ### Deserializers -/

/-- The property tree library: `read_json`, `get_child` and the conversions of `get`, none where it
throws. -/
structure PropertyTree where
  readJson : Bytes → Option Json.Tree
  getChild : Json.Tree → Bytes → Option Json.Tree
  /-- An unsigned integer of so many bits. -/
  getInteger : ℕ → Bytes → Option ℕ
  getBool : Bytes → Option Bool

/-- The library reads JSON as the grammar has it, finds the first child under a key and reads the
numerals that are in range. -/
structure PropertyTree.Correct (boost : PropertyTree) : Prop where
  readJson : ∀ text, boost.readJson text = Json.read text
  getChild : ∀ tree key, boost.getChild tree key = tree.child key
  getInteger : ∀ bits n, n < 2 ^ bits → boost.getInteger bits (Decimal.digits n) = some n
  getBool : ∀ b : Bool, boost.getBool (Decimal.digits (if b then 1 else 0)) = some b

section

variable (boost : PropertyTree)

def getString (pt : Json.Tree) (key : Bytes) : Option Bytes :=
  (boost.getChild pt key).map Json.Tree.data

def getUInt (bits : ℕ) (pt : Json.Tree) (key : Bytes) : Option ℕ :=
  (getString boost pt key).bind (boost.getInteger bits)

/-- `hash_[j] = hash.c_str()[j]` for every `j`. The bytes end with a zero, and reading past it is a
fault. -/
def hashFrom (hash : Bytes) : Option Sha1Type := Layout.overlay (hash ++ [0]) 0

def PartItem.ofTree (pt : Json.Tree) : Option PartItem := do
  let fid ← getUInt boost 64 pt (ascii "partid_fid")
  let partnum ← getUInt boost 32 pt (ascii "partid_partnum")
  let hash ← getString boost pt (ascii "hash")
  let locs ← boost.getChild pt (ascii "locations")
  let locations ← locs.children.mapM fun it => boost.getInteger 32 it.2.data
  let hash ← hashFrom hash
  pure ⟨⟨UInt64.ofNat fid, UInt32.ofNat partnum⟩, hash, locations.map UInt32.ofNat⟩

/-- What `FileItem::deserialize` makes of the tree it read, and so on for the other items. -/
def FileItem.ofTree (pt : Json.Tree) : Option FileItem := do
  let id ← getUInt boost 64 pt (ascii "id")
  let name ← getString boost pt (ascii "name")
  let fileSize ← getUInt boost 64 pt (ascii "file_size")
  let redundancy ← getUInt boost 8 pt (ascii "redundancy")
  let currentRedundancy ← getUInt boost 8 pt (ascii "current_redundancy")
  let hash ← getString boost pt (ascii "hash")
  let uploaded ← (getString boost pt (ascii "uploaded")).bind boost.getBool
  let locs ← boost.getChild pt (ascii "parts")
  let parts ← locs.children.mapM fun v => PartItem.ofTree boost v.2
  let hash ← hashFrom hash
  pure ⟨UInt64.ofNat id, name, UInt64.ofNat fileSize, UInt8.ofNat redundancy,
    UInt8.ofNat currentRedundancy, hash, uploaded, parts⟩

def MasterItem.ofTree (pt : Json.Tree) : Option MasterItem := do
  let id ← getUInt boost 32 pt (ascii "id")
  let hostAddr ← getString boost pt (ascii "host_addr")
  pure ⟨UInt32.ofNat id, hostAddr⟩

def StorageItem.ofTree (pt : Json.Tree) : Option StorageItem := do
  let id ← getUInt boost 32 pt (ascii "id")
  let hostAddr ← getString boost pt (ascii "host_addr")
  let port ← getUInt boost 16 pt (ascii "port")
  let availableSpace ← getUInt boost 64 pt (ascii "available_space")
  pure ⟨UInt32.ofNat id, hostAddr, UInt16.ofNat port, UInt64.ofNat availableSpace⟩

def deserializeName (v : Json.Tree) : Option (FidType × Bytes) := do
  let id ← getUInt boost 64 v (ascii "id")
  let name ← getString boost v (ascii "name")
  pure (UInt64.ofNat id, name)

def MetaOnFilesItem.ofTree (pt : Json.Tree) : Option MetaOnFilesItem := do
  let count ← getUInt boost 64 pt (ascii "count")
  let totalSize ← getUInt boost 128 pt (ascii "total_size")
  let locs ← boost.getChild pt (ascii "name_by_id")
  let names ← locs.children.mapM fun v => deserializeName boost v.2
  pure ⟨UInt64.ofNat count, BitVec.ofNat 128 totalSize,
    names.foldl (fun nameById v => nameById.emplace v.1 v.2) ∅⟩

def MetaOnStoragesItem.ofTree (pt : Json.Tree) : Option MetaOnStoragesItem := do
  let count ← getUInt boost 32 pt (ascii "count")
  let availableSpace ← getUInt boost 128 pt (ascii "available_space")
  pure ⟨UInt32.ofNat count, BitVec.ofNat 128 availableSpace⟩

/-- `deserialize` of a text, given what becomes of the tree. -/
def deserialize {α : Type} (ofTree : Json.Tree → Option α) (json : Bytes) : Option α := do
  let pt ← boost.readJson json
  ofTree pt

def PartItem.deserialize : Bytes → Option PartItem := DB.deserialize boost (PartItem.ofTree boost)

def FileItem.deserialize : Bytes → Option FileItem := DB.deserialize boost (FileItem.ofTree boost)

def MasterItem.deserialize : Bytes → Option MasterItem :=
  DB.deserialize boost (MasterItem.ofTree boost)

def StorageItem.deserialize : Bytes → Option StorageItem :=
  DB.deserialize boost (StorageItem.ofTree boost)

def MetaOnFilesItem.deserialize : Bytes → Option MetaOnFilesItem :=
  DB.deserialize boost (MetaOnFilesItem.ofTree boost)

def MetaOnStoragesItem.deserialize : Bytes → Option MetaOnStoragesItem :=
  DB.deserialize boost (MetaOnStoragesItem.ofTree boost)

end

end DB

end Mp2p
