import Mp2p.Master.Database
import Mp2p.Network.Misc

/-!
# Database procedures

The placement of the parts of a file on the storages and the creation of its record. What the
outside decides for one request (the random numbers, the name resolution, the address of the peer)
is the environment of the request.
-/

namespace Mp2p.DB

open Masks Network

structure Env where
  rand : ℕ
  resolve : Bytes → Option Ipv6Type
  shuffle : List StorageItem → List StorageItem
  shuffle_perm : ∀ storages, (shuffle storages).Perm storages
  remoteAddress : Option Bytes
  /-- What an address variable holds before it is assigned. -/
  uninitialized : Ipv6Type

def StorageItem.addrGet (env : Env) (st : StorageItem) : Option Addr :=
  (env.resolve st.hostAddr).map fun ipv6 => ⟨ipv6, st.port⟩

namespace Tools

variable {V : Type}

section

variable [Coding V]

def numberOfParts (fileSize : FsizeType) : Handler V PartnumType := do
  let json ← cmdGet storageSizesKey
  let values ← .ofOption .exception (Coding.storageSizes? json)
  pure (Master.numberOfParts values fileSize)

def getStorages : List StidType → Handler V (List StorageItem)
  | [] => pure []
  | i :: rest => do
      let json ← cmdGet (storageKey i)
      let st ← .ofOption .exception (Coding.storage? json)
      pure (st :: (← getStorages rest))

def getAllStorages : Handler V (List StorageItem) := do
  let json ← cmdGet storagesKey
  let mos ← .ofOption .exception (Coding.storages? json)
  let storages ← getStorages ((List.range mos.count.toNat).map UInt32.ofNat)
  let statics ← .perform Command.statics
  .perform (Command.setStatics { statics with iteratorInitialized := false })
  pure storages

/-- The first free suffix of `tmp_name` from `i` on. -/
def searchName (tmpName : Bytes) : ℕ → UInt64 → Handler V Bytes
  | 0, _ => .throw .stuck
  | fuel + 1, i => do
      let name := tmpName ++ ascii ".__" ++ Decimal.digits i.toNat
      match ← tryGet (fileKey name) with
      | some _ => searchName tmpName fuel (i + 1)
      | none => pure name

def createNewFile (fuel : ℕ) (fi : FileItem) : Handler V FileItem := do
  let name ← searchName fi.name fuel 0
  let json ← cmdGet filesKey
  let mof ← .ofOption .exception (Coding.files? json)
  let fi := { fi with name, id := mof.count }
  let mof := { mof with
    count := mof.count + 1
    totalSize := mof.totalSize + BitVec.ofNat 128 fi.fileSize.toNat
    nameById := mof.nameById.emplace fi.id fi.name }
  let json ← .ofOption .fault (Coding.ofFiles mof)
  cmdPut filesKey json
  cmdPut (fileKey fi.name) (Coding.ofFile fi)
  pure fi

end

abbrev Placement := List (StorageItem × PartnumType)

def addPart (st : StorageItem) : Placement → Option Placement
  | [] => none
  | (f, nb) :: rest =>
      if f.hostAddr = st.hostAddr ∧ f.port = st.port then some ((f, nb + 1) :: rest)
      else (addPart st rest).map ((f, nb) :: ·)

/-- The round-robin loop from part `i` on. A storage that is full or unreachable is passed over and
the part tried on the next one, without end if no storage takes it. -/
def placeParts (env : Env) (fileSize : FsizeType) (nbParts : PartnumType)
    (storages : List StorageItem) :
    ℕ → PartnumType → ℕ → Placement → Except Halt (ℕ × Placement)
  | 0, _, _, _ => .error .stuck
  | fuel + 1, i, current, tmpValues =>
      if i ≤ nbParts then
        let current := if current = storages.length then 0 else current
        match storages[current]? with
        | none => .error .fault
        | some st =>
            let (i, tmpValues) :=
              if st.availableSpace < getPartSize fileSize (i - 1) nbParts then (i - 1, tmpValues)
              else match addPart st tmpValues with
                | some tmpValues => (i, tmpValues)
                | none => match st.addrGet env with
                  | some _ => (i, tmpValues ++ [(st, 1)])
                  | none => (i - 1, tmpValues)
            placeParts env fileSize nbParts storages fuel (i + 1) (current + 1) tmpValues
      else .ok (current, tmpValues)

def placementFields (env : Env) (tmpValues : Placement) : Option (List StpField) :=
  tmpValues.mapM fun it => (it.1.addrGet env).map fun addr => ⟨addr, it.2⟩

variable [Coding V]

/-- Whether the round robin has storages to go over; it is set up on its first use and after every
`get_all_storages`. -/
def initRoundRobin (env : Env) : Handler V Bool := do
  let statics ← .perform Command.statics
  if statics.iteratorInitialized then pure true
  else do
    let tmp ← getAllStorages
    if tmp.length = 0 then pure false
    else do
      .perform (Command.setStatics ⟨true, env.rand % (tmp.length + 1), tmp⟩)
      pure true

def getStpfieldsForUpload (env : Env) (fuel : ℕ) (fileSize : FsizeType) :
    Handler V (List StpField) := do
  if ← initRoundRobin env then do
    let nbParts ← numberOfParts fileSize
    let statics ← .perform Command.statics
    let (current, tmpValues) ← .ofExcept
      (placeParts env fileSize nbParts statics.storages fuel 1 statics.currentRoundRobin [])
    .perform (Command.setStatics { statics with currentRoundRobin := current })
    .ofOption .exception (placementFields env tmpValues)
  else pure []

end Tools

end Mp2p.DB
