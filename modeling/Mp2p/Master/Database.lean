import Mp2p.Lib.Decimal
import Mp2p.Lib.Program
import Mp2p.Master.Items
import Mp2p.Master.StorageSizes
import Mp2p.Network.Messages

/-!
# The database and the commands of a handler

A handler of the master is a program over the commands of the database, the static variables of the
placement and the session it answers on. What a database holds is of some type `V` the items are
coded in; decoding a value as another item throws, as a missing field does. Values are the JSON texts
the source stores, or the records these texts encode.
-/

namespace Mp2p.DB

open Masks Network Master

def ascii (s : String) : Bytes := s.toList.map fun c => c.toNat.toUInt8

inductive Record where
  | storageSizes (values : List (FsizeType × PartnumType))
  | storages (mos : MetaOnStoragesItem)
  | files (mof : MetaOnFilesItem)
  | file (fi : FileItem)
  | storage (si : StorageItem)
  deriving DecidableEq

/-- How the items are coded in the values of a database: what `deserialize` makes of a value, none
where it throws, and what `serialize` makes of an item, none where it is a fault. -/
class Coding (V : Type) where
  storageSizes? : V → Option (List (FsizeType × PartnumType))
  storages? : V → Option MetaOnStoragesItem
  files? : V → Option MetaOnFilesItem
  file? : V → Option FileItem
  storage? : V → Option StorageItem
  ofStorages : MetaOnStoragesItem → V
  ofFiles : MetaOnFilesItem → Option V
  ofFile : FileItem → V
  ofStorage : StorageItem → V
  /-- What `get_instance` puts into an empty database. -/
  firstStorageSizes : V
  firstStorages : V
  firstFiles : V

abbrev Database (V : Type) := AList fun _ : Bytes => V

def storageSizesKey : Bytes := ascii "storage_sizes"
def storagesKey : Bytes := ascii "storages"
def filesKey : Bytes := ascii "files"
def fileKey (name : Bytes) : Bytes := ascii "file." ++ name
def storageKey (id : StidType) : Bytes := ascii "st." ++ Decimal.digits id.toNat

namespace Record

def storageSizes? : Record → Option (List (FsizeType × PartnumType))
  | storageSizes values => some values
  | _ => none

def storages? : Record → Option MetaOnStoragesItem
  | storages mos => some mos
  | _ => none

def files? : Record → Option MetaOnFilesItem
  | files mof => some mof
  | _ => none

def file? : Record → Option FileItem
  | file fi => some fi
  | _ => none

def storage? : Record → Option StorageItem
  | storage si => some si
  | _ => none

end Record

/-- Values are records where nothing says otherwise. -/
@[default_instance]
instance : Coding Record where
  storageSizes? := Record.storageSizes?
  storages? := Record.storages?
  files? := Record.files?
  file? := Record.file?
  storage? := Record.storage?
  ofStorages := .storages
  ofFiles mof := some (.files mof)
  ofFile := .file
  ofStorage := .storage
  firstStorageSizes := .storageSizes Master.storageSizes
  firstStorages := .storages ⟨0, 0⟩
  firstFiles := .files ⟨0, 0, ∅⟩

namespace Record

variable {record : Record}

@[simp] theorem storageSizes?_storageSizes (values : List (FsizeType × PartnumType)) :
    Coding.storageSizes? (storageSizes values) = some values := rfl

@[simp] theorem storages?_storages (mos : MetaOnStoragesItem) :
    Coding.storages? (storages mos) = some mos := rfl

@[simp] theorem files?_files (mof : MetaOnFilesItem) : Coding.files? (files mof) = some mof := rfl

@[simp] theorem file?_file (fi : FileItem) : Coding.file? (file fi) = some fi := rfl

@[simp] theorem storage?_storage (si : StorageItem) :
    Coding.storage? (storage si) = some si := rfl

@[simp] theorem storageSizes?_eq_some {values : List (FsizeType × PartnumType)} :
    Coding.storageSizes? record = some values ↔ record = storageSizes values := by
  cases record <;> simp [Coding.storageSizes?, Record.storageSizes?]

@[simp] theorem storages?_eq_some {mos : MetaOnStoragesItem} :
    Coding.storages? record = some mos ↔ record = storages mos := by
  cases record <;> simp [Coding.storages?, Record.storages?]

@[simp] theorem files?_eq_some {mof : MetaOnFilesItem} :
    Coding.files? record = some mof ↔ record = files mof := by
  cases record <;> simp [Coding.files?, Record.files?]

@[simp] theorem file?_eq_some {fi : FileItem} :
    Coding.file? record = some fi ↔ record = file fi := by
  cases record <;> simp [Coding.file?, Record.file?]

@[simp] theorem storage?_eq_some {si : StorageItem} :
    Coding.storage? record = some si ↔ record = storage si := by
  cases record <;> simp [Coding.storage?, Record.storage?]

section Found

variable {found : Option Record}

theorem bind_storages?_eq_some {mos : MetaOnStoragesItem} :
    found.bind Coding.storages? = some mos ↔ found = some (storages mos) := by
  cases found <;> simp

theorem bind_files?_eq_some {mof : MetaOnFilesItem} :
    found.bind Coding.files? = some mof ↔ found = some (files mof) := by
  cases found <;> simp

theorem bind_file?_eq_some {fi : FileItem} :
    found.bind Coding.file? = some fi ↔ found = some (file fi) := by
  cases found <;> simp

end Found

end Record

/-- The static variables of `get_stpfields_for_upload`; the iterator is a position, one past the
last storage at the end. -/
structure Statics where
  iteratorInitialized : Bool
  currentRoundRobin : ℕ
  storages : List StorageItem
  deriving DecidableEq

inductive Command (V : Type) where
  | get (key : Bytes)
  | put (key : Bytes) (value : V)
  | statics
  | setStatics (statics : Statics)
  | send (packet : Packet)

def Command.Answer {V : Type} : Command V → Type
  | .get _ => Option V
  | .put _ _ => Unit
  | .statics => Statics
  | .setStatics _ => Unit
  | .send _ => Unit

inductive Halt where
  /-- An exception leaves the handler. -/
  | exception
  /-- Undefined behaviour. -/
  | fault
  /-- The fuel of a loop ran out. -/
  | stuck
  deriving DecidableEq, Repr

abbrev Handler (V : Type) := Program (Command V) Command.Answer Halt

section

variable {V : Type}

def tryGet (key : Bytes) : Handler V (Option V) := .perform (Command.get key)

def cmdGet (key : Bytes) : Handler V V := do
  let value ← tryGet key
  .ofOption .exception value

def cmdPut (key : Bytes) (value : V) : Handler V Unit := .perform (Command.put key value)

/-- `blocking_send` to the session of the request; errors of the transport stay inside it. -/
def blockingSend (packet : Packet) : Handler V Unit := .perform (Command.send packet)

structure World (V : Type) where
  database : Database V
  statics : Statics
  sent : List Packet

def World.put (w : World V) (key : Bytes) (value : V) : World V :=
  { w with database := w.database.insert key value }

def exec : (command : Command V) → World V → command.Answer × World V
  | .get key, w => (w.database.lookup key, w)
  | .put key value, w => ((), w.put key value)
  | .statics, w => (w.statics, w)
  | .setStatics statics, w => ((), { w with statics })
  | .send packet, w => ((), { w with sent := w.sent ++ [packet] })

/-- A command of the database the library reports no success for: `cmd_get` throws, as it does for a
missing key, and `cmd_put` throws and has written nothing. -/
def failing : (command : Command V) → World V → Except Halt command.Answer × World V
  | .get _, w => (.ok none, w)
  | .put _ _, w => (.error .exception, w)
  | .statics, w => (.ok w.statics, w)
  | .setStatics statics, w => (.ok (), { w with statics })
  | .send packet, w => (.ok (), { w with sent := w.sent ++ [packet] })

variable [Coding V]

/-- `Connector::get_instance(host, pass, bucket)` after the connection. -/
def getInstance : Handler V Unit := do
  if (← tryGet storageSizesKey).isNone then
    cmdPut storageSizesKey Coding.firstStorageSizes
  if (← tryGet storagesKey).isNone then
    cmdPut storagesKey Coding.firstStorages
  if (← tryGet filesKey).isNone then
    cmdPut filesKey Coding.firstFiles

def World.initial : World V :=
  (getInstance.run exec { database := ∅, statics := ⟨false, 0, []⟩, sent := [] }).2

/-- A master that is started again over the values of the last one: its static variables are as at
the first start. -/
def World.restart (w : World V) : World V :=
  (getInstance.run exec { w with statics := ⟨false, 0, []⟩ }).2

end

end Mp2p.DB
