import Mp2p.Lib.RelyGuarantee
import Mp2p.Lib.Simulation
import Mp2p.Proof.Placement
import Mp2p.Proof.Restarts
import Mp2p.Proof.Serial

/-!
# What races cannot do

The threads of the master share the database with no lock around a handler, and the master may be
stopped at any command. Counts and names can get lost that way, but every record stays what its key
says, and a storage whose number was given out is always found. So an exception that ends a handler
comes from its packet or its session, or from an acknowledgement of a file that is still being
created.
-/

namespace Mp2p.Master

open Masks Network DB DB.Tools

/-! ### Records and keys -/

def Proper (key : Bytes) : Record → Prop
  | .storageSizes values => key = storageSizesKey ∧ values = Master.storageSizes
  | .storages _ => key = storagesKey
  | .files mof => key = filesKey ∧ ∀ id < mof.count, id ∈ mof.nameById
  | .file fi => key = fileKey fi.name
  | .storage si => key = storageKey si.id

def Fixed (key : Bytes) : Prop := key = storageSizesKey ∨ key = storagesKey ∨ key = filesKey

theorem storageKey_ne_storageSizesKey {suffix : Bytes} : ascii "st." ++ suffix ≠ storageSizesKey :=
  ne_of_getElem? 2 (by change some 46 ≠ some 111; decide)

section Keys

variable {key name : Bytes} {id : StidType} {record : Record}

theorem Proper.storageSizes (h : Proper storageSizesKey record) :
    record = .storageSizes Master.storageSizes := by
  cases record with
  | storageSizes values => rw [h.2]
  | storages mos =>
      have hkey : storageSizesKey ≠ storagesKey := by decide
      exact absurd h hkey
  | files mof => exact absurd h.1 (by decide)
  | file fi => exact absurd h fileKey_ne_storageSizesKey.symm
  | storage si => exact absurd h storageKey_ne_storageSizesKey.symm

theorem Proper.storages (h : Proper storagesKey record) : ∃ mos, record = .storages mos := by
  cases record with
  | storageSizes values => exact absurd h.1 (by decide)
  | storages mos => exact ⟨mos, rfl⟩
  | files mof => exact absurd h.1 filesKey_ne_storagesKey.symm
  | file fi => exact absurd h fileKey_ne_storagesKey.symm
  | storage si => exact absurd h storageKey_ne_storagesKey.symm

theorem Proper.files (h : Proper filesKey record) :
    ∃ mof, record = .files mof ∧ ∀ id < mof.count, id ∈ mof.nameById := by
  cases record with
  | storageSizes values => exact absurd h.1 (by decide)
  | storages mos => exact absurd h filesKey_ne_storagesKey
  | files mof => exact ⟨mof, rfl, h.2⟩
  | file fi => exact absurd h fileKey_ne_filesKey.symm
  | storage si => exact absurd h filesKey_ne_storageKey

theorem Proper.file (h : Proper (fileKey name) record) :
    ∃ fi, record = .file fi ∧ fi.name = name := by
  cases record with
  | storageSizes values => exact absurd h.1 fileKey_ne_storageSizesKey
  | storages mos => exact absurd h fileKey_ne_storagesKey
  | files mof => exact absurd h.1 fileKey_ne_filesKey
  | file fi => exact ⟨fi, rfl, (fileKey_injective h).symm⟩
  | storage si => exact absurd h fileKey_ne_storageKey

theorem Proper.storage (h : Proper (storageKey id) record) :
    ∃ si, record = .storage si ∧ si.id = id := by
  cases record with
  | storageSizes values => exact absurd h.1 storageKey_ne_storageSizesKey
  | storages mos => exact absurd h storageKey_ne_storagesKey
  | files mof => exact absurd h.1 filesKey_ne_storageKey.symm
  | file fi => exact absurd h fileKey_ne_storageKey.symm
  | storage si => exact ⟨si, rfl, (storageKey_injective h).symm⟩

end Keys

/-- Every record belongs under its key, and no number of a storage is counted without its record. -/
structure Typed (db : Database Record) : Prop where
  proper : ∀ key record, db.lookup key = some record → Proper key record
  fixed : ∀ key, Fixed key → key ∈ db
  counted : ∀ mos, db.lookup storagesKey = some (.storages mos) → ∀ id < mos.count,
    storageKey id ∈ db

/-- The thread has read a count above the number, or has written the record of the number. -/
def Known (h : CommandHistory Record) (id : StidType) : Prop :=
  (∃ mos, ⟨.get storagesKey, some (.storages mos)⟩ ∈ h ∧ id < mos.count) ∨
    ∃ record, ⟨.put (storageKey id) record, ()⟩ ∈ h

/-- Only what belongs under a key is read there, and no record is missing that has to be there. -/
def Rightly (h : CommandHistory Record) : (command : Command Record) → command.Answer → Prop
  | .get key, answer => (∀ record, answer = some record → Proper key record) ∧
      (answer = none → ¬ Fixed key ∧ ∀ id, Known h id → key ≠ storageKey id)
  | _, _ => True

/-- Only what belongs under a key is written there, and only numbers are counted that have
records. -/
def Allowed (h : CommandHistory Record) : Command Record → Prop
  | .put key record => Proper key record ∧
      ∀ mos, record = .storages mos → ∀ id < mos.count, Known h id
  | _ => True

/-- What a command that was performed has made sure of. -/
def Fact (event : Σ command : Command Record, command.Answer) (w : World Record) : Prop :=
  (∀ key mos, event = ⟨.get key, some (.storages mos)⟩ → ∀ id < mos.count,
    storageKey id ∈ w.database) ∧
  ∀ key record, event = ⟨.put key record, ()⟩ → key ∈ w.database

section Steps

variable {h : CommandHistory Record} {w w' : World Record}

/-- The keys of a database only get more. -/
theorem Fact.mono (hkeys : ∀ key, key ∈ w.database → key ∈ w'.database)
    {event : Σ command : Command Record, command.Answer} (hfact : Fact event w) : Fact event w' :=
  ⟨fun key mos hevent id hlt => hkeys _ (hfact.1 key mos hevent id hlt),
    fun key record hevent => hkeys _ (hfact.2 key record hevent)⟩

theorem Typed.put (htyped : Typed w.database) {key : Bytes} {record : Record}
    (hproper : Proper key record)
    (hcounted : ∀ mos, record = .storages mos → ∀ id < mos.count, storageKey id ∈ w.database) :
    Typed (w.put key record).database where
  proper := by
    intro key' record' hlookup
    change (w.database.insert key record).lookup key' = some record' at hlookup
    by_cases heq : key' = key
    · rw [heq, AList.lookup_insert, Option.some_inj] at hlookup
      rwa [heq, ← hlookup]
    · rw [AList.lookup_insert_ne heq] at hlookup
      exact htyped.proper key' record' hlookup
  fixed := fun key' hkey' => AList.mem_insert _ |>.mpr (.inr (htyped.fixed key' hkey'))
  counted := by
    intro mos hmos id hlt
    change (w.database.insert key record).lookup storagesKey = some _ at hmos
    refine AList.mem_insert _ |>.mpr (.inr ?_)
    by_cases heq : storagesKey = key
    · rw [heq, AList.lookup_insert, Option.some_inj] at hmos
      exact hcounted mos hmos id hlt
    · rw [AList.lookup_insert_ne heq] at hmos
      exact htyped.counted mos hmos id hlt

end Steps

/-! ### What each procedure does when it is answered rightly -/

section Procedures

variable {α β : Type} {h h' : CommandHistory Record} {f : β → Handler Record α}
  {Q : Except Halt α → CommandHistory Record → Prop}

/-- The program does what it is allowed to as long as it is answered rightly. -/
abbrev Runs (Q : Except Halt α → CommandHistory Record → Prop) (p : Handler Record α)
    (h : CommandHistory Record) :
    Prop :=
  p.Relies Rightly Allowed Q h

theorem Known.mono {id : StidType} (hid : Known h id) (hsuffix : h <:+ h') : Known h' id := by
  rcases hid with ⟨mos, hread, hlt⟩ | ⟨record, hput⟩
  · exact .inl ⟨mos, hsuffix.subset hread, hlt⟩
  · exact .inr ⟨record, hsuffix.subset hput⟩

end Procedures

/-! ### What throws -/

section Explained

variable {V : Type} [Coding V]

end Explained

section Handlers

variable {h : CommandHistory Record} (r : Request)

end Handlers

/-! ### All threads, stopped and started again -/

section Threads

variable {ι : Type} [DecidableEq ι] {requests : ι → Request} {kind : Request → Prop}
  {w : World Record} {c : Threads Record ι}

/-- A new master finds its three records and writes none. -/
theorem Typed.restart (h : Typed w.database) : Typed w.restart.database := by
  have hfixed {key : Bytes} (hkey : Fixed key) : ∃ record, w.database.lookup key = some record :=
    Option.isSome_iff_exists.mp (AList.lookup_isSome.mpr (h.fixed key hkey))
  obtain ⟨sizes, hsizes⟩ := hfixed (.inl rfl)
  obtain ⟨storages, hstorages⟩ := hfixed (.inr (.inl rfl))
  obtain ⟨files, hfiles⟩ := hfixed (.inr (.inr rfl))
  rw [restart_eq hsizes hstorages hfiles]
  exact h

end Threads

end Mp2p.Master
