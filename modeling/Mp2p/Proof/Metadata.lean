import Mathlib.Algebra.BigOperators.Group.Finset.Basic
import Mathlib.Algebra.Order.BigOperators.Group.Finset
import Mp2p.Proof.Handlers

/-!
# The metadata stays consistent

The records a master keeps are tied together by hand: a file is found by its number through the map
of names and by its name through its key, and the totals are sums that no command recomputes. What
ties them is preserved by each of the three ways a handler writes, so it holds however many packets
have been handled.
-/

namespace Mp2p.Master

open Masks Network DB DB.Tools

/-! ### The invariant -/

def sizeOfFile (db : Database Record) (mof : MetaOnFilesItem) (id : ℕ) : ℕ :=
  (((mof.nameById.lookup (UInt64.ofNat id)).bind fun name => db.lookup (fileKey name)).bind
    Coding.file?).elim 0 fun fi => fi.fileSize.toNat

def spaceOfStorage (db : Database Record) (id : ℕ) : ℕ :=
  ((db.lookup (storageKey (UInt32.ofNat id))).bind Coding.storage?).elim 0
    fun si => si.availableSpace.toNat

structure FilesConsistent (db : Database Record) (mof : MetaOnFilesItem) : Prop where
  files : db.lookup filesKey = some (.files mof)
  mem_nameById : ∀ id, id ∈ mof.nameById ↔ id < mof.count
  name_injective : ∀ i j name, mof.nameById.lookup i = some name →
    mof.nameById.lookup j = some name → i = j
  file_of_name : ∀ id name, mof.nameById.lookup id = some name →
    ∃ fi, db.lookup (fileKey name) = some (.file fi) ∧ fi.id = id ∧ fi.name = name
  name_of_key : ∀ name, fileKey name ∈ db → ∃ id, mof.nameById.lookup id = some name
  totalSize : mof.totalSize.toNat = ∑ id ∈ Finset.range mof.count.toNat, sizeOfFile db mof id

structure StoragesConsistent (db : Database Record) (mos : MetaOnStoragesItem) : Prop where
  storages : db.lookup storagesKey = some (.storages mos)
  storage_of_id : ∀ id < mos.count, ∃ si, db.lookup (storageKey id) = some (.storage si) ∧ si.id = id
  id_of_key : ∀ suffix, ascii "st." ++ suffix ∈ db →
    ∃ id < mos.count, suffix = Decimal.digits id.toNat
  availableSpace : mos.availableSpace.toNat =
    ∑ id ∈ Finset.range mos.count.toNat, spaceOfStorage db id

/-- No file record changes its number, name, size or redundancy. -/
def KeepsFiles (db db' : Database Record) : Prop :=
  ∀ key fi, db.lookup key = some (.file fi) → ∃ fi', db'.lookup key = some (.file fi') ∧
    fi'.id = fi.id ∧ fi'.name = fi.name ∧ fi'.fileSize = fi.fileSize ∧
    fi'.redundancy = fi.redundancy

/-! ### What a change elsewhere leaves alone -/

section Frame

variable {db db' : Database Record} {mof : MetaOnFilesItem} {mos : MetaOnStoragesItem}

/-- What the consistency of the files depends on of a record under a file key. -/
def fileFields (record : Record) : Option (FidType × Bytes × FsizeType) :=
  (Coding.file? record).map fun fi => (fi.id, fi.name, fi.fileSize)

theorem FilesConsistent.congr (h : FilesConsistent db mof)
    (hfiles : db'.lookup filesKey = db.lookup filesKey)
    (hfile : ∀ name, (db'.lookup (fileKey name)).map fileFields =
      (db.lookup (fileKey name)).map fileFields) : FilesConsistent db' mof := by
  have hlookup (name : Bytes) (fi : FileItem) (hfi : db.lookup (fileKey name) = some (.file fi)) :
      ∃ fi', db'.lookup (fileKey name) = some (.file fi') ∧ fi'.id = fi.id ∧ fi'.name = fi.name ∧
        fi'.fileSize = fi.fileSize := by
    have hname := hfile name
    rw [hfi, Option.map_some, Option.map_eq_some_iff] at hname
    obtain ⟨record, hrecord, hfields⟩ := hname
    rw [fileFields, fileFields, Record.file?_file, Option.map_some, Option.map_eq_some_iff] at hfields
    obtain ⟨fi', hfi', hfields⟩ := hfields
    rw [Record.file?_eq_some.mp hfi'] at hrecord
    simp only [Prod.mk.injEq] at hfields
    exact ⟨fi', hrecord, hfields.1, hfields.2.1, hfields.2.2⟩
  refine ⟨hfiles.trans h.files, h.mem_nameById, h.name_injective, ?_, ?_, ?_⟩
  · intro id name hname
    obtain ⟨fi, hfi, hid, hfiname⟩ := h.file_of_name id name hname
    obtain ⟨fi', hfi', hid', hname', -⟩ := hlookup name fi hfi
    exact ⟨fi', hfi', hid'.trans hid, hname'.trans hfiname⟩
  · intro name hmem
    apply h.name_of_key
    rw [← AList.lookup_isSome] at hmem ⊢
    rw [← Option.isSome_map, ← hfile name, Option.isSome_map, hmem]
  · rw [h.totalSize]
    refine Finset.sum_congr rfl fun id hid => ?_
    rw [sizeOfFile, sizeOfFile]
    cases hname : mof.nameById.lookup (UInt64.ofNat id) with
    | none => rfl
    | some name =>
        obtain ⟨fi, hfi, -, -⟩ := h.file_of_name _ name hname
        obtain ⟨fi', hfi', -, -, hsize⟩ := hlookup name fi hfi
        simp [hfi, hfi', hsize]

theorem StoragesConsistent.congr (h : StoragesConsistent db mos)
    (hstorages : db'.lookup storagesKey = db.lookup storagesKey)
    (hstorage : ∀ suffix, db'.lookup (ascii "st." ++ suffix) = db.lookup (ascii "st." ++ suffix)) :
    StoragesConsistent db' mos := by
  refine ⟨hstorages.trans h.storages, ?_, ?_, ?_⟩
  · intro id hid
    rw [storageKey, hstorage]
    exact h.storage_of_id id hid
  · intro suffix hmem
    apply h.id_of_key
    rwa [← AList.lookup_isSome, ← hstorage, AList.lookup_isSome]
  · rw [h.availableSpace]
    refine Finset.sum_congr rfl fun id _ => ?_
    rw [spaceOfStorage, spaceOfStorage, storageKey, hstorage]

end Frame

/-! ### The three ways to write -/

section Write

variable {db : Database Record} {mof : MetaOnFilesItem} {mos : MetaOnStoragesItem}

theorem FilesConsistent.size_lt (h : FilesConsistent db mof) :
    mof.totalSize.toNat ≤ mof.count.toNat * 2 ^ 64 := by
  rw [h.totalSize]
  calc ∑ id ∈ Finset.range mof.count.toNat, sizeOfFile db mof id
      ≤ ∑ _id ∈ Finset.range mof.count.toNat, 2 ^ 64 := by
        refine Finset.sum_le_sum fun id _ => ?_
        rw [sizeOfFile]
        cases Option.bind _ _ with
        | none => exact Nat.zero_le _
        | some fi => exact fi.fileSize.toNat_lt.le
    _ = mof.count.toNat * 2 ^ 64 := by simp

theorem StoragesConsistent.space_lt (h : StoragesConsistent db mos) :
    mos.availableSpace.toNat ≤ mos.count.toNat * 2 ^ 64 := by
  rw [h.availableSpace]
  calc ∑ id ∈ Finset.range mos.count.toNat, spaceOfStorage db id
      ≤ ∑ _id ∈ Finset.range mos.count.toNat, 2 ^ 64 := by
        refine Finset.sum_le_sum fun id _ => ?_
        rw [spaceOfStorage]
        cases Option.bind _ _ with
        | none => exact Nat.zero_le _
        | some si => exact si.availableSpace.toNat_lt.le
    _ = mos.count.toNat * 2 ^ 64 := by simp

theorem toNat_count_succ {count : UInt64} (h : count.toNat + 1 < 2 ^ 64) :
    (count + 1).toNat = count.toNat + 1 := by
  rw [UInt64.toNat_add]
  exact Nat.mod_eq_of_lt h

theorem toNat_stid_succ {count : StidType} (h : count.toNat + 1 < 2 ^ 32) :
    (count + 1).toNat = count.toNat + 1 := by
  rw [UInt32.toNat_add]
  exact Nat.mod_eq_of_lt h

theorem FilesConsistent.create (h : FilesConsistent db mof) {fi : FileItem}
    (hfree : db.lookup (fileKey fi.name) = none) (hid : fi.id = mof.count)
    (hcount : mof.count.toNat + 1 < 2 ^ 64) :
    FilesConsistent ((db.insert filesKey (.files (addFile mof fi))).insert (fileKey fi.name)
      (.file fi)) (addFile mof fi) := by
  have hnew : fi.id ∉ mof.nameById := by
    rw [h.mem_nameById, hid]
    exact UInt64.lt_irrefl _
  have hnames : (addFile mof fi).nameById = mof.nameById.insert fi.id fi.name := if_neg hnew
  have hcount' : (addFile mof fi).count.toNat = mof.count.toNat + 1 := toNat_count_succ hcount
  have hname (id : FidType) (name : Bytes) (hlookup : mof.nameById.lookup id = some name) :
      name ≠ fi.name := by
    rintro rfl
    obtain ⟨fi', hfi', -⟩ := h.file_of_name id _ hlookup
    rw [hfree] at hfi'
    cases hfi'
  have hold (name : Bytes) (hne : name ≠ fi.name) :
      ((db.insert filesKey (.files (addFile mof fi))).insert (fileKey fi.name) (.file fi)).lookup
        (fileKey name) = db.lookup (fileKey name) := by
    rw [AList.lookup_insert_ne fun hkey => hne (fileKey_injective hkey),
      AList.lookup_insert_ne fileKey_ne_filesKey]
  refine ⟨?_, ?_, ?_, ?_, ?_, ?_⟩
  · rw [AList.lookup_insert_ne fileKey_ne_filesKey.symm, AList.lookup_insert]
  · intro id
    rw [hnames, AList.mem_insert, h.mem_nameById, hid, ← UInt64.toNat_inj,
      UInt64.lt_iff_toNat_lt, UInt64.lt_iff_toNat_lt, hcount']
    omega
  · intro i j name hi hj
    rw [hnames] at hi hj
    by_cases hieq : i = fi.id <;> by_cases hjeq : j = fi.id
    · rw [hieq, hjeq]
    · rw [hieq, AList.lookup_insert, Option.some_inj] at hi
      rw [AList.lookup_insert_ne hjeq] at hj
      exact absurd hi.symm (hname j name hj)
    · rw [hjeq, AList.lookup_insert, Option.some_inj] at hj
      rw [AList.lookup_insert_ne hieq] at hi
      exact absurd hj.symm (hname i name hi)
    · rw [AList.lookup_insert_ne hieq] at hi
      rw [AList.lookup_insert_ne hjeq] at hj
      exact h.name_injective i j name hi hj
  · intro id name hlookup
    rw [hnames] at hlookup
    by_cases hideq : id = fi.id
    · rw [hideq, AList.lookup_insert, Option.some_inj] at hlookup
      rw [← hlookup]
      exact ⟨fi, AList.lookup_insert _, hideq.symm, rfl⟩
    · rw [AList.lookup_insert_ne hideq] at hlookup
      rw [hold name (hname id name hlookup)]
      exact h.file_of_name id name hlookup
  · intro name hmem
    rw [hnames]
    by_cases hneq : name = fi.name
    · exact ⟨fi.id, by rw [AList.lookup_insert, hneq]⟩
    · rw [← AList.lookup_isSome, hold name hneq, AList.lookup_isSome] at hmem
      obtain ⟨id, hlookup⟩ := h.name_of_key name hmem
      refine ⟨id, ?_⟩
      rwa [AList.lookup_insert_ne]
      rintro rfl
      rw [← AList.lookup_isSome, hlookup] at hnew
      exact hnew rfl
  · have hsize := fi.fileSize.toNat_lt
    have htotal := h.size_lt
    have hsum : (addFile mof fi).totalSize.toNat = mof.totalSize.toNat + fi.fileSize.toNat := by
      rw [addFile, BitVec.toNat_add, BitVec.toNat_ofNat, Nat.mod_eq_of_lt (by omega),
        Nat.mod_eq_of_lt (by omega)]
    rw [hsum, hcount', Finset.sum_range_succ, h.totalSize]
    congr 1
    · refine Finset.sum_congr rfl fun id hidlt => ?_
      have hlt := Finset.mem_range.mp hidlt
      have hne : UInt64.ofNat id ≠ fi.id := by
        rw [hid, Ne, ← UInt64.toNat_inj, UInt64.toNat_ofNat', Nat.mod_eq_of_lt (by omega)]
        omega
      rw [sizeOfFile, sizeOfFile, hnames, AList.lookup_insert_ne hne]
      cases hlookup : mof.nameById.lookup (UInt64.ofNat id) with
      | none => rfl
      | some name => rw [Option.bind_some, Option.bind_some, hold name (hname _ name hlookup)]
    · rw [sizeOfFile, hnames, show UInt64.ofNat mof.count.toNat = fi.id by
        rw [hid, UInt64.ofNat_toNat], AList.lookup_insert, Option.bind_some, AList.lookup_insert]
      rfl

theorem StoragesConsistent.register (h : StoragesConsistent db mos) {si : StorageItem}
    (hid : si.id = mos.count) (hcount : mos.count.toNat + 1 < 2 ^ 32) :
    StoragesConsistent ((db.insert (storageKey si.id) (.storage si)).insert storagesKey
      (.storages (addStorage mos si))) (addStorage mos si) := by
  have hcount' : (addStorage mos si).count.toNat = mos.count.toNat + 1 := toNat_stid_succ hcount
  have hnew : ((db.insert (storageKey si.id) (.storage si)).insert storagesKey
      (.storages (addStorage mos si))).lookup (storageKey si.id) = some (.storage si) := by
    exact (AList.lookup_insert_ne storageKey_ne_storagesKey).trans (AList.lookup_insert _)
  have hold (suffix : Bytes) (hne : suffix ≠ Decimal.digits si.id.toNat) :
      ((db.insert (storageKey si.id) (.storage si)).insert storagesKey
        (.storages (addStorage mos si))).lookup (ascii "st." ++ suffix) =
        db.lookup (ascii "st." ++ suffix) := by
    rw [AList.lookup_insert_ne storageKey_ne_storagesKey]
    exact AList.lookup_insert_ne fun hkey => hne (List.append_cancel_left hkey)
  have hdigits (id : StidType) (hne : id ≠ si.id) :
      Decimal.digits id.toNat ≠ Decimal.digits si.id.toNat := fun heq =>
    hne (UInt32.toNat_inj.mp (Decimal.digits_injective heq))
  refine ⟨AList.lookup_insert _, ?_, ?_, ?_⟩
  · intro id hlt
    by_cases hideq : id = si.id
    · rw [hideq]
      exact ⟨si, hnew, rfl⟩
    · rw [storageKey, hold _ (hdigits id hideq)]
      apply h.storage_of_id
      rw [hid, ← UInt32.toNat_inj] at hideq
      rw [UInt32.lt_iff_toNat_lt, hcount'] at hlt
      rw [UInt32.lt_iff_toNat_lt]
      omega
  · intro suffix hmem
    by_cases hsuffix : suffix = Decimal.digits si.id.toNat
    · refine ⟨si.id, ?_, hsuffix⟩
      rw [UInt32.lt_iff_toNat_lt, hcount', hid]
      omega
    · rw [← AList.lookup_isSome, hold suffix hsuffix, AList.lookup_isSome] at hmem
      obtain ⟨id, hlt, heq⟩ := h.id_of_key suffix hmem
      refine ⟨id, ?_, heq⟩
      rw [UInt32.lt_iff_toNat_lt] at hlt ⊢
      omega
  · have hspace := si.availableSpace.toNat_lt
    have htotal := h.space_lt
    have hsum : (addStorage mos si).availableSpace.toNat =
        mos.availableSpace.toNat + si.availableSpace.toNat := by
      rw [addStorage, BitVec.toNat_add, BitVec.toNat_ofNat, Nat.mod_eq_of_lt (by omega),
        Nat.mod_eq_of_lt (by omega)]
    rw [hsum, hcount', Finset.sum_range_succ, h.availableSpace]
    congr 1
    · refine Finset.sum_congr rfl fun id hidlt => ?_
      have hlt := Finset.mem_range.mp hidlt
      have hne : UInt32.ofNat id ≠ si.id := by
        rw [hid, Ne, ← UInt32.toNat_inj, UInt32.toNat_ofNat', Nat.mod_eq_of_lt (by omega)]
        omega
      rw [spaceOfStorage, spaceOfStorage, storageKey, hold _ (hdigits _ hne)]
    · rw [spaceOfStorage, show UInt32.ofNat mos.count.toNat = si.id by
        rw [hid, UInt32.ofNat_toNat], hnew]
      rfl

theorem FilesConsistent.update (h : FilesConsistent db mof) {fi fi' : FileItem} {fname : Bytes}
    (hfile : db.lookup (fileKey fname) = some (.file fi))
    (hsame : fi'.id = fi.id ∧ fi'.name = fi.name ∧ fi'.fileSize = fi.fileSize) :
    FilesConsistent (db.insert (fileKey fname) (.file fi')) mof := by
  apply h.congr
  · exact AList.lookup_insert_ne fileKey_ne_filesKey.symm
  · intro name
    by_cases hname : name = fname
    · rw [hname, AList.lookup_insert, hfile]
      simp [fileFields, hsame]
    · rw [AList.lookup_insert_ne fun hkey => hname (fileKey_injective hkey)]

end Write

/-! ### One request -/

section Step

variable {w w' : World Record} {mof : MetaOnFilesItem} {mos : MetaOnStoragesItem}

/-- The files are consistent and as many as the uploads that were accepted, the storages consistent
and as many as those that registered. -/
structure Consistent (w : World Record) (mof : MetaOnFilesItem) (mos : MetaOnStoragesItem) :
    Prop where
  files : FilesConsistent w.database mof
  storages : StoragesConsistent w.database mos
  count_files : mof.count.toNat = uploads w
  count_storages : mos.count.toNat = registrations w

theorem uploads_le_of_effect (h : Effect w w') :
    uploads w ≤ uploads w' ∧ registrations w ≤ registrations w' := by
  cases h <;> omega

/-- **One request.** Each way to write preserves the invariant. -/
theorem Consistent.effect (h : Consistent w mof mos) (heffect : Effect w w')
    (huploads : uploads w' < 2 ^ 64) (hregistrations : registrations w' < 2 ^ 32) :
    ∃ mof' mos', Consistent w' mof' mos' := by
  have hmof {mof'} (hfiles : w.database.lookup filesKey = some (.files mof')) : mof' = mof := by
    rw [h.files.files, Option.some_inj] at hfiles
    cases hfiles
    rfl
  have hmos {mos'} (hstorages : w.database.lookup storagesKey = some (.storages mos')) :
      mos' = mos := by
    rw [h.storages.storages, Option.some_inj] at hstorages
    cases hstorages
    rfl
  cases heffect with
  | unchanged hdatabase hup hreg =>
      refine ⟨mof, mos, ?_, ?_, h.count_files.trans hup.symm, h.count_storages.trans hreg.symm⟩
      · exact hdatabase ▸ h.files
      · exact hdatabase ▸ h.storages
  | created mof' fi hfiles hfree hid hdatabase hup hreg =>
      obtain rfl := hmof hfiles
      have hcount : mof'.count.toNat + 1 < 2 ^ 64 := by rwa [h.count_files, ← hup]
      refine ⟨addFile mof' fi, mos, ?_, ?_, ?_, h.count_storages.trans hreg.symm⟩
      · rw [hdatabase]
        exact h.files.create hfree hid hcount
      · rw [hdatabase]
        apply h.storages.congr
        · rw [AList.lookup_insert_ne fileKey_ne_storagesKey.symm,
            AList.lookup_insert_ne filesKey_ne_storagesKey.symm]
        · intro suffix
          rw [AList.lookup_insert_ne fileKey_ne_storageKey.symm,
            AList.lookup_insert_ne filesKey_ne_storageKey.symm]
      · rw [hup, ← h.count_files]
        exact toNat_count_succ hcount
  | acked mof' req fname fi hfiles hname hfile hdatabase hup hreg =>
      refine ⟨mof, mos, ?_, ?_, h.count_files.trans hup.symm, h.count_storages.trans hreg.symm⟩
      · rw [hdatabase]
        exact h.files.update hfile ⟨rfl, rfl, rfl⟩
      · rw [hdatabase]
        apply h.storages.congr
        · exact AList.lookup_insert_ne fileKey_ne_storagesKey.symm
        · exact fun _ => AList.lookup_insert_ne fileKey_ne_storageKey.symm
  | registered mos' si hstorages hid hdatabase hup hreg =>
      obtain rfl := hmos hstorages
      have hcount : mos'.count.toNat + 1 < 2 ^ 32 := by rwa [h.count_storages, ← hreg]
      refine ⟨mof, addStorage mos' si, ?_, ?_, h.count_files.trans hup.symm, ?_⟩
      · rw [hdatabase]
        apply h.files.congr
        · rw [AList.lookup_insert_ne filesKey_ne_storagesKey]
          exact AList.lookup_insert_ne filesKey_ne_storageKey
        · intro name
          rw [AList.lookup_insert_ne fileKey_ne_storagesKey]
          exact congrArg _ (AList.lookup_insert_ne fileKey_ne_storageKey)
      · rw [hdatabase]
        exact h.storages.register hid hcount
      · rw [hreg, ← h.count_storages]
        exact toNat_stid_succ hcount

theorem Consistent.keepsFiles (h : Consistent w mof mos) (heffect : Effect w w') :
    KeepsFiles w.database w'.database := by
  intro key fi hfi
  have hne {key' : Bytes} (hkey' : w.database.lookup key' ≠ some (.file fi)) : key ≠ key' := by
    rintro rfl
    exact hkey' hfi
  cases heffect with
  | unchanged hdatabase => exact ⟨fi, hdatabase ▸ hfi, rfl, rfl, rfl, rfl⟩
  | created mof' new hfiles hfree hid hdatabase =>
      refine ⟨fi, ?_, rfl, rfl, rfl, rfl⟩
      rw [hdatabase, AList.lookup_insert_ne (hne (by rw [hfree]; exact nofun)),
        AList.lookup_insert_ne (hne (by rw [hfiles]; exact nofun)), hfi]
  | acked mof' req fname old hfiles hname hfile hdatabase =>
      rw [hdatabase]
      by_cases hkey : key = fileKey fname
      · rw [hkey, hfile, Option.some_inj] at hfi
        cases hfi
        rw [hkey]
        exact ⟨_, AList.lookup_insert _, rfl, rfl, rfl, rfl⟩
      · exact ⟨fi, by rwa [AList.lookup_insert_ne hkey], rfl, rfl, rfl, rfl⟩
  | registered mos' si hstorages hid hdatabase =>
      have hfresh : w.database.lookup (storageKey si.id) = none := by
        rw [AList.lookup_eq_none]
        intro hmem
        obtain ⟨id, hlt, hdigits⟩ := h.storages.id_of_key _ hmem
        rw [h.storages.storages, Option.some_inj] at hstorages
        cases hstorages
        obtain rfl : si.id = id := UInt32.toNat_inj.mp (Decimal.digits_injective hdigits)
        rw [hid] at hlt
        exact UInt32.lt_irrefl _ hlt
      refine ⟨fi, ?_, rfl, rfl, rfl, rfl⟩
      rw [hdatabase, AList.lookup_insert_ne (hne (by rw [hstorages]; exact nofun)),
        AList.lookup_insert_ne (hne (by rw [hfresh]; exact nofun)), hfi]

end Step

/-! ### Whole runs -/

theorem keys_initial :
    World.initial.database.keys = [filesKey, storagesKey, storageSizesKey] := by
  decide

theorem consistent_initial : Consistent .initial ⟨0, 0, ∅⟩ ⟨0, 0⟩ := by
  refine ⟨⟨rfl, ?_, ?_, ?_, ?_, rfl⟩, ⟨rfl, ?_, ?_, rfl⟩, rfl, rfl⟩
  · intro id
    simp [UInt64.lt_iff_toNat_lt]
  · intro i j name hi
    cases hi
  · intro id name hlookup
    cases hlookup
  · intro name hmem
    rw [AList.mem_keys, keys_initial] at hmem
    simp only [List.mem_cons, List.not_mem_nil, or_false] at hmem
    rcases hmem with h | h | h
    · exact absurd h fileKey_ne_filesKey
    · exact absurd h fileKey_ne_storagesKey
    · exact absurd h (ne_of_getElem? 0 (by change some 102 ≠ some 115; decide))
  · intro id hlt
    simp [UInt32.lt_iff_toNat_lt] at hlt
  · intro suffix hmem
    rw [AList.mem_keys, keys_initial] at hmem
    simp only [List.mem_cons, List.not_mem_nil, or_false] at hmem
    rcases hmem with h | h | h
    · exact absurd h.symm filesKey_ne_storageKey
    · exact absurd h storageKey_ne_storagesKey
    · exact absurd h (ne_of_getElem? 2 (by change some 46 ≠ some 111; decide))

theorem uploads_le_handleAll (w : World Record) (requests : List Request) :
    uploads w ≤ uploads (handleAll w requests) ∧
      registrations w ≤ registrations (handleAll w requests) := by
  induction requests generalizing w with
  | nil => exact ⟨le_rfl, le_rfl⟩
  | cons r rest ih =>
      have hstep := uploads_le_of_effect (effect_handle w r)
      exact ⟨hstep.1.trans (ih _).1, hstep.2.trans (ih _).2⟩

theorem uploads_handleAll_le (w : World Record) (requests : List Request) :
    uploads (handleAll w requests) ≤ uploads w + requests.length ∧
      registrations (handleAll w requests) ≤ registrations w + requests.length := by
  induction requests generalizing w with
  | nil => exact ⟨le_rfl, le_rfl⟩
  | cons r rest ih =>
      have hstep : uploads (handle w r) ≤ uploads w + 1 ∧
          registrations (handle w r) ≤ registrations w + 1 := by
        cases effect_handle w r <;> omega
      have hrest := ih (handle w r)
      rw [List.length_cons]
      change uploads (handleAll (handle w r) rest) ≤ _ ∧
        registrations (handleAll (handle w r) rest) ≤ _
      omega

theorem Consistent.run {w : World Record} {mof : MetaOnFilesItem} {mos : MetaOnStoragesItem}
    (h : Consistent w mof mos) {requests : List Request}
    (huploads : uploads (handleAll w requests) < 2 ^ 64)
    (hregistrations : registrations (handleAll w requests) < 2 ^ 32) :
    ∃ mof' mos', Consistent (handleAll w requests) mof' mos' := by
  induction requests generalizing w mof mos with
  | nil => exact ⟨mof, mos, h⟩
  | cons r rest ih =>
      have hrest := uploads_le_handleAll (handle w r) rest
      obtain ⟨mof', mos', hstep⟩ := h.effect (effect_handle w r) (hrest.1.trans_lt huploads)
        (hrest.2.trans_lt hregistrations)
      exact ih hstep huploads hregistrations

/-- **Metadata.** However many requests a master has handled since it started over an empty database,
its records are consistent and no request has changed a file that was there before it. -/
theorem consistent_handleAll (requests : List Request)
    (huploads : uploads (handleAll .initial requests) < 2 ^ 64)
    (hregistrations : registrations (handleAll .initial requests) < 2 ^ 32) :
    (∃ mof mos, FilesConsistent (handleAll .initial requests).database mof ∧
      StoragesConsistent (handleAll .initial requests).database mos) ∧
    ∀ done r rest, requests = done ++ r :: rest →
      KeepsFiles (handleAll .initial done).database
        (handleAll .initial (done ++ [r])).database := by
  constructor
  · obtain ⟨mof, mos, h⟩ := consistent_initial.run huploads hregistrations
    exact ⟨mof, mos, h.files, h.storages⟩
  · rintro done r rest rfl
    rw [handleAll, List.foldl_append] at huploads hregistrations
    have hle := uploads_le_handleAll (handleAll .initial done) (r :: rest)
    obtain ⟨mof, mos, h⟩ := consistent_initial.run (hle.1.trans_lt huploads)
      (hle.2.trans_lt hregistrations)
    rw [handleAll, handleAll, List.foldl_append]
    exact h.keepsFiles (effect_handle _ r)

def oneUpload : List Request :=
  let env : Env := ⟨0, fun _ => some (List.Vector.replicate 16 0), id, List.Perm.refl,
    some (ascii "::1"), List.Vector.replicate 16 0⟩
  let request (p : Packet) : Request := ⟨received p.header p.payload, env, 3⟩
  [request (Storage.idReqPacket 4242 1000), request (Client.upReqPacket 5 1 (ascii "a")),
    request (Storage.partAckPacket 0 ⟨0, 0⟩ 10)]

theorem consistent_oneUpload :
    (∃ mof mos, FilesConsistent (handleAll .initial oneUpload).database mof ∧
      StoragesConsistent (handleAll .initial oneUpload).database mos) ∧
    ∀ done r rest, oneUpload = done ++ r :: rest →
      KeepsFiles (handleAll .initial done).database
        (handleAll .initial (done ++ [r])).database :=
  consistent_handleAll oneUpload
    ((uploads_handleAll_le .initial oneUpload).1.trans_lt (by decide))
    ((uploads_handleAll_le .initial oneUpload).2.trans_lt (by decide))

end Mp2p.Master
