import Mathlib.Data.Set.Card
import Mp2p.Master.Threads
import Mp2p.Proof.Metadata

/-!
# Concurrent uploads and registrations

A handler that writes a record first counts it, or counts it last, and nothing ties its writes to
what it read before. Each thread alone keeps to a discipline that says what it read before it writes;
as long as every write finds what its thread read, the threads together number and name as one after
the other would.
-/

namespace Mp2p.Master

open Masks Network DB DB.Tools

/-! ### One thread -/

def putsOf {V : Type} (h : CommandHistory V) : List (Bytes × V) :=
  h.filterMap fun event => match event.1 with
    | .put key record => some (key, record)
    | _ => none

/-- What a thread has read and written when it comes to a write. -/
inductive PutAllowed (h : CommandHistory Record) : Bytes → Record → Prop where
  | count (mof : MetaOnFilesItem) (fi : FileItem) (hputs : putsOf h = [])
      (hread : lastRead h filesKey = some (.files mof)) (hid : fi.id = mof.count) :
      PutAllowed h filesKey (.files (addFile mof fi))
  | file (mof : MetaOnFilesItem) (fi : FileItem)
      (hputs : putsOf h = [(filesKey, .files (addFile mof fi))]) (hid : fi.id = mof.count)
      (hfree : lastRead h (fileKey fi.name) = none) : PutAllowed h (fileKey fi.name) (.file fi)
  | storage (mos : MetaOnStoragesItem) (si : StorageItem) (hputs : putsOf h = [])
      (hread : lastRead h storagesKey = some (.storages mos)) (hid : si.id = mos.count)
      (hfree : lastRead h (storageKey si.id) = none) :
      PutAllowed h (storageKey si.id) (.storage si)
  | total (mos : MetaOnStoragesItem) (si : StorageItem)
      (hputs : putsOf h = [(storageKey si.id, .storage si)])
      (hread : lastRead h storagesKey = some (.storages mos)) (hid : si.id = mos.count) :
      PutAllowed h storagesKey (.storages (addStorage mos si))

def UploadDone (h : CommandHistory Record) (fi : FileItem) : Prop :=
  ∃ mof, fi.id = mof.count ∧
    putsOf h = [(fileKey fi.name, .file fi), (filesKey, .files (addFile mof fi))]

def RegistrationDone (h : CommandHistory Record) (si : StorageItem) : Prop :=
  ∃ mos, si.id = mos.count ∧
    putsOf h = [(storagesKey, .storages (addStorage mos si)), (storageKey si.id, .storage si)]

/-- What a thread may do next. An upload is answered with the number in the record that was written
for it, and so is a registration. -/
def Discipline (h : CommandHistory Record) : Command Record → Prop
  | .put key record => PutAllowed h key record
  | .send p =>
      Minor (.send p) ∨ (∃ fi fields, UploadDone h fi ∧ p = upPiecesLocPacket fi.id fields) ∨
        ∃ si, RegistrationDone h si ∧ p = fidInfoPacket si.id
  | _ => True

/-- The answers a thread sent that accept an upload or a registration. -/
def Accepted {V : Type} (h : CommandHistory V) (fid : FidType) : Prop :=
  ∃ fields, ⟨.send (upPiecesLocPacket fid fields), ()⟩ ∈ h

def Registered {V : Type} (h : CommandHistory V) (stid : StidType) : Prop :=
  ⟨.send (fidInfoPacket stid), ()⟩ ∈ h

def Ends (h : CommandHistory Record) : Prop :=
  putsOf h = [] ∨ (∃ fi, UploadDone h fi ∧ Accepted h fi.id) ∨
    ∃ si, RegistrationDone h si ∧ Registered h si.id

abbrev Disciplined (p : Handler Record KeepAlive) (h : CommandHistory Record) : Prop :=
  p.Follows Discipline (fun _ => Ends) h

def Quiet (h : CommandHistory Record) : Prop := ∀ event ∈ h, Minor event.1

section Thread

variable {α : Type} {p : Handler Record α} {f : α → Handler Record KeepAlive}
  {h : CommandHistory Record}

theorem discipline_of_minor (h : CommandHistory Record) (command : Command Record)
    (hminor : Minor command) :
    Discipline h command := by
  cases command with
  | put key record => exact hminor.elim
  | send p => exact .inl hminor
  | _ => trivial

theorem putsOf_of_quiet (hquiet : Quiet h) : putsOf h = [] := by
  rw [putsOf, List.filterMap_eq_nil_iff]
  rintro ⟨command, answer⟩ hmem
  have hminor := hquiet _ hmem
  cases command with
  | put key record => exact hminor.elim
  | _ => rfl

theorem Quiet.cons (hquiet : Quiet h) {command : Command Record} (hminor : Minor command)
    (answer : command.Answer) : Quiet (⟨command, answer⟩ :: h) := by
  intro event hmem
  rcases List.mem_cons.mp hmem with rfl | hmem
  · exact hminor
  · exact hquiet event hmem

theorem ends_of_quiet (hquiet : Quiet h) : Ends h := .inl (putsOf_of_quiet hquiet)

/-- Before it writes a thread may do anything minor. -/
theorem disciplined_bind (hp : p.All Minor) (hquiet : Quiet h)
    (hf : ∀ a h', Quiet h' → Disciplined (f a) h') : Disciplined (p >>= f) h := by
  apply Program.follows_bind
  refine (Program.follows_of_all hp discipline_of_minor h).mono ?_
  rintro result h' ⟨l, rfl, hl⟩
  have hquiet' : Quiet (l ++ h) := fun event hmem =>
    (List.mem_append.mp hmem).elim (hl event) (hquiet event)
  cases result with
  | error e => exact ends_of_quiet hquiet'
  | ok a => exact hf a _ hquiet'

theorem disciplined_of_minor {p : Handler Record KeepAlive} (hp : p.All Minor) (hquiet : Quiet h) :
    Disciplined p h := by
  refine (Program.follows_of_all hp discipline_of_minor h).mono ?_
  rintro result h' ⟨l, rfl, hl⟩
  exact ends_of_quiet fun event hmem => (List.mem_append.mp hmem).elim (hl event) (hquiet event)

theorem disciplined_cmdGet {β : Type} {key : Bytes} {as : Record → Option β}
    {f : β → Handler Record KeepAlive} (hquiet : Quiet h)
    (hf : ∀ record b, as record = some b →
      Disciplined (f b) (⟨.get key, some record⟩ :: h)) :
    Disciplined (cmdGet key >>= fun json => Program.ofOption .exception (as json) >>= f) h := by
  refine ⟨trivial, fun record => ?_⟩
  have hquiet' : Quiet (⟨.get key, record⟩ :: h) :=
    hquiet.cons (show Minor (.get key) from trivial) record
  cases record with
  | none => exact ends_of_quiet hquiet'
  | some record =>
      change Disciplined (Program.ofOption .exception (as record) >>= f) _
      cases hb : as record with
      | none => exact ends_of_quiet hquiet'
      | some b => exact hf record b hb

theorem follows_searchName (tmpName : Bytes) (fuel : ℕ) (i : UInt64) (hquiet : Quiet h) :
    (searchName tmpName fuel i).Follows Discipline (fun result h' => Quiet h' ∧
      ∀ name, result = .ok name → lastRead h' (fileKey name) = none) h := by
  induction fuel generalizing i h with
  | zero => exact ⟨hquiet, nofun⟩
  | succ fuel ih =>
      refine ⟨trivial, fun record => ?_⟩
      have hquiet' := hquiet.cons
        (show Minor (.get (fileKey (tmpName ++ ascii ".__" ++ Decimal.digits i.toNat))) from trivial)
        record
      cases record with
      | some record => exact ih (i + 1) hquiet'
      | none =>
          refine ⟨hquiet', fun name hname => ?_⟩
          cases hname
          exact if_pos rfl

theorem lastRead_get_of_ne {key key' : Bytes} (hne : key' ≠ key) (record : Option Record) :
    lastRead (⟨.get key, record⟩ :: h) key' = lastRead h key' := if_neg hne

theorem lastRead_put_of_ne {key key' : Bytes} (hne : key' ≠ key) (record : Record) :
    lastRead (⟨.put key record, ()⟩ :: h) key' = lastRead h key' := if_neg hne

theorem disciplined_create (fuel : ℕ) (fi : FileItem) (fields : List StpField)
    (hquiet : Quiet h) :
    Disciplined (do
      let fi ← createNewFile fuel fi
      DB.blockingSend (upPiecesLocPacket fi.id fields)
      firstField fields
      pure KeepAlive.no) h := by
  simp only [createNewFile, bind_assoc]
  apply Program.follows_bind
  refine (follows_searchName fi.name fuel 0 hquiet).mono ?_
  rintro (e | name) h' ⟨hquiet', hfree⟩
  · exact ends_of_quiet hquiet'
  refine disciplined_cmdGet hquiet' fun json mof hmof => ?_
  rw [Record.files?_eq_some.mp hmof]
  set fi' : FileItem := { fi with name := name, id := mof.count } with hfi'
  set hread : CommandHistory Record := ⟨.get filesKey, some (.files mof)⟩ :: h'
  set hcount : CommandHistory Record := ⟨.put filesKey (.files (addFile mof fi')), ()⟩ :: hread
  set hfile : CommandHistory Record := ⟨.put (fileKey name) (.file fi'), ()⟩ :: hcount
  have hputs : putsOf hread = [] :=
    putsOf_of_quiet (hquiet'.cons (show Minor (.get filesKey) from trivial) _)
  have hfreeName : lastRead hcount (fileKey name) = none := by
    rw [lastRead_put_of_ne fileKey_ne_filesKey, lastRead_get_of_ne fileKey_ne_filesKey,
      hfree name rfl]
  have hcounted : putsOf hcount = [(filesKey, .files (addFile mof fi'))] :=
    congrArg (List.cons _) hputs
  have hdone : UploadDone hfile fi' := ⟨mof, rfl, congrArg (List.cons _) hcounted⟩
  refine ⟨.count mof fi' hputs rfl rfl, fun _ => ⟨.file mof fi' hcounted rfl hfreeName, fun _ =>
    ⟨.inr (.inl ⟨fi', fields, hdone, rfl⟩), fun _ => ?_⟩⟩⟩
  unfold firstField
  split
  · exact .inr (.inl ⟨fi', hdone, fields, List.mem_cons_self⟩)
  · exact .inr (.inl ⟨fi', hdone, fields, List.mem_cons_self⟩)

theorem disciplined_cmUpReq (r : Request) : Disciplined (cmUpReq r) [] := by
  refine disciplined_bind (Program.all_ofOption _ _) nofun fun ⟨req, fname⟩ h₁ hquiet₁ => ?_
  refine disciplined_bind (minor_numberOfParts _) hquiet₁ fun nbParts h₂ hquiet₂ => ?_
  split
  · exact disciplined_of_minor (minor_sendError _ _) hquiet₂
  refine disciplined_bind (minor_getStpfieldsForUpload _ _ _) hquiet₂ fun fields h₃ hquiet₃ => ?_
  split
  · exact disciplined_of_minor (minor_sendError _ _) hquiet₃
  exact disciplined_create _ _ _ hquiet₃

theorem disciplined_smIdReq (r : Request) : Disciplined (smIdReq r) [] := by
  refine disciplined_cmdGet nofun fun json mos hmos => ?_
  rw [Record.storages?_eq_some.mp hmos]
  cases r.env.remoteAddress with
  | none => exact .inl rfl
  | some hostAddr =>
      cases readIdReq r.packet with
      | none => exact .inl rfl
      | some req =>
          set si : StorageItem := ⟨mos.count, hostAddr, req.port, req.avspace⟩
          set hget : CommandHistory Record := [⟨.get storagesKey, some (.storages mos)⟩]
          set hstorage : CommandHistory Record := ⟨.put (storageKey si.id) (.storage si), ()⟩ :: hget
          set htotal : CommandHistory Record :=
            ⟨.put storagesKey (.storages (addStorage mos si)), ()⟩ :: hstorage
          have hne : storagesKey ≠ storageKey si.id := storageKey_ne_storagesKey.symm
          have hdone : RegistrationDone htotal si := ⟨mos, rfl, rfl⟩
          refine ⟨.storage mos si rfl (if_pos rfl) rfl (if_neg hne.symm), fun _ =>
            ⟨.total mos si rfl ?_ rfl, fun _ =>
              ⟨.inr (.inr ⟨si, hdone, rfl⟩), fun _ => .inr (.inr ⟨si, hdone, ?_⟩)⟩⟩⟩
          · exact (if_neg hne).trans (if_pos rfl)
          · exact List.mem_cons_self

end Thread

/-! ### All threads -/

section Threads

variable {ι : Type} {c c' : Threads Record ι} {n m : ℕ} {i : ι} {key key' : Bytes} {record : Record}

def puts {V : Type} (c : Threads V ι) (i : ι) : List (Bytes × V) := putsOf (c.threads i).history

def writers (c : Threads Record ι) (key : Bytes) : Set ι := {i | ∃ record, (key, record) ∈ puts c i}

theorem mem_writers : i ∈ writers c key ↔ ∃ record, (key, record) ∈ puts c i := Iff.rfl

/-- The files are numbered from `n` on, one number for each thread that counted one. -/
structure FilesNumbered (n : ℕ) (c : Threads Record ι) : Prop where
  files : ∃ mof, c.store.database.lookup filesKey = some (.files mof) ∧
    mof.count.toNat = n + (writers c filesKey).ncard
  count_le : ∀ i mof mof', c.store.database.lookup filesKey = some (.files mof) →
    (filesKey, .files mof') ∈ puts c i → mof'.count.toNat ≤ mof.count.toNat
  count_ne : ∀ i j mof mof', i ≠ j → (filesKey, .files mof) ∈ puts c i →
    (filesKey, .files mof') ∈ puts c j → mof.count ≠ mof'.count

def StoragesNumbered (m : ℕ) (c : Threads Record ι) : Prop :=
  ∃ mos, c.store.database.lookup storagesKey = some (.storages mos) ∧
    mos.count.toNat = m + (writers c storagesKey).ncard

def Counter (key : Bytes) : Prop := key = filesKey ∨ key = storagesKey

structure Kept (c : Threads Record ι) : Prop where
  kept : ∀ i key record, ¬ Counter key → (key, record) ∈ puts c i →
    c.store.database.lookup key = some record
  apart : ∀ i j key record record', i ≠ j → ¬ Counter key → (key, record) ∈ puts c i →
    (key, record') ∉ puts c j

structure Wrote (c c' : Threads Record ι) (i : ι) (key : Bytes) (record : Record) : Prop where
  database : c'.store.database = c.store.database.insert key record
  self : puts c' i = (key, record) :: puts c i
  other : ∀ j, j ≠ i → puts c' j = puts c j

theorem Wrote.mem_iff (h : Wrote c c' i key record) {j : ι} {entry : Bytes × Record} :
    entry ∈ puts c' j ↔ (j = i ∧ entry = (key, record)) ∨ entry ∈ puts c j := by
  by_cases hj : j = i
  · rw [hj, h.self, List.mem_cons]
    simp
  · rw [h.other j hj]
    simp [hj]

theorem Wrote.mem_of_ne (h : Wrote c c' i key record) (hne : key' ≠ key) {j : ι}
    {record' : Record} : (key', record') ∈ puts c' j ↔ (key', record') ∈ puts c j := by
  rw [h.mem_iff]
  simp [hne]

theorem Wrote.writers_of_ne (h : Wrote c c' i key record) (hne : key' ≠ key) :
    writers c' key' = writers c key' := by
  ext j
  simp only [mem_writers, h.mem_of_ne hne]

theorem Wrote.writers_self [Finite ι] (h : Wrote c c' i key record)
    (hnot : i ∉ writers c key) : (writers c' key).ncard = (writers c key).ncard + 1 := by
  have hinsert : writers c' key = insert i (writers c key) := by
    ext j
    rw [Set.mem_insert_iff]
    constructor
    · rintro ⟨record', hmem⟩
      rcases h.mem_iff.mp hmem with ⟨hj, -⟩ | hmem
      · exact .inl hj
      · exact .inr ⟨record', hmem⟩
    · rintro (rfl | ⟨record', hmem⟩)
      · exact ⟨record, h.mem_iff.mpr (.inl ⟨rfl, rfl⟩)⟩
      · exact ⟨record', h.mem_iff.mpr (.inr hmem)⟩
  rw [hinsert, Set.ncard_insert_of_notMem hnot (Set.toFinite _)]

theorem FilesNumbered.frame (h : FilesNumbered n c) (hwrote : Wrote c c' i key record)
    (hne : key ≠ filesKey) : FilesNumbered n c' := by
  have hlookup : c'.store.database.lookup filesKey = c.store.database.lookup filesKey := by
    rw [hwrote.database, AList.lookup_insert_ne hne.symm]
  refine ⟨?_, ?_, ?_⟩
  · rw [hlookup, hwrote.writers_of_ne hne.symm]
    exact h.files
  · simp only [hlookup, hwrote.mem_of_ne hne.symm]
    exact h.count_le
  · simp only [hwrote.mem_of_ne hne.symm]
    exact h.count_ne

theorem StoragesNumbered.frame (h : StoragesNumbered m c) (hwrote : Wrote c c' i key record)
    (hne : key ≠ storagesKey) : StoragesNumbered m c' := by
  rw [StoragesNumbered, hwrote.database, AList.lookup_insert_ne hne.symm,
    hwrote.writers_of_ne hne.symm]
  exact h

theorem Kept.frame (h : Kept c) (hwrote : Wrote c c' i key record) (hcounter : Counter key) :
    Kept c' := by
  have hne {key' : Bytes} (hkey' : ¬ Counter key') : key' ≠ key := by
    rintro rfl
    exact hkey' hcounter
  constructor
  · intro j key' record' hkey' hmem
    rw [hwrote.database, AList.lookup_insert_ne (hne hkey')]
    exact h.kept j key' record' hkey' ((hwrote.mem_of_ne (hne hkey')).mp hmem)
  · intro j k key' record₁ record₂ hjk hkey' hj hk
    exact h.apart j k key' record₁ record₂ hjk hkey' ((hwrote.mem_of_ne (hne hkey')).mp hj)
      ((hwrote.mem_of_ne (hne hkey')).mp hk)

theorem FilesNumbered.count [Finite ι] (h : FilesNumbered n c) {mof : MetaOnFilesItem}
    {fi : FileItem} (hwrote : Wrote c c' i filesKey (.files (addFile mof fi)))
    (hputs : puts c i = []) {old : MetaOnFilesItem}
    (hfiles : c.store.database.lookup filesKey = some (.files old)) (hsame : old.count = mof.count)
    (hwrap : (addFile mof fi).count ≠ 0) : FilesNumbered n c' := by
  have hsucc : (addFile mof fi).count.toNat = mof.count.toNat + 1 := by
    rw [Ne, ← UInt64.toNat_inj] at hwrap
    simp only [addFile, UInt64.toNat_add] at hwrap ⊢
    have := mof.count.toNat_lt
    change ¬ (mof.count.toNat + 1) % 2 ^ 64 = 0 at hwrap
    change (mof.count.toNat + 1) % 2 ^ 64 = _
    omega
  have hlt (j : ι) (mof' : MetaOnFilesItem) (hmem : (filesKey, .files mof') ∈ puts c j) :
      mof'.count.toNat < (addFile mof fi).count.toNat := by
    have := h.count_le j old mof' hfiles hmem
    rw [hsame] at this
    omega
  have hnot : i ∉ writers c filesKey := by
    rintro ⟨record, hmem⟩
    rw [hputs] at hmem
    cases hmem
  have hlookup : c'.store.database.lookup filesKey = some (.files (addFile mof fi)) := by
    rw [hwrote.database, AList.lookup_insert]
  refine ⟨⟨addFile mof fi, hlookup, ?_⟩, ?_, ?_⟩
  · obtain ⟨mof', hmof', hcount⟩ := h.files
    rw [hfiles, Option.some_inj, Record.files.injEq] at hmof'
    rw [hwrote.writers_self hnot, hsucc, ← hsame, hmof', hcount]
    rfl
  · intro j mof₁ mof₂ hmof₁ hmem
    rw [hlookup, Option.some_inj, Record.files.injEq] at hmof₁
    rw [← hmof₁]
    rcases hwrote.mem_iff.mp hmem with ⟨-, heq⟩ | hmem
    · cases heq
      exact le_rfl
    · exact (hlt j mof₂ hmem).le
  · intro j k mof₁ mof₂ hjk hj hk heq
    rcases hwrote.mem_iff.mp hj with ⟨rfl, hj⟩ | hj <;>
      rcases hwrote.mem_iff.mp hk with ⟨rfl, hk⟩ | hk
    · exact hjk rfl
    · cases hj
      exact (hlt k mof₂ hk).ne (congrArg UInt64.toNat heq).symm
    · cases hk
      exact (hlt j mof₁ hj).ne (congrArg UInt64.toNat heq)
    · exact h.count_ne j k mof₁ mof₂ hjk hj hk heq

theorem StoragesNumbered.total [Finite ι] (h : StoragesNumbered m c) {mos : MetaOnStoragesItem}
    {si : StorageItem} (hwrote : Wrote c c' i storagesKey (.storages (addStorage mos si)))
    (hnot : i ∉ writers c storagesKey)
    (hstorages : c.store.database.lookup storagesKey = some (.storages mos))
    (hwrap : (addStorage mos si).count ≠ 0) : StoragesNumbered m c' := by
  have hsucc : (addStorage mos si).count.toNat = mos.count.toNat + 1 := by
    rw [Ne, ← UInt32.toNat_inj] at hwrap
    simp only [addStorage, UInt32.toNat_add] at hwrap ⊢
    have := mos.count.toNat_lt
    change ¬ (mos.count.toNat + 1) % 2 ^ 32 = 0 at hwrap
    change (mos.count.toNat + 1) % 2 ^ 32 = _
    omega
  obtain ⟨mos', hmos', hcount⟩ := h
  rw [hstorages, Option.some_inj, Record.storages.injEq] at hmos'
  refine ⟨addStorage mos si, ?_, ?_⟩
  · rw [hwrote.database, AList.lookup_insert]
  · rw [hwrote.writers_self hnot, hsucc, hmos', hcount]
    rfl

theorem Kept.write (h : Kept c) (hwrote : Wrote c c' i key record) (hkey : ¬ Counter key)
    (hfree : c.store.database.lookup key = none) : Kept c' := by
  have hnew (j : ι) (record' : Record) : (key, record') ∉ puts c j := by
    intro hmem
    have := h.kept j key record' hkey hmem
    rw [hfree] at this
    cases this
  constructor
  · intro j key' record' hkey' hmem
    rcases hwrote.mem_iff.mp hmem with ⟨-, heq⟩ | hmem
    · cases heq
      rw [hwrote.database, AList.lookup_insert]
    · have hne : key' ≠ key := by
        rintro rfl
        exact hnew j record' hmem
      rw [hwrote.database, AList.lookup_insert_ne hne]
      exact h.kept j key' record' hkey' hmem
  · intro j k key' record₁ record₂ hjk hkey' hj hk
    rcases hwrote.mem_iff.mp hj with ⟨rfl, hj⟩ | hj <;>
      rcases hwrote.mem_iff.mp hk with ⟨rfl, hk⟩ | hk
    · exact hjk rfl
    · cases hj
      exact hnew k record₂ hk
    · cases hk
      exact hnew j record₁ hj
    · exact h.apart j k key' record₁ record₂ hjk hkey' hj hk

def IsItem {V : Type} [Coding V] (value : V) : Prop :=
  (Coding.file? value).isSome ∨ (Coding.storage? value).isSome

theorem not_isItem_files (mof : MetaOnFilesItem) : ¬IsItem (Record.files mof) := by
  rintro (hfile | hstorage)
  · cases hfile
  · cases hstorage

theorem not_isItem_storages (mos : MetaOnStoragesItem) : ¬IsItem (Record.storages mos) := by
  rintro (hfile | hstorage)
  · cases hfile
  · cases hstorage

structure Sound (n m : ℕ) (c : Threads Record ι) : Prop where
  files : FilesNumbered n c
  storages : StoragesNumbered m c
  kept : Kept c
  items : ∀ i key record, (key, record) ∈ puts c i → IsItem record → ¬ Counter key
  accepted : ∀ i fid, Accepted (c.threads i).history fid →
    ∃ fi, fi.id = fid ∧ UploadDone (c.threads i).history fi
  registered : ∀ i stid, Registered (c.threads i).history stid →
    ∃ si, si.id = stid ∧ RegistrationDone (c.threads i).history si

theorem not_counter_fileKey (name : Bytes) : ¬ Counter (fileKey name) := by
  rintro (h | h)
  · exact fileKey_ne_filesKey h
  · exact fileKey_ne_storagesKey h

theorem not_counter_storageKey (id : StidType) : ¬ Counter (storageKey id) := by
  rintro (h | h)
  · exact filesKey_ne_storageKey h.symm
  · exact storageKey_ne_storagesKey h

theorem Sound.write (h : Sound n m c) (hwrote : Wrote c c' i key record)
    (hhistory : ∀ j, j ≠ i → (c'.threads j).history = (c.threads j).history)
    (hself : (c'.threads i).history = ⟨.put key record, ()⟩ :: (c.threads i).history)
    (hfew : (puts c i).length ≤ 1) (hitem : IsItem record → ¬ Counter key)
    (hfiles : FilesNumbered n c') (hstorages : StoragesNumbered m c') (hkept : Kept c') :
    Sound n m c' := by
  refine ⟨hfiles, hstorages, hkept, ?_, ?_, ?_⟩
  · intro j key' record' hmem hrecord
    rcases hwrote.mem_iff.mp hmem with ⟨-, heq⟩ | hmem
    · cases heq
      exact hitem hrecord
    · exact h.items j key' record' hmem hrecord
  · intro j fid haccepted
    by_cases hj : j = i
    · rw [hj, hself] at haccepted
      obtain ⟨fields, hmem⟩ := haccepted
      rcases List.mem_cons.mp hmem with heq | hmem
      · cases heq
      · obtain ⟨fi, -, mof, -, hputs⟩ := h.accepted i fid ⟨fields, hmem⟩
        rw [puts, hputs] at hfew
        exact absurd hfew (by simp)
    · rw [hhistory j hj] at haccepted ⊢
      exact h.accepted j fid haccepted
  · intro j stid hregistered
    by_cases hj : j = i
    · rw [hj, hself] at hregistered
      rcases List.mem_cons.mp hregistered with heq | hmem
      · cases heq
      · obtain ⟨si, -, mos, -, hputs⟩ := h.registered i stid hmem
        rw [puts, hputs] at hfew
        exact absurd hfew (by simp)
    · rw [hhistory j hj] at hregistered ⊢
      exact h.registered j stid hregistered

theorem Sound.congr (h : Sound n m c) (hdatabase : c'.store.database = c.store.database)
    (hputs : puts c' = puts c)
    (haccepted : ∀ i fid, Accepted (c'.threads i).history fid →
      ∃ fi, fi.id = fid ∧ UploadDone (c'.threads i).history fi)
    (hregistered : ∀ i stid, Registered (c'.threads i).history stid →
      ∃ si, si.id = stid ∧ RegistrationDone (c'.threads i).history si) : Sound n m c' := by
  have hwriters : writers c' = writers c := by
    funext key
    rw [writers, writers, hputs]
  refine ⟨⟨?_, ?_, ?_⟩, ?_, ⟨?_, ?_⟩, ?_, haccepted, hregistered⟩
  · rw [hdatabase, hwriters]
    exact h.files.files
  · rw [hdatabase, hputs]
    exact h.files.count_le
  · rw [hputs]
    exact h.files.count_ne
  · rw [StoragesNumbered, hdatabase, hwriters]
    exact h.storages
  · rw [hdatabase, hputs]
    exact h.kept.kept
  · rw [hputs]
    exact h.kept.apart
  · rw [hputs]
    exact h.items

theorem upPiecesLocPacket_inj {fid fid' : FidType} {fields fields' : List StpField}
    (h : upPiecesLocPacket fid fields = upPiecesLocPacket fid' fields') : fid = fid' :=
  Layout.image_injective (congrArg Packet.front h)

theorem fidInfoPacket_inj {stid stid' : StidType} (h : fidInfoPacket stid = fidInfoPacket stid') :
    stid = stid' := by
  have hinfo : MS.FidInfo.mk stid = MS.FidInfo.mk stid' :=
    Layout.image_injective (congrArg Packet.front h)
  cases hinfo
  rfl

theorem fidInfoPacket_ne {fid : FidType} {fields : List StpField} {stid : StidType} :
    fidInfoPacket stid ≠ upPiecesLocPacket fid fields := by
  intro h
  have hfromto : MS.fromto = MC.fromto := congrArg Packet.fromtoGet h
  exact fromto_ne hfromto

theorem database_of_may {command : Command Record} {w w' : World Record} {answer : command.Answer}
    (hmay : may command w answer w') (hput : ∀ key record, command ≠ .put key record) :
    w'.database = w.database := by
  cases command with
  | put key record => exact absurd rfl (hput key record)
  | statics => rw [show w' = w from hmay]
  | get key => rw [show w' = w from congrArg Prod.snd hmay]
  | setStatics statics => rw [show w' = { w with statics } from congrArg Prod.snd hmay]
  | send packet => rw [show w' = { w with sent := w.sent ++ [packet] } from congrArg Prod.snd hmay]

theorem putsOf_cons {command : Command Record} (hput : ∀ key record, command ≠ .put key record)
    (answer : command.Answer) (h : CommandHistory Record) :
    putsOf (⟨command, answer⟩ :: h) = putsOf h := by
  cases command with
  | put key record => exact absurd rfl (hput key record)
  | _ => rfl

/-! ### What the threads are to each other -/

def Finished {V : Type} (c : Threads V ι) : Prop :=
  ∀ i command next, (c.threads i).program ≠ .op command next

/-- Accepted uploads have numbers and keys of their own, registrations have numbers of their own, no
item of one request is overwritten by another, and in the end the counters have grown by as many as
were accepted. -/
structure Isolated {V : Type} [Coding V] (n m : ℕ) (c : Threads V ι) : Prop where
  fids : ∀ i j fid fid', i ≠ j → Accepted (c.threads i).history fid →
    Accepted (c.threads j).history fid' → fid ≠ fid'
  stids : ∀ i j stid stid', i ≠ j → Registered (c.threads i).history stid →
    Registered (c.threads j).history stid' → stid ≠ stid'
  uploaded : ∀ i fid, Accepted (c.threads i).history fid → ∃ fi value, fi.id = fid ∧
    Coding.file? value = some fi ∧ (fileKey fi.name, value) ∈ puts c i
  keys : ∀ i j key key' value value', i ≠ j → (key, value) ∈ puts c i →
    (key', value') ∈ puts c j → IsItem value → IsItem value' → key ≠ key'
  kept : ∀ i key value, (key, value) ∈ puts c i → IsItem value →
    (c.store.database.lookup key).bind Coding.file? = Coding.file? value ∧
      (c.store.database.lookup key).bind Coding.storage? = Coding.storage? value
  counts : Finished c → ∃ mof mos,
    (c.store.database.lookup filesKey).bind Coding.files? = some mof ∧
    (c.store.database.lookup storagesKey).bind Coding.storages? = some mos ∧
    mof.count.toNat = n + {i | ∃ fid, Accepted (c.threads i).history fid}.ncard ∧
    mos.count.toNat = m + {i | ∃ stid, Registered (c.threads i).history stid}.ncard

theorem Sound.isolated (h : Sound n m c)
    (hfollows : ∀ i, Disciplined (c.threads i).program (c.threads i).history) :
    Isolated n m c := by
  refine ⟨?_, ?_, ?_, ?_, ?_, ?_⟩
  · intro i j fid fid' hij hi hj heq
    obtain ⟨fi, rfl, mof, hid, hputs⟩ := h.accepted i fid hi
    obtain ⟨fi', rfl, mof', hid', hputs'⟩ := h.accepted j fid' hj
    refine h.files.count_ne i j (addFile mof fi) (addFile mof' fi') hij ?_ ?_ ?_
    · simp [puts, hputs]
    · simp [puts, hputs']
    · rw [addFile, addFile, ← hid, ← hid', heq]
  · intro i j stid stid' hij hi hj heq
    obtain ⟨si, rfl, mos, -, hputs⟩ := h.registered i stid hi
    obtain ⟨si', rfl, mos', -, hputs'⟩ := h.registered j stid' hj
    refine h.kept.apart i j (storageKey si.id) (.storage si) (.storage si') hij
      (not_counter_storageKey _) ?_ ?_
    · simp [puts, hputs]
    · simp [puts, hputs', heq]
  · intro i fid hi
    obtain ⟨fi, hid, mof, -, hputs⟩ := h.accepted i fid hi
    exact ⟨fi, .file fi, hid, rfl, by simp [puts, hputs]⟩
  · rintro i j key key' record record' hij hi hj hitem hitem' rfl
    exact h.kept.apart i j key record record' hij (h.items i key record hi hitem) hi hj
  · intro i key record hmem hitem
    rw [h.kept.kept i key record (h.items i key record hmem hitem) hmem]
    exact ⟨rfl, rfl⟩
  · intro hfinished
    have hends (i : ι) : Ends (c.threads i).history := by
      have hi := hfollows i
      cases hprogram : (c.threads i).program with
      | op command next => exact absurd hprogram (hfinished i command next)
      | pure a => rwa [hprogram] at hi
      | throw e => rwa [hprogram] at hi
    obtain ⟨mof, hmof, hcount⟩ := h.files.files
    obtain ⟨mos, hmos, hcount'⟩ := h.storages
    refine ⟨mof, mos, by rw [hmof]; rfl, by rw [hmos]; rfl, ?_, ?_⟩
    · rw [hcount]
      congr 2
      ext i
      constructor
      · rintro ⟨record, hmem⟩
        rcases hends i with hnone | ⟨fi, -, haccepted⟩ | ⟨si, ⟨mos', -, hputs⟩, -⟩
        · rw [puts, hnone] at hmem
          cases hmem
        · exact ⟨fi.id, haccepted⟩
        · simp only [puts, hputs, List.mem_cons, Prod.mk.injEq, List.not_mem_nil, or_false] at hmem
          rcases hmem with ⟨heq, -⟩ | ⟨heq, -⟩
          · exact absurd heq filesKey_ne_storagesKey
          · exact absurd heq filesKey_ne_storageKey
      · rintro ⟨fid, haccepted⟩
        obtain ⟨fi, -, mof', -, hputs⟩ := h.accepted i fid haccepted
        exact ⟨_, by simp only [puts, hputs]; exact .tail _ (.head _)⟩
    · rw [hcount']
      congr 2
      ext i
      constructor
      · rintro ⟨record, hmem⟩
        rcases hends i with hnone | ⟨fi, ⟨mof', -, hputs⟩, -⟩ | ⟨si, -, hregistered⟩
        · rw [puts, hnone] at hmem
          cases hmem
        · simp only [puts, hputs, List.mem_cons, Prod.mk.injEq, List.not_mem_nil, or_false] at hmem
          rcases hmem with ⟨heq, -⟩ | ⟨heq, -⟩
          · exact absurd heq.symm fileKey_ne_storagesKey
          · exact absurd heq.symm filesKey_ne_storagesKey
        · exact ⟨si.id, hregistered⟩
      · rintro ⟨stid, hregistered⟩
        obtain ⟨si, -, mos', -, hputs⟩ := h.registered i stid hregistered
        exact ⟨_, by simp only [puts, hputs]; exact .head _⟩

theorem sound_startJobs {w : World Record} {jobs : ι → Job} {mof : MetaOnFilesItem}
    {mos : MetaOnStoragesItem} (hfiles : w.database.lookup filesKey = some (.files mof))
    (hstorages : w.database.lookup storagesKey = some (.storages mos)) :
    Sound mof.count.toNat mos.count.toNat (startJobs w jobs) := by
  have hwriters (key : Bytes) : writers (startJobs w jobs) key = ∅ := by
    ext i
    constructor
    · rintro ⟨record, hmem⟩
      cases hmem
    · nofun
  refine ⟨⟨⟨mof, hfiles, ?_⟩, nofun, nofun⟩, ⟨mos, hstorages, ?_⟩, ⟨nofun, nofun⟩, nofun, ?_, nofun⟩
  · rw [hwriters, Set.ncard_empty]
    rfl
  · rw [hwriters, Set.ncard_empty]
    rfl
  · rintro i fid ⟨fields, hmem⟩
    cases hmem

/-! ### Whole runs -/

variable [DecidableEq ι]

theorem Sound.step_of_ne_put (hsound : Sound n m c) {command : Command Record}
    {next : command.Answer → Handler Record KeepAlive} {h : CommandHistory Record}
    {answer : command.Answer}
    {store : World Record} (hthread : c.threads i = ⟨.op command next, h⟩)
    (hmay : may command c.store answer store) (hput : ∀ key record, command ≠ .put key record)
    (hup : ∀ fid fields, command = .send (upPiecesLocPacket fid fields) →
      ∃ fi, fi.id = fid ∧ UploadDone h fi)
    (hreg : ∀ stid, command = .send (fidInfoPacket stid) →
      ∃ si, si.id = stid ∧ RegistrationDone h si) :
    Sound n m (c.set i ⟨next answer, ⟨command, answer⟩ :: h⟩ store) := by
  have hhistory : (c.threads i).history = h := by rw [hthread]
  refine hsound.congr (database_of_may hmay hput) ?_ ?_ ?_
  · funext j
    by_cases hj : j = i
    · rw [hj, puts, Program.Pool.threads_set_self, puts, hhistory, putsOf_cons hput]
    · rw [puts, Program.Pool.threads_set_of_ne c hj, puts]
  · intro j fid haccepted
    by_cases hj : j = i
    · rw [hj, Program.Pool.threads_set_self] at haccepted ⊢
      simp only [UploadDone, putsOf_cons hput]
      obtain ⟨fields, hmem⟩ := haccepted
      rcases List.mem_cons.mp hmem with heq | hmem
      · exact hup fid fields (congrArg Sigma.fst heq).symm
      · exact hhistory ▸ hsound.accepted i fid ⟨fields, hhistory.symm ▸ hmem⟩
    · rw [Program.Pool.threads_set_of_ne c hj] at haccepted ⊢
      exact hsound.accepted j fid haccepted
  · intro j stid hregistered
    by_cases hj : j = i
    · rw [hj, Program.Pool.threads_set_self] at hregistered ⊢
      simp only [RegistrationDone, putsOf_cons hput]
      rcases List.mem_cons.mp hregistered with heq | hmem
      · exact hreg stid (congrArg Sigma.fst heq).symm
      · exact hhistory ▸ hsound.registered i stid (hhistory.symm ▸ hmem)
    · rw [Program.Pool.threads_set_of_ne c hj] at hregistered ⊢
      exact hsound.registered j stid hregistered

/-- The same record, or files of the same count. -/
def Agrees : Record → Record → Prop
  | .files mof, .files mof' => mof.count = mof'.count
  | record, record' => record = record'

/-- As `CasSucceeds`, except that of the files only the count is compared. -/
def CasAgrees (w : World Record) (h : CommandHistory Record) : Command Record → Prop
  | .put key record => Option.Rel Agrees (w.database.lookup key) (lastRead h key) ∧ NotWrapped record
  | _ => True

section Agrees

variable {found known : Option Record}

theorem eq_none_of_agrees (h : Option.Rel Agrees found known) (hknown : known = none) :
    found = none := by
  rw [hknown] at h
  cases h
  rfl

theorem files_of_agrees (h : Option.Rel Agrees found known) {mof : MetaOnFilesItem}
    (hknown : known = some (.files mof)) :
    ∃ old, found = some (.files old) ∧ old.count = mof.count := by
  rw [hknown] at h
  cases h with
  | @some record _ hagrees =>
      cases record with
      | files old => exact ⟨old, rfl, hagrees⟩
      | _ => cases hagrees

theorem storages_of_agrees (h : Option.Rel Agrees found known) {mos : MetaOnStoragesItem}
    (hknown : known = some (.storages mos)) : found = some (.storages mos) := by
  rw [hknown] at h
  cases h with
  | @some record _ hagrees =>
      cases record with
      | files old => cases hagrees
      | _ => exact congrArg some hagrees

end Agrees

/-- **One command.** A command that a thread's own discipline allows keeps the pool sound, if its
compare-and-swap would succeed. -/
theorem Sound.step [Finite ι] (hsound : Sound n m c) {command : Command Record}
    {next : command.Answer → Handler Record KeepAlive} {h : CommandHistory Record}
    {answer : command.Answer}
    {store : World Record} (hthread : c.threads i = ⟨.op command next, h⟩)
    (hdiscipline : Discipline h command) (hcas : CasAgrees c.store h command)
    (hmay : may command c.store answer store) :
    Sound n m (c.set i ⟨next answer, ⟨command, answer⟩ :: h⟩ store) := by
  set c' := c.set i ⟨next answer, ⟨command, answer⟩ :: h⟩ store with hc'
  have hself : (c'.threads i).history = ⟨command, answer⟩ :: h := by
    rw [hc', Program.Pool.threads_set_self]
  have hother (j : ι) (hj : j ≠ i) : c'.threads j = c.threads j :=
    Program.Pool.threads_set_of_ne c hj _ _
  have hhistory : (c.threads i).history = h := by rw [hthread]
  cases command with
  | put key record =>
      have hwrote : Wrote c c' i key record := by
        refine ⟨?_, ?_, ?_⟩
        · exact congrArg World.database (congrArg Prod.snd hmay : store = c.store.put key record)
        · rw [puts, hself, puts, hhistory]
          rfl
        · intro j hj
          rw [puts, hother j hj, puts]
      have hputs : puts c i = putsOf h := by rw [puts, hhistory]
      obtain ⟨hlookup, hwrap⟩ := hcas
      have hwrite := @Sound.write _ _ _ _ _ _ _ _ hsound hwrote
        (fun j hj => by rw [hother j hj]) (by rw [hself, hhistory]; rfl)
      cases hdiscipline with
      | count mof fi hnone hread hid =>
          rw [← hputs] at hnone
          obtain ⟨old, hold, hsame⟩ := files_of_agrees hlookup hread
          refine hwrite (by simp [hnone]) (absurd · (not_isItem_files _)) ?_ ?_ ?_
          · exact hsound.files.count hwrote hnone hold hsame (hwrap.1 _ rfl)
          · exact hsound.storages.frame hwrote filesKey_ne_storagesKey
          · exact hsound.kept.frame hwrote (.inl rfl)
      | file mof fi hone hid hfree =>
          rw [← hputs] at hone
          refine hwrite (by simp [hone]) (fun _ => not_counter_fileKey _) ?_ ?_ ?_
          · exact hsound.files.frame hwrote fileKey_ne_filesKey
          · exact hsound.storages.frame hwrote fileKey_ne_storagesKey
          · exact hsound.kept.write hwrote (not_counter_fileKey _) (eq_none_of_agrees hlookup hfree)
      | storage mos si hnone hread hid hfree =>
          rw [← hputs] at hnone
          refine hwrite (by simp [hnone]) (fun _ => not_counter_storageKey _) ?_ ?_ ?_
          · exact hsound.files.frame hwrote filesKey_ne_storageKey.symm
          · exact hsound.storages.frame hwrote storageKey_ne_storagesKey
          · exact hsound.kept.write hwrote (not_counter_storageKey _) (eq_none_of_agrees hlookup hfree)
      | total mos si hone hread hid =>
          rw [← hputs] at hone
          refine hwrite (by simp [hone]) (absurd · (not_isItem_storages _)) ?_ ?_ ?_
          · exact hsound.files.frame hwrote filesKey_ne_storagesKey.symm
          · refine hsound.storages.total hwrote ?_ (storages_of_agrees hlookup hread) (hwrap.2 _ rfl)
            rintro ⟨record, hmem⟩
            rw [hone, List.mem_singleton] at hmem
            cases hmem
          · exact hsound.kept.frame hwrote (.inr rfl)
  | send p =>
      refine hsound.step_of_ne_put hthread hmay nofun ?_ ?_
      · intro fid fields heq
        obtain rfl : p = upPiecesLocPacket fid fields := Command.send.inj heq
        rcases hdiscipline with hminor | ⟨fi, fields', hdone, hp⟩ | ⟨si, -, hp⟩
        · exact absurd ⟨rfl, rfl⟩ hminor.1
        · exact ⟨fi, (upPiecesLocPacket_inj hp).symm, hdone⟩
        · exact absurd hp.symm fidInfoPacket_ne
      · intro stid heq
        obtain rfl : p = fidInfoPacket stid := Command.send.inj heq
        rcases hdiscipline with hminor | ⟨fi, fields', -, hp⟩ | ⟨si, hdone, hp⟩
        · exact absurd ⟨rfl, rfl⟩ hminor.2
        · exact absurd hp fidInfoPacket_ne
        · exact ⟨si, (fidInfoPacket_inj hp).symm, hdone⟩
  | get key => exact hsound.step_of_ne_put hthread hmay nofun nofun nofun
  | statics => exact hsound.step_of_ne_put hthread hmay nofun nofun nofun
  | setStatics statics => exact hsound.step_of_ne_put hthread hmay nofun nofun nofun

theorem disciplined_handler (job : Job) : Disciplined job.handler [] := by
  cases job with
  | upload r => exact disciplined_cmUpReq r
  | register r => exact disciplined_smIdReq r

/-- **Isolation.** In every run of uploads and registrations in which each write finds under its key
what its thread knows of it, and no counter starts again at zero, the requests are isolated from each
other in every state that is reached. -/
theorem isolated_of_casAgrees [Finite ι] {w : World Record} {jobs : ι → Job} {mof : MetaOnFilesItem}
    {mos : MetaOnStoragesItem} (hfiles : w.database.lookup filesKey = some (.files mof))
    (hstorages : w.database.lookup storagesKey = some (.storages mos)) {c : Threads Record ι}
    (hreach : Program.Pool.Reachable may CasAgrees (startJobs w jobs) c) :
    Isolated mof.count.toNat mos.count.toNat c := by
  obtain ⟨hsound, hfollows⟩ := Program.Pool.invariant_of_reachable
    (Sound mof.count.toNat mos.count.toNat) (fun i => disciplined_handler (jobs i))
    (sound_startJobs hfiles hstorages)
    (fun c i command next h answer store hsound hthread hdiscipline hcas hmay =>
      hsound.step hthread hdiscipline hcas hmay) hreach
  exact hsound.isolated hfollows

end Threads

theorem may_exec {V : Type} (command : Command V) (w : World V) :
    may command w (exec command w).1 (exec command w).2 := by
  cases command <;> rfl

end Mp2p.Master
