import Mp2p.Lib.Faults
import Mp2p.Proof.Names
import Mp2p.Proof.Requests

/-!
# A command of the database that fails

An upload and a registration each write two records, one after the other, with no way back, and an
upload takes a name for free when it cannot read it. One failing command leaves the records linked
unless it is the look at a name that is taken or the second write of an upload.
-/

namespace Mp2p.Master

open Masks Network DB DB.Tools

/-- The records of a database lead to each other: the numbers given out to names, the names to
files, the numbers of the storages to storages, and nothing else is under their keys. -/
structure Linked (db : Database Record) (mof : MetaOnFilesItem) (mos : MetaOnStoragesItem) :
    Prop where
  files : db.lookup filesKey = some (.files mof)
  mem_nameById : ∀ id, id ∈ mof.nameById ↔ id < mof.count
  file_of_name : ∀ id name, mof.nameById.lookup id = some name →
    ∃ fi, db.lookup (fileKey name) = some (.file fi) ∧ fi.id = id
  name_of_key : ∀ name, (db.lookup (fileKey name)).isSome →
    ∃ id, mof.nameById.lookup id = some name
  storages : db.lookup storagesKey = some (.storages mos)
  storage_of_id : ∀ id < mos.count, ∃ si, db.lookup (storageKey id) = some (.storage si)
  id_of_key : ∀ id, (db.lookup (storageKey id)).isSome → id < mos.count

/-- No record is overwritten, and every number leads to a record. -/
structure KeepsLinks (db db' : Database Record) : Prop where
  file : ∀ name fi, db.lookup (fileKey name) = some (.file fi) →
    db'.lookup (fileKey name) = some (.file fi)
  storage : ∀ id si, db.lookup (storageKey id) = some (.storage si) →
    db'.lookup (storageKey id) = some (.storage si)
  names : ∃ mof, db'.lookup filesKey = some (.files mof) ∧
    ∀ id name, mof.nameById.lookup id = some name →
      ∃ fi, db'.lookup (fileKey name) = some (.file fi) ∧ fi.id = id
  ids : ∃ mos, db'.lookup storagesKey = some (.storages mos) ∧
    ∀ id < mos.count, ∃ si, db'.lookup (storageKey id) = some (.storage si)

def Fallible : Command Record → Prop
  | .get _ => True
  | .put _ _ => True
  | _ => False

/-- Neither a look at a name that is taken nor the write of a file. -/
def Benign (db : Database Record) : Command Record → Prop
  | .get key => ¬∃ name, key = fileKey name ∧ (db.lookup key).isSome
  | .put key _ => ¬∃ name, key = fileKey name
  | _ => True

def Sparing : Command Record → Prop
  | .get key => ∀ name, key ≠ fileKey name
  | .put _ _ => False
  | _ => True

section Links

variable {α β : Type} {db : Database Record} {mof : MetaOnFilesItem} {mos : MetaOnStoragesItem}
  {p : Handler Record α} {w : World Record}

/-- The records of a consistent database lead to each other. -/
theorem linked_of_consistent (hfiles : FilesConsistent db mof)
    (hstorages : StoragesConsistent db mos) :
    Linked db mof mos := by
  refine ⟨hfiles.files, hfiles.mem_nameById, ?_, ?_, hstorages.storages, ?_, ?_⟩
  · intro id name hname
    obtain ⟨fi, hfi, hid, -⟩ := hfiles.file_of_name id name hname
    exact ⟨fi, hfi, hid⟩
  · intro name hsome
    exact hfiles.name_of_key name (AList.lookup_isSome.mp hsome)
  · intro id hlt
    obtain ⟨si, hsi, -⟩ := hstorages.storage_of_id id hlt
    exact ⟨si, hsi⟩
  · intro id hsome
    obtain ⟨id', hlt, heq⟩ := hstorages.id_of_key _ (AList.lookup_isSome.mp hsome)
    rwa [UInt32.toNat_inj.mp (Decimal.digits_injective heq)]

theorem benign_of_sparing {command : Command Record} (h : Sparing command) : Benign db command := by
  cases command with
  | get key =>
      rintro ⟨name, hkey, -⟩
      exact h name hkey
  | put key record => exact h.elim
  | statics => trivial
  | setStatics statics => trivial
  | send packet => trivial

theorem database_exec {command : Command Record} (h : Sparing command) (w : World Record) :
    (exec command w).2.database = w.database := by
  cases command with
  | put key record => exact h.elim
  | get key => rfl
  | statics => rfl
  | setStatics statics => rfl
  | send packet => rfl

theorem database_failing (command : Command Record) (w : World Record) :
    (failing command w).2.database = w.database := by
  cases command with
  | get key => rfl
  | put key record => rfl
  | statics => rfl
  | setStatics statics => rfl
  | send packet => rfl

theorem Linked.keepsLinks (h : Linked db mof mos) : KeepsLinks db db where
  file := fun _ _ => id
  storage := fun _ _ => id
  names := ⟨mof, h.files, h.file_of_name⟩
  ids := ⟨mos, h.storages, h.storage_of_id⟩

/-- The links of this database survive a program, whichever command fails unless it is one of two. -/
def KeepsLinked (db : Database Record) (p : Handler Record α) (w : World Record) : Prop :=
  p.Tolerates exec failing Fallible (Benign db) (fun w' => KeepsLinks db w'.database) w

theorem Linked.keepsLinked_bind (h : Linked db mof mos) {f : α → Handler Record β}
    (hp : p.All Sparing)
    (hf : ∀ a w, w.database = db → KeepsLinked db (f a) w) (hw : w.database = db) :
    KeepsLinked db (p >>= f) w := by
  apply Program.tolerates_bind (P := Sparing) (I := fun w => w.database = db) _ _ _ _ hp hf hw
  · intro command hcommand
    exact benign_of_sparing hcommand
  · intro command hcommand w hw
    exact (database_exec hcommand w).trans hw
  · intro command _ w hw
    exact (database_failing command w).trans hw
  · intro w hw
    rw [hw]
    exact h.keepsLinks

theorem Linked.keepsLinked (h : Linked db mof mos) (hp : p.All Sparing) (hw : w.database = db) :
    KeepsLinked db p w := by
  have hbind : KeepsLinked db (p >>= pure) w := by
    apply h.keepsLinked_bind hp _ hw
    intro a w hw
    apply Program.tolerates_pure
    rw [hw]
    exact h.keepsLinks
  rwa [bind_pure] at hbind

theorem sparing_of_looksUp {command : Command Record} (h : LooksUp command) : Sparing command := by
  cases command with
  | get key => exact h
  | put key record => exact h.elim
  | statics => trivial
  | setStatics statics => trivial
  | send packet => exact h.elim

theorem sparing_sendError (packet : Packet) (code : ErrorCode) :
    (sendError packet code).All Sparing := by
  apply Program.all_bind _ fun _ => Program.all_pure _
  exact Program.all_bind (Program.all_ofOption _ _) fun _ => Program.all_perform trivial

/-! ### The search for a name -/

theorem searchName_bind (tmpName : Bytes) (fuel : ℕ) (i : UInt64) (f : Bytes → Handler Record β) :
    searchName tmpName (fuel + 1) i >>= f =
      .op (.get (fileKey (suffixed tmpName i))) fun record : Option Record =>
        record.elim (f (suffixed tmpName i)) fun _ => searchName tmpName fuel (i + 1) >>= f := by
  apply congrArg (Program.op (Command.get (fileKey (suffixed tmpName i))))
  funext record
  cases record with
  | none => rfl
  | some json => rfl

/-- A look at a name that fails ends the search with that name. -/
theorem keepsLinked_searchName (hkeeps : KeepsLinks db db) (tmpName : Bytes)
    {f : Bytes → Handler Record β}
    (hfree : ∀ name w, w.database = db → db.lookup (fileKey name) = none →
      KeepsLinked db (f name) w)
    (htaken : ∀ name w, w.database = db → (db.lookup (fileKey name)).isSome →
      ¬KeepsLinks db ((f name).run exec w).2.database)
    (fuel : ℕ) (i : UInt64) {w : World Record} (hw : w.database = db) :
    KeepsLinked db (searchName tmpName fuel i >>= f) w := by
  induction fuel generalizing i with
  | zero =>
      apply Program.tolerates_throw
      rw [hw]
      exact hkeeps
  | succ fuel ih =>
      rw [searchName_bind]
      have hlookup : w.database.lookup (fileKey (suffixed tmpName i)) =
          db.lookup (fileKey (suffixed tmpName i)) := by
        rw [hw]
      apply Program.tolerates_op
      · intro _
        cases hname : db.lookup (fileKey (suffixed tmpName i)) with
        | none =>
            refine iff_of_true (hfree _ w hw hname).run ?_
            rintro ⟨name, -, hsome⟩
            rw [hname] at hsome
            cases hsome
        | some record =>
            have hsome : (db.lookup (fileKey (suffixed tmpName i))).isSome := by
              rw [hname]
              rfl
            refine iff_of_false (htaken _ w hw hsome) ?_
            exact not_not_intro ⟨_, rfl, hsome⟩
      · change KeepsLinked db ((w.database.lookup (fileKey (suffixed tmpName i))).elim _ _) w
        rw [hlookup]
        cases hname : db.lookup (fileKey (suffixed tmpName i)) with
        | none => exact hfree _ w hw hname
        | some record => exact ih (i + 1)

/-! ### The two writes of an upload -/

def recordFile (fi : FileItem) (name : Bytes) : Handler Record FileItem := do
  let json ← cmdGet filesKey
  let mof ← .ofOption .exception (Coding.files? json)
  let fi := { fi with name, id := mof.count }
  let mof := { mof with
    count := mof.count + 1
    totalSize := mof.totalSize + BitVec.ofNat 128 fi.fileSize.toNat
    nameById := mof.nameById.emplace fi.id fi.name }
  cmdPut filesKey (.files mof)
  cmdPut (fileKey fi.name) (.file fi)
  pure fi

theorem createNewFile_bind (fuel : ℕ) (fi : FileItem) (f : FileItem → Handler Record β) :
    createNewFile fuel fi >>= f = searchName fi.name fuel 0 >>= fun name => recordFile fi name >>= f :=
  bind_assoc (searchName fi.name fuel 0) (recordFile fi) f

/-- The database with the count of files and no record yet. -/
theorem lookup_emplace_count (h : Linked db mof mos) {id : FidType} {name fname : Bytes} :
    (mof.nameById.emplace mof.count name).lookup id = some fname ↔
      mof.nameById.lookup id = some fname ∨ id = mof.count ∧ name = fname := by
  have hfresh : mof.nameById.lookup mof.count = none := by
    rw [AList.lookup_eq_none, h.mem_nameById]
    exact UInt64.lt_irrefl _
  rw [NameById.lookup_emplace]
  by_cases hid : id = mof.count
  · rw [hid, hfresh, Option.none_or, if_pos rfl]
    simp
  · rw [if_neg (Ne.symm hid), Option.or_none]
    simp [hid]

/-- A file under a free name is linked. -/
theorem Linked.keepsLinks_created (h : Linked db mof mos) {w : World Record} (hw : w.database = db)
    {fi : FileItem} (hid : fi.id = mof.count) (hfree : db.lookup (fileKey fi.name) = none) :
    KeepsLinks db (World.created w mof fi).database := by
  have hcreated : (World.created w mof fi).database = (db.insert filesKey
      (.files (addFile mof fi))).insert (fileKey fi.name) (.file fi) := by
    rw [← hw]
    rfl
  have hkept (name : Bytes) (old : FileItem) (hold : db.lookup (fileKey name) = some (.file old)) :
      (World.created w mof fi).database.lookup (fileKey name) = some (.file old) := by
    have hne : fileKey name ≠ fileKey fi.name := by
      intro heq
      rw [heq, hfree] at hold
      cases hold
    rwa [hcreated, AList.lookup_insert_ne hne, AList.lookup_insert_ne fileKey_ne_filesKey]
  have hstorage (id : StidType) : (World.created w mof fi).database.lookup (storageKey id) =
      db.lookup (storageKey id) := by
    rw [hcreated, storageKey, AList.lookup_insert_ne fileKey_ne_storageKey.symm,
      AList.lookup_insert_ne filesKey_ne_storageKey.symm]
  refine ⟨hkept, ?_, ⟨addFile mof fi, ?_, ?_⟩, ⟨mos, ?_, ?_⟩⟩
  · intro id si hsi
    rwa [hstorage]
  · rw [hcreated, AList.lookup_insert_ne fileKey_ne_filesKey.symm, AList.lookup_insert]
  · intro id name hname
    rw [addFile, hid, lookup_emplace_count h] at hname
    obtain hold | ⟨rfl, rfl⟩ := hname
    · obtain ⟨old, hlookup, hfid⟩ := h.file_of_name id name hold
      exact ⟨old, hkept name old hlookup, hfid⟩
    · refine ⟨fi, ?_, hid⟩
      rw [hcreated, AList.lookup_insert]
  · rw [hcreated, AList.lookup_insert_ne fileKey_ne_storagesKey.symm,
      AList.lookup_insert_ne filesKey_ne_storagesKey.symm, h.storages]
  · intro id hlt
    rw [hstorage]
    exact h.storage_of_id id hlt

/-- A file under a name that is taken takes the place of another one. -/
theorem Linked.not_keepsLinks_created (h : Linked db mof mos) (w : World Record) {fi : FileItem}
    (hid : fi.id = mof.count) (htaken : (db.lookup (fileKey fi.name)).isSome) :
    ¬KeepsLinks db (World.created w mof fi).database := by
  intro hkeeps
  obtain ⟨id, hname⟩ := h.name_of_key _ htaken
  obtain ⟨old, hlookup, hold⟩ := h.file_of_name id _ hname
  have hlt : id < mof.count := (h.mem_nameById id).mp (AList.lookup_isSome.mp (by rw [hname]; rfl))
  have hafter := hkeeps.file _ old hlookup
  rw [World.created, World.put, AList.lookup_insert, Option.some_inj] at hafter
  cases hafter
  rw [← hold, hid] at hlt
  exact UInt64.lt_irrefl _ hlt

/-- The count of files without the record leads to nothing. -/
theorem Linked.not_keepsLinks_counted (h : Linked db mof mos) {w : World Record}
    (hw : w.database = db)
    {fi : FileItem} (hid : fi.id = mof.count) (hfree : db.lookup (fileKey fi.name) = none) :
    ¬KeepsLinks db (w.put filesKey (.files (addFile mof fi))).database := by
  intro hkeeps
  obtain ⟨mof', hfiles, hnames⟩ := hkeeps.names
  rw [World.put, AList.lookup_insert, Option.some_inj] at hfiles
  cases hfiles
  obtain ⟨fi', hfi', -⟩ := hnames mof.count fi.name (by
    rw [addFile, hid, lookup_emplace_count h]
    exact .inr ⟨rfl, rfl⟩)
  rw [World.put, AList.lookup_insert_ne fileKey_ne_filesKey, hw, hfree] at hfi'
  cases hfi'

theorem sparing_of_not_fallible {command : Command Record} (h : ¬Fallible command) :
    Sparing command := by
  cases command with
  | get key => exact absurd trivial h
  | put key record => exact absurd trivial h
  | statics => trivial
  | setStatics statics => trivial
  | send packet => trivial

theorem keepsLinked_of_not_fallible {db' : Database Record} (h : KeepsLinks db db')
    (hp : p.All fun command => ¬Fallible command) (hw : w.database = db') : KeepsLinked db p w := by
  apply Program.tolerates_of_all (I := fun w => w.database = db') _ _ _ _ hp hw
  · intro command hcommand
    exact benign_of_sparing (sparing_of_not_fallible hcommand)
  · intro command hcommand w hw
    exact (database_exec (sparing_of_not_fallible hcommand) w).trans hw
  · intro command _ w hw
    exact (database_failing command w).trans hw
  · intro w hw
    rwa [hw]

/-- Under a free name the second write must not fail. -/
theorem Linked.keepsLinked_recordFile (h : Linked db mof mos) {w : World Record}
    (hw : w.database = db)
    (fi : FileItem) {name : Bytes} (hfree : db.lookup (fileKey name) = none)
    {f : FileItem → Handler Record β} (hf : ∀ fi, (f fi).All fun command => ¬Fallible command) :
    KeepsLinked db (recordFile fi name >>= f) w := by
  have hwrites (fi : FileItem) (hid : fi.id = mof.count)
      (hname : db.lookup (fileKey fi.name) = none) :
      KeepsLinked db (.op (.put filesKey (.files (addFile mof fi))) fun _ =>
        .op (.put (fileKey fi.name) (.file fi)) fun _ => f fi) w := by
    apply Program.tolerates_op
    · intro _
      apply iff_of_true
      · change KeepsLinks db w.database
        rw [hw]
        exact h.keepsLinks
      · rintro ⟨name, heq⟩
        exact fileKey_ne_filesKey heq.symm
    apply Program.tolerates_op
    · intro _
      apply iff_of_false (h.not_keepsLinks_counted hw hid hname)
      exact not_not_intro ⟨_, rfl⟩
    exact keepsLinked_of_not_fallible (h.keepsLinks_created hw hid hname) (hf fi) rfl
  have hrest (record : Option Record) (hrecord : record = some (.files mof)) :
      KeepsLinked db ((Program.ofOption Halt.exception record >>= fun json =>
        Program.ofOption .exception (Coding.files? json) >>= fun mof => do
          let fi := { fi with name, id := mof.count }
          cmdPut filesKey (.files (addFile mof fi))
          cmdPut (fileKey fi.name) (.file fi)
          pure fi) >>= f) w := by
    rw [hrecord]
    exact hwrites _ rfl hfree
  apply Program.tolerates_op
  · intro _
    apply iff_of_true
    · change KeepsLinks db w.database
      rw [hw]
      exact h.keepsLinks
    · rintro ⟨name, heq, -⟩
      exact fileKey_ne_filesKey heq.symm
  apply hrest
  change w.database.lookup filesKey = _
  rw [hw, h.files]

theorem Linked.keepsLinked_createNewFile (h : Linked db mof mos) {w : World Record}
    (hw : w.database = db)
    (fuel : ℕ) (fi : FileItem) {f : FileItem → Handler Record β}
    (hf : ∀ fi, (f fi).All fun command => ¬Fallible command) :
    KeepsLinked db (createNewFile fuel fi >>= f) w := by
  rw [createNewFile_bind]
  apply keepsLinked_searchName h.keepsLinks fi.name _ _ fuel 0 hw
  · intro name w hw hfree
    exact h.keepsLinked_recordFile hw fi hfree hf
  · intro name w hw htaken
    have hrecord : (recordFile fi name).run exec w = (.ok { fi with name, id := mof.count },
        World.created w mof { fi with name, id := mof.count }) := by
      rw [recordFile, Program.run_bind, run_cmdGet, hw, h.files]
      rfl
    have hsame : ((recordFile fi name >>= f).run exec w).2.database =
        (World.created w mof { fi with name, id := mof.count }).database := by
      rw [Program.run_bind, hrecord]
      have hafter (w : World Record) : (f { fi with name, id := mof.count }).wp exec w fun _ w' =>
          w'.database = w.database :=
        Program.wp_of_all (fun _ hcommand w => database_exec (sparing_of_not_fallible hcommand) w)
          (hf _) w
      exact hafter _
    rw [hsame]
    exact h.not_keepsLinks_created w rfl htaken

/-! ### The handlers -/

theorem Linked.keepsLinked_cmUpReq (h : Linked db mof mos) {w : World Record} (hw : w.database = db)
    (r : Request) : KeepsLinked db (cmUpReq r) w := by
  apply h.keepsLinked_bind (Program.all_ofOption _ _) _ hw
  intro upload w hw
  obtain ⟨req, fname⟩ := upload
  apply h.keepsLinked_bind (Program.all_mono (fun _ => sparing_of_looksUp) (looksUp_numberOfParts _)) _
    hw
  intro nbParts w hw
  split
  · exact h.keepsLinked (sparing_sendError _ _) hw
  apply h.keepsLinked_bind (Program.all_mono (fun _ => sparing_of_looksUp)
    (looksUp_getStpfieldsForUpload _ _ _)) _ hw
  intro fields w hw
  split
  · exact h.keepsLinked (sparing_sendError _ _) hw
  apply h.keepsLinked_createNewFile hw
  intro fi
  apply Program.all_bind (Program.all_perform id)
  intro _
  apply Program.all_bind _ fun _ => Program.all_pure _
  rw [firstField]
  split
  · exact Program.all_throw _
  · exact Program.all_pure _

/-- A storage that registers takes no place that is taken, and a storage that is not counted does no
harm. -/
theorem Linked.keepsLinks_registered (h : Linked db mof mos) (si : StorageItem)
    (hid : si.id = mos.count) :
    KeepsLinks db (db.insert (storageKey si.id) (.storage si)) ∧
      KeepsLinks db ((db.insert (storageKey si.id) (.storage si)).insert storagesKey
        (.storages (addStorage mos si))) := by
  have hkept (id : StidType) (old : StorageItem)
      (hold : db.lookup (storageKey id) = some (.storage old)) :
      (db.insert (storageKey si.id) (.storage si)).lookup (storageKey id) = some (.storage old) := by
    rw [AList.lookup_insert_ne, hold]
    intro heq
    have hlt := h.id_of_key id (by rw [hold]; rfl)
    rw [storageKey_injective heq, hid] at hlt
    exact UInt32.lt_irrefl _ hlt
  have hkept' (id : StidType) (old : StorageItem)
      (hold : db.lookup (storageKey id) = some (.storage old)) :
      ((db.insert (storageKey si.id) (.storage si)).insert storagesKey
        (.storages (addStorage mos si))).lookup (storageKey id) = some (.storage old) := by
    have hne : storageKey id ≠ storagesKey := storageKey_ne_storagesKey
    rw [AList.lookup_insert_ne hne]
    exact hkept id old hold
  constructor
  · refine ⟨?_, hkept, ⟨mof, ?_, ?_⟩, ⟨mos, ?_, ?_⟩⟩
    · intro name fi hfi
      rwa [storageKey, AList.lookup_insert_ne fileKey_ne_storageKey]
    · rw [storageKey, AList.lookup_insert_ne filesKey_ne_storageKey, h.files]
    · intro id name hname
      rw [storageKey, AList.lookup_insert_ne fileKey_ne_storageKey]
      exact h.file_of_name id name hname
    · rw [storageKey, AList.lookup_insert_ne storageKey_ne_storagesKey.symm, h.storages]
    · intro id hlt
      obtain ⟨old, hold⟩ := h.storage_of_id id hlt
      exact ⟨old, hkept id old hold⟩
  · refine ⟨?_, hkept', ⟨mof, ?_, ?_⟩, ⟨addStorage mos si, ?_, ?_⟩⟩
    · intro name fi hfi
      rwa [AList.lookup_insert_ne fileKey_ne_storagesKey, storageKey,
        AList.lookup_insert_ne fileKey_ne_storageKey]
    · rw [AList.lookup_insert_ne filesKey_ne_storagesKey, storageKey,
        AList.lookup_insert_ne filesKey_ne_storageKey, h.files]
    · intro id name hname
      rw [AList.lookup_insert_ne fileKey_ne_storagesKey, storageKey,
        AList.lookup_insert_ne fileKey_ne_storageKey]
      exact h.file_of_name id name hname
    · rw [AList.lookup_insert]
    · intro id hlt
      have hle : id < mos.count ∨ id = mos.count := by
        have hone : (1 : StidType).toNat = 1 := rfl
        rw [addStorage, UInt32.lt_iff_toNat_lt, UInt32.toNat_add, hone] at hlt
        rw [UInt32.lt_iff_toNat_lt, ← UInt32.toNat_inj]
        omega
      obtain hlt | rfl := hle
      · obtain ⟨old, hold⟩ := h.storage_of_id id hlt
        exact ⟨old, hkept' id old hold⟩
      · refine ⟨si, ?_⟩
        have hne : storageKey mos.count ≠ storagesKey := storageKey_ne_storagesKey
        rw [AList.lookup_insert_ne hne, hid, AList.lookup_insert]

theorem Linked.keepsLinked_smIdReq (h : Linked db mof mos) {w : World Record} (hw : w.database = db)
    (r : Request) : KeepsLinked db (smIdReq r) w := by
  have hunchanged : KeepsLinks db w.database := by
    rw [hw]
    exact h.keepsLinks
  have hwrites (si : StorageItem) (hid : si.id = mos.count) :
      KeepsLinked db (.op (.put (storageKey si.id) (.storage si)) fun _ =>
        .op (.put storagesKey (.storages (addStorage mos si))) fun _ =>
          .op (.send (fidInfoPacket si.id)) fun _ => .pure KeepAlive.no) w := by
    obtain ⟨hone, hboth⟩ := h.keepsLinks_registered si hid
    apply Program.tolerates_op
    · intro _
      apply iff_of_true hunchanged
      rintro ⟨name, heq⟩
      exact fileKey_ne_storageKey heq.symm
    apply Program.tolerates_op
    · intro _
      apply iff_of_true
      · change KeepsLinks db (w.database.insert _ _)
        rw [hw]
        exact hone
      · rintro ⟨name, heq⟩
        exact fileKey_ne_storagesKey heq.symm
    apply keepsLinked_of_not_fallible hboth _ (by rw [← hw]; rfl)
    exact ⟨id, fun _ => trivial⟩
  have hrest (record : Option Record) (hrecord : record = some (.storages mos)) :
      KeepsLinked db (Program.ofOption Halt.exception record >>= fun json =>
        Program.ofOption .exception (Coding.storages? json) >>= fun mos =>
        Program.ofOption .exception r.env.remoteAddress >>= fun hostAddr =>
        Program.ofOption .fault (readIdReq r.packet) >>= fun req =>
        let si : StorageItem := ⟨mos.count, hostAddr, req.port, req.avspace⟩
        .op (.put (storageKey si.id) (.storage si)) fun _ =>
          .op (.put storagesKey (.storages (addStorage mos si))) fun _ =>
            .op (.send (fidInfoPacket si.id)) fun _ => .pure KeepAlive.no) w := by
    rw [hrecord]
    change KeepsLinked db (Program.ofOption .exception r.env.remoteAddress >>= _) w
    cases r.env.remoteAddress with
    | none => exact Program.tolerates_throw hunchanged
    | some hostAddr =>
        change KeepsLinked db (Program.ofOption .fault (readIdReq r.packet) >>= _) w
        cases readIdReq r.packet with
        | none => exact Program.tolerates_throw hunchanged
        | some req => exact hwrites _ rfl
  apply Program.tolerates_op
  · intro _
    apply iff_of_true hunchanged
    rintro ⟨name, heq, -⟩
    exact fileKey_ne_storagesKey heq.symm
  apply hrest
  change w.database.lookup storagesKey = _
  rw [hw, h.storages]

/-- **A failing command.** From a database whose records are linked, an upload or a registration of
which one command of the database fails overwrites no record and leaves them linked exactly when that
command is neither the look at a name that is taken nor the write of the record of a file. -/
theorem keepsLinks_iff {r : Request} (h : Linked w.database mof mos)
    (hkind : kindOf r.packet = .upReq ∨ kindOf r.packet = .idReq) {n : ℕ} {command : Command Record}
    (hcommand : ((recvDispatcher r).ops exec w)[n]? = some command)
    (hfallible : Fallible command) :
    KeepsLinks w.database ((recvDispatcher r).failAt exec failing n w).2.database ↔
      Benign w.database command := by
  have hkeeps : KeepsLinked w.database (recvDispatcher r) w := by
    rw [recvDispatcher_eq]
    obtain hup | hid := hkind
    · rw [hup]
      exact h.keepsLinked_cmUpReq rfl r
    · rw [hid]
      exact h.keepsLinked_smIdReq rfl r
  exact hkeeps.fails n command hcommand hfallible

end Links

def uploadedOnce : World Record :=
  handleAll .initial [registration 4242 1000, { uploadRequest 1 with fuel := 2 }]

theorem exists_linked_uploadedOnce : ∃ mof mos, Linked uploadedOnce.database mof mos := by
  have huploads : uploads uploadedOnce < 2 ^ 64 := by
    decide +kernel
  have hregistrations : registrations uploadedOnce < 2 ^ 32 := by
    decide +kernel
  obtain ⟨mof, mos, hconsistent⟩ := consistent_initial.run huploads hregistrations
  exact ⟨mof, mos, linked_of_consistent hconsistent.files hconsistent.storages⟩

def writesTo (key : Bytes) : Command Record → Bool
  | .put key' _ => key' = key
  | _ => false

/-- A second storage that is not counted harms neither the first nor its file. -/
theorem keepsLinks_second_registration : KeepsLinks uploadedOnce.database
    ((recvDispatcher (registration 4243 1000)).failAt exec failing 2 uploadedOnce).2.database := by
  have hwrites : (((recvDispatcher (registration 4243 1000)).ops exec uploadedOnce)[2]?).any
      (writesTo storagesKey) = true := by
    decide +kernel
  obtain ⟨mof, mos, hlinked⟩ := exists_linked_uploadedOnce
  obtain ⟨command, hcommand, hwrite⟩ := (Option.any_eq_true _ _).mp hwrites
  cases command with
  | put key record =>
      obtain rfl : key = storagesKey := of_decide_eq_true hwrite
      apply (keepsLinks_iff hlinked (.inr rfl) hcommand trivial).mpr
      rintro ⟨name, heq⟩
      exact fileKey_ne_storagesKey heq.symm
  | get key => cases hwrite
  | statics => cases hwrite
  | setStatics statics => cases hwrite
  | send packet => cases hwrite

def looksAt (name : Bytes) : Command Record → Bool
  | .get key => key = fileKey name
  | _ => false

/-- A second upload of the file, which cannot see that there is one, takes its place. -/
theorem not_keepsLinks_taken :
    ¬∀ (w : World Record) (mof : MetaOnFilesItem) (mos : MetaOnStoragesItem) (r : Request) (n : ℕ)
      (command : Command Record), Linked w.database mof mos →
      kindOf r.packet = .upReq ∨ kindOf r.packet = .idReq →
      ((recvDispatcher r).ops exec w)[n]? = some command → Fallible command →
      KeepsLinks w.database ((recvDispatcher r).failAt exec failing n w).2.database := by
  intro h
  have hlooks : (((recvDispatcher { uploadRequest 1 with fuel := 3 }).ops exec uploadedOnce)[5]?).any
      (looksAt (ascii "x.__0")) = true := by
    decide +kernel
  have htaken : (uploadedOnce.database.lookup (fileKey (ascii "x.__0"))).isSome := by
    decide +kernel
  obtain ⟨mof, mos, hlinked⟩ := exists_linked_uploadedOnce
  obtain ⟨command, hcommand, hlook⟩ := (Option.any_eq_true _ _).mp hlooks
  cases command with
  | get key =>
      have hkey : key = fileKey (ascii "x.__0") := of_decide_eq_true hlook
      have hbenign := (keepsLinks_iff hlinked (.inl rfl) hcommand trivial).mp
        (h _ mof mos _ 5 _ hlinked (.inl rfl) hcommand trivial)
      exact hbenign ⟨_, hkey, hkey ▸ htaken⟩
  | put key record => cases hlook
  | statics => cases hlook
  | setStatics statics => cases hlook
  | send packet => cases hlook

end Mp2p.Master
