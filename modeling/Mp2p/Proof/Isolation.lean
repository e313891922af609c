import Mp2p.Proof.TextThreads

/-!
# Concurrent requests over texts

A write that finds under its key the text its thread knows finds the record its thread knows. So what
isolates the requests over records isolates them over texts, as long as no name and no address needs
an escape.
-/

namespace Mp2p.Texts

open Masks Network DB DB.Tools Master

/-! ### The same text, the same record -/

section Agree

variable {boost : PropertyTree} {text : Bytes} {record record' : Record}

theorem agrees_of_represents (h : Represents boost text record)
    (h' : Represents boost text record') : Agrees record record' := by
  cases record with
  | storageSizes values =>
      have hvalues := h'.storageSizes.symm.trans h.storageSizes
      rw [Record.storageSizes?_eq_some.mp hvalues]
      rfl
  | storages mos =>
      have hmos := h'.storages.symm.trans h.storages
      rw [Record.storages?_eq_some.mp hmos]
      rfl
  | file fi =>
      have hfi := h'.file.symm.trans h.file
      rw [Record.file?_eq_some.mp hfi]
      rfl
  | storage si =>
      have hsi := h'.storage.symm.trans h.storage
      rw [Record.storage?_eq_some.mp hsi]
      rfl
  | files mof =>
      have hmof := h.files
      have hmof' := h'.files
      generalize MetaOnFilesItem.deserialize boost text = decoded at hmof hmof'
      generalize hrecord : Coding.files? record' = files at hmof'
      cases hmof with
      | @some old _ hsame =>
          cases hmof' with
          | @some _ mof' hsame' =>
              rw [Record.files?_eq_some.mp hrecord]
              exact hsame.1.symm.trans hsame'.1

theorem agrees_of_rel {known : Option (Value boost)} {found found' : Option Record}
    (h : Option.Rel (Represents boost) known found)
    (h' : Option.Rel (Represents boost) known found') : Option.Rel Agrees found found' := by
  cases h with
  | none =>
      cases h' with
      | none => exact .none
  | some hrecord =>
      cases h' with
      | some hrecord' => exact .some (agrees_of_represents hrecord hrecord')

theorem casAgrees_of_casSucceeds {w : World (Value boost)} {w' : World Record}
    {h : CommandHistory (Value boost)} {h' : CommandHistory Record}
    {command : Command (Value boost)} {command' : Command Record}
    (hasks : Asks boost command command') (hrelated : Related boost w w')
    (hhistories : HistoriesRel boost h h') (hcas : CasSucceeds w h command) :
    CasAgrees w' h' command' := by
  cases command with
  | put key text =>
      cases command' with
      | put key' record =>
          obtain ⟨rfl, hrepresents⟩ := hasks
          obtain ⟨hlookup, hfiles, hstorages⟩ := hcas
          refine ⟨?_, fun mof hmof => ?_, fun mos hmos => ?_⟩
          · have hfound := hrelated.database key
            rw [hlookup] at hfound
            exact agrees_of_rel hfound (lastRead_rel hhistories key)
          · have hrel := hrepresents.files_rel
            rw [hmof] at hrel
            generalize hdecoded : MetaOnFilesItem.deserialize boost text = decoded at hrel
            cases hrel with
            | some hsame => exact hsame.1.1 ▸ hfiles _ hdecoded
          · exact hstorages mos (hrepresents.storages.trans hmos)
      | _ => exact hasks.elim
  | _ =>
      cases command' with
      | put key record => exact hasks.elim
      | _ => trivial

end Agree

/-! ### Isolated over texts -/

section Isolated

variable {boost : PropertyTree} {ι : Type} {c : Threads (Value boost) ι} {d : Threads Record ι}
  {n m : ℕ}

theorem isItem_of_represents {text : Value boost} {record : Record}
    (h : Represents boost text record) (hitem : IsItem text) : IsItem record := by
  rwa [IsItem, ← h.file, ← h.storage]

theorem finished_abreast (h : Abreast boost c d) (hfinished : Finished c) : Finished d := by
  intro i command next hprogram
  have houtcome := (h.threads i).outcome?
  rw [hprogram] at houtcome
  cases hprogram' : (c.threads i).program with
  | op command' next' => exact hfinished i command' next' hprogram'
  | pure keepAlive =>
      rw [hprogram'] at houtcome
      cases houtcome
  | throw e =>
      rw [hprogram'] at houtcome
      cases houtcome

/-- What isolates the threads over records isolates those over texts. -/
theorem isolated_of_abreast (habreast : Abreast boost c d) (h : Isolated n m d) :
    Isolated n m c where
  fids i j fid fid' hij hi hj := h.fids i j fid fid' hij
    ((accepted_iff (habreast.histories i) fid).mp hi)
    ((accepted_iff (habreast.histories j) fid').mp hj)
  stids i j stid stid' hij hi hj := h.stids i j stid stid' hij
    ((registered_iff (habreast.histories i) stid).mp hi)
    ((registered_iff (habreast.histories j) stid').mp hj)
  uploaded i fid hi := by
    obtain ⟨fi, record, hid, hfile, hput⟩ :=
      h.uploaded i fid ((accepted_iff (habreast.histories i) fid).mp hi)
    obtain ⟨text, hput', hrepresents⟩ := exists_put_text habreast hput
    exact ⟨fi, text, hid, hrepresents.file.trans hfile, hput'⟩
  keys i j key key' text text' hij hi hj hitem hitem' := by
    obtain ⟨record, hput, hrepresents⟩ := exists_put habreast hi
    obtain ⟨record', hput', hrepresents'⟩ := exists_put habreast hj
    exact h.keys i j key key' record record' hij hput hput'
      (isItem_of_represents hrepresents hitem) (isItem_of_represents hrepresents' hitem')
  kept i key text hi hitem := by
    obtain ⟨record, hput, hrepresents⟩ := exists_put habreast hi
    obtain ⟨hfile, hstorage⟩ :=
      h.kept i key record hput (isItem_of_represents hrepresents hitem)
    have hkey := habreast.store.database key
    generalize d.store.database.lookup key = found at hkey hfile hstorage
    generalize c.store.database.lookup key = found' at hkey ⊢
    cases hkey with
    | none => exact ⟨hfile.trans hrepresents.file.symm, hstorage.trans hrepresents.storage.symm⟩
    | some hfound =>
        exact ⟨hfound.file.trans (hfile.trans hrepresents.file.symm),
          hfound.storage.trans (hstorage.trans hrepresents.storage.symm)⟩
  counts hfinished := by
    obtain ⟨mof, mos, hfiles, hstorages, hcount, hcount'⟩ :=
      h.counts (finished_abreast habreast hfinished)
    have haccepted : {i | ∃ fid, Accepted (c.threads i).history fid} =
        {i | ∃ fid, Accepted (d.threads i).history fid} := by
      ext i
      exact exists_congr fun fid => accepted_iff (habreast.histories i) fid
    have hregistered : {i | ∃ stid, Registered (c.threads i).history stid} =
        {i | ∃ stid, Registered (d.threads i).history stid} := by
      ext i
      exact exists_congr fun stid => registered_iff (habreast.histories i) stid
    obtain ⟨mof', hfiles', hsame⟩ := exists_of_rel habreast.store.files_rel hfiles
    refine ⟨mof', mos, hfiles', ?_, ?_, ?_⟩
    · rw [habreast.store.storages_eq, hstorages]
    · rw [haccepted, ← hcount, hsame.1]
    · rw [hregistered, hcount']

/-- The name a job would write, or the address, needs no escape. -/
def PlainJob : Job → Prop
  | .upload r => ∀ req fname, readUpReq r.packet = some (req, fname) → PlainString fname
  | .register r => ∀ hostAddr, r.env.remoteAddress = some hostAddr → PlainString hostAddr

theorem mirrors_handler (hboost : boost.Correct) {job : Job} (hplain : PlainJob job) :
    Mirrored boost Eq job.handler job.handler := by
  cases job with
  | upload r => exact mirrors_cmUpReq hboost hplain
  | register r => exact mirrors_smIdReq hboost hplain

theorem abreast_startJobs (hboost : boost.Correct) {w : World (Value boost)} {w' : World Record}
    (hrelated : Related boost w w') {jobs : ι → Job} (hplain : ∀ i, PlainJob (jobs i)) :
    Abreast boost (startJobs w jobs) (startJobs w' jobs) :=
  Program.Pool.beside_start hrelated fun i => mirrors_handler hboost (hplain i)

/-- **Isolation.** Over the texts of any items in which nothing needs an escape: in every run of
uploads and registrations of plain names and addresses in which each write finds under its key the
text its thread knows, and no counter starts again at zero, the requests are isolated from each other
in every state that is reached. -/
theorem isolated_of_casSucceeds [DecidableEq ι] [Finite ι] (hboost : boost.Correct)
    {w : World (Value boost)} {w' : World Record} (hrelated : Related boost w w') {jobs : ι → Job}
    (hplain : ∀ i, PlainJob (jobs i)) {mof : MetaOnFilesItem} {mos : MetaOnStoragesItem}
    (hfiles : (w.database.lookup filesKey).bind Coding.files? = some mof)
    (hstorages : (w.database.lookup storagesKey).bind Coding.storages? = some mos)
    (hreach : Program.Pool.Reachable may CasSucceeds (startJobs w jobs) c) :
    Isolated mof.count.toNat mos.count.toNat c := by
  have hrel := hrelated.files_rel
  rw [hfiles] at hrel
  generalize hfound : (w'.database.lookup filesKey).bind Coding.files? = found at hrel
  cases hrel with
  | @some _ mof' hsame =>
      have hrecord := Record.bind_files?_eq_some.mp hfound
      rw [hrelated.storages_eq] at hstorages
      have hrecord' := Record.bind_storages?_eq_some.mp hstorages
      obtain ⟨d, hreach', habreast⟩ : ∃ d,
          Program.Pool.Reachable may CasAgrees (startJobs w' jobs) d ∧ Abreast boost c d :=
        (abreast_startJobs hboost hrelated hplain).reachable
          (fun _ _ _ _ _ _ hasks hrelated hmay => hrelated.may hasks hmay)
          (fun _ _ _ _ _ _ => casAgrees_of_casSucceeds) hreach
      rw [hsame.1]
      exact isolated_of_abreast habreast (isolated_of_casAgrees hrecord hrecord' hreach')

end Isolated

/-! ### Three jobs, and two -/

section Jobs

instance (boost : PropertyTree) : DecidableEq (Value boost) := inferInstanceAs (DecidableEq Bytes)

def shortTexts : Database (Value referenceTree) :=
  ((∅ : Database (Value referenceTree)).insert storageSizesKey (sizesBytes (5, 1) [] ++ [0x0a])
    |>.insert storagesKey storagesJson).insert filesKey filesJson

def shortRecords : Database Record :=
  ((∅ : Database Record).insert storageSizesKey (.storageSizes [(5, 1)])
    |>.insert storagesKey (.storages ⟨0, 0⟩)).insert filesKey (.files ⟨0, 0, ∅⟩)

theorem rel_insert {boost : PropertyTree} {db : Database (Value boost)} {db' : Database Record}
    (h : ∀ key, Option.Rel (Represents boost) (db.lookup key) (db'.lookup key)) {key : Bytes}
    {text : Value boost} {record : Record} (hrepresents : Represents boost text record)
    (key' : Bytes) : Option.Rel (Represents boost) ((db.insert key text).lookup key')
      ((db'.insert key record).lookup key') := by
  by_cases hkey : key' = key
  · subst hkey
    rw [AList.lookup_insert, AList.lookup_insert]
    exact .some hrepresents
  · rw [AList.lookup_insert_ne hkey, AList.lookup_insert_ne hkey]
    exact h key'

theorem related_shortTexts : Related referenceTree ⟨shortTexts, ⟨false, 0, []⟩, []⟩
    ⟨shortRecords, ⟨false, 0, []⟩, []⟩ where
  database := rel_insert (rel_insert (rel_insert (fun _ => .none)
    (represents_sizesBytes correct_referenceTree _ _))
    (represents_storagesJson correct_referenceTree)) (represents_filesJson correct_referenceTree)
  statics := rfl
  sent := rfl

def oneStorageTexts : World (Value referenceTree) :=
  handle ⟨shortTexts, ⟨false, 0, []⟩, []⟩ (registration 4242 1000)

def uploadNamed (rdcy : RdcyType) (name : Bytes) : Request :=
  let p := Client.upReqPacket 5 rdcy name
  ⟨received p.header p.payload, anyHost, 2⟩

theorem plain_uploadNamed {rdcy : RdcyType} {name : Bytes}
    (hdelivered : Delivered (uploadNamed rdcy name).packet)
    (hname : (uploadNamed rdcy name).packet.front.drop (sizeof CM.UpReq) = name)
    (hplain : PlainString name) : PlainJob (.upload (uploadNamed rdcy name)) := by
  intro req fname hread
  obtain ⟨-, hfname⟩ := (readUpReq_eq_some_iff hdelivered).mp hread
  rwa [hfname, hname]

def threeJobs : Option Bool → Job
  | some _ => .upload (uploadNamed 1 (ascii "a"))
  | none => .register (registration 4243 1000)

/-- All three are at work when the first upload is counted. -/
def inTurn : List (Option Bool) :=
  (List.replicate 10 [some false, some true]).flatten ++ [some false, none, some false, some false,
    none, some false, some true, some true, some true, none, some true, some true, some false, none,
    some true]

theorem isolated_threeJobs : Isolated 0 1 (Program.Pool.runSchedule exec
    (startJobs oneStorageTexts threeJobs) inTurn) := by
  have hhost : PlainString (ascii "::1") := plain_ascii (by decide)
  have hname : PlainString (ascii "a") := plain_ascii (by decide)
  have hregistration (port : PortType) : PlainRequest (registration port 1000) :=
    ⟨nofun, fun _ _ haddress => Option.some_inj.mp haddress ▸ hhost⟩
  have hrelated := (related_shortTexts.handle correct_referenceTree (hregistration 4242)).2
  have hplain (i : Option Bool) : PlainJob (threeJobs i) := by
    cases i with
    | none => exact (hregistration 4243).2 rfl
    | some _ => exact plain_uploadNamed rfl rfl hname
  obtain ⟨mof, hfiles, hcount, -⟩ := exists_of_rel hrelated.files_rel (b := ⟨0, 0, ∅⟩) rfl
  have hstorages : (oneStorageTexts.database.lookup storagesKey).bind Coding.storages? =
      some ⟨1, 1000⟩ := hrelated.storages_eq
  have hguarded : Program.Pool.Guarded exec CasSucceeds (startJobs oneStorageTexts threeJobs)
      inTurn := by
    decide +kernel
  have hisolated := isolated_of_casSucceeds correct_referenceTree hrelated hplain hfiles hstorages
    (Program.Pool.reachable_runSchedule exec may_exec hguarded)
  rwa [hcount] at hisolated

/-- Two uploads, to a master without storages, of files that need none. -/
def twoUploads (second : Bool) : Job :=
  .upload (uploadNamed 0 (ascii (if second then "b" else "a")))

/-- The threads after `k` commands of the first upload, `k` of the second, and the rest of both. -/
def twoUploadsAfter {V : Type} [Coding V] (k : ℕ) : Threads V Bool :=
  Program.Pool.runSchedule exec (startJobs .initial twoUploads)
    (List.replicate k false ++ List.replicate k true ++ List.replicate (10 - k) false ++
      List.replicate (10 - k) true)

/-- Both uploads read the count before either writes it, and get the same number. -/
theorem not_isolated_twoUploads :
    ¬∀ (w : World (Value referenceTree)) (jobs : Bool → Job) (mof : MetaOnFilesItem)
      (mos : MetaOnStoragesItem) (c : Threads (Value referenceTree) Bool),
      (w.database.lookup filesKey).bind Coding.files? = some mof →
      (w.database.lookup storagesKey).bind Coding.storages? = some mos →
      Program.Pool.Reachable may (fun _ _ _ => True) (startJobs w jobs) c →
      Isolated mof.count.toNat mos.count.toNat c := by
  intro h
  have hrelated := related_initial correct_referenceTree
  have hplain (i : Bool) : PlainJob (twoUploads i) := by
    cases i
    · exact plain_uploadNamed rfl rfl (plain_ascii (by decide))
    · exact plain_uploadNamed rfl rfl (plain_ascii (by decide))
  obtain ⟨mof, hfiles, -⟩ := exists_of_rel hrelated.files_rel (b := ⟨0, 0, ∅⟩) rfl
  have hstorages : ((World.initial : World (Value referenceTree)).database.lookup storagesKey).bind
      Coding.storages? = some ⟨0, 0⟩ := hrelated.storages_eq
  have hisolated := h .initial twoUploads mof ⟨0, 0⟩ (twoUploadsAfter 7) hfiles hstorages
    (Program.Pool.reachable_runSchedule exec may_exec (Program.Pool.guarded_true exec _ _))
  have habreast : Abreast referenceTree (twoUploadsAfter 7) (twoUploadsAfter 7) :=
    (abreast_startJobs correct_referenceTree hrelated hplain).runSchedule
      (fun _ _ _ _ hasks hrelated => hrelated.exec hasks) _
  have hfid (i : Bool) :
      Accepted ((twoUploadsAfter (V := Value referenceTree) 7).threads i).history 0 := by
    rw [accepted_iff (habreast.histories i)]
    refine ⟨[], ?_⟩
    cases i <;> exact .head _
  exact hisolated.fids false true 0 0 (by decide) (hfid false) (hfid true) rfl

end Jobs

end Mp2p.Texts
