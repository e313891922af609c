import Mp2p.Master.Callbacks

/-!
# What a request does to the database

Whatever a handler reads and answers, it writes in one of three ways: a new file record with the
count of files, a file record with one more acknowledgement, a new storage record with the count of
storages. Everything else it does leaves the database as it was.
-/

namespace Mp2p.Master

open Masks Network DB DB.Tools

/-! ### Keys -/

section Keys

variable {a b : Bytes} {i j : StidType}

theorem fileKey_injective : Function.Injective fileKey := fun _ _ h => List.append_cancel_left h

theorem storageKey_injective : Function.Injective storageKey := by
  intro i j h
  exact UInt32.toNat_inj.mp (Decimal.digits_injective (List.append_cancel_left h))

theorem ne_of_getElem? {x y : Bytes} (k : ℕ) (h : x[k]? ≠ y[k]?) : x ≠ y := by
  rintro rfl
  exact h rfl

theorem fileKey_ne_filesKey : fileKey a ≠ filesKey :=
  ne_of_getElem? 4 (by change some 46 ≠ some 115; decide)

theorem fileKey_ne_storagesKey : fileKey a ≠ storagesKey :=
  ne_of_getElem? 0 (by change some 102 ≠ some 115; decide)

theorem fileKey_ne_storageSizesKey : fileKey a ≠ storageSizesKey :=
  ne_of_getElem? 0 (by change some 102 ≠ some 115; decide)

theorem fileKey_ne_storageKey : fileKey a ≠ ascii "st." ++ b :=
  ne_of_getElem? 0 (by change some 102 ≠ some 115; decide)

theorem filesKey_ne_storageKey : filesKey ≠ ascii "st." ++ b :=
  ne_of_getElem? 0 (by change some 102 ≠ some 115; decide)

theorem filesKey_ne_storagesKey : filesKey ≠ storagesKey := by decide

theorem storageKey_ne_storagesKey : ascii "st." ++ b ≠ storagesKey :=
  ne_of_getElem? 2 (by change some 46 ≠ some 111; decide)

end Keys

/-! ### What a request does -/

def uploads {V : Type} (w : World V) : ℕ :=
  w.sent.countP fun p => p.fromtoGet = MC.fromto ∧ p.whatGet = MC.upPiecesLocW

def registrations {V : Type} (w : World V) : ℕ :=
  w.sent.countP fun p => p.fromtoGet = MS.fromto ∧ p.whatGet = MS.fidInfoW

def addFile (mof : MetaOnFilesItem) (fi : FileItem) : MetaOnFilesItem where
  count := mof.count + 1
  totalSize := mof.totalSize + BitVec.ofNat 128 fi.fileSize.toNat
  nameById := mof.nameById.emplace fi.id fi.name

def addStorage (mos : MetaOnStoragesItem) (si : StorageItem) : MetaOnStoragesItem where
  count := mos.count + 1
  availableSpace := mos.availableSpace + BitVec.ofNat 128 si.availableSpace.toNat

/-- The three ways to write, and the fourth, not to. -/
inductive Effect (w w' : World Record) : Prop where
  | unchanged (hdatabase : w'.database = w.database) (huploads : uploads w' = uploads w)
      (hregistrations : registrations w' = registrations w)
  | created (mof : MetaOnFilesItem) (fi : FileItem)
      (hfiles : w.database.lookup filesKey = some (.files mof))
      (hfree : w.database.lookup (fileKey fi.name) = none) (hid : fi.id = mof.count)
      (hdatabase : w'.database =
        (w.database.insert filesKey (.files (addFile mof fi))).insert (fileKey fi.name) (.file fi))
      (huploads : uploads w' = uploads w + 1) (hregistrations : registrations w' = registrations w)
  | acked (mof : MetaOnFilesItem) (req : SM.PartAck) (fname : Bytes) (fi : FileItem)
      (hfiles : w.database.lookup filesKey = some (.files mof))
      (hname : mof.nameById.lookup req.partid.fid = some fname)
      (hfile : w.database.lookup (fileKey fname) = some (.file fi))
      (hdatabase : w'.database = w.database.insert (fileKey fname)
        (.file { fi with parts := (ackParts req fi.parts).1 }))
      (huploads : uploads w' = uploads w) (hregistrations : registrations w' = registrations w)
  | registered (mos : MetaOnStoragesItem) (si : StorageItem)
      (hstorages : w.database.lookup storagesKey = some (.storages mos)) (hid : si.id = mos.count)
      (hdatabase : w'.database = (w.database.insert (storageKey si.id) (.storage si)).insert
        storagesKey (.storages (addStorage mos si)))
      (huploads : uploads w' = uploads w) (hregistrations : registrations w' = registrations w + 1)

/-- A command that neither writes nor answers an upload or a registration. -/
def Minor : Command Record → Prop
  | .put _ _ => False
  | .send p => ¬ (p.fromtoGet = MC.fromto ∧ p.whatGet = MC.upPiecesLocW) ∧
      ¬ (p.fromtoGet = MS.fromto ∧ p.whatGet = MS.fidInfoW)
  | _ => True

/-- What minor commands leave alone. -/
def view (w : World Record) : Database Record × ℕ × ℕ := (w.database, uploads w, registrations w)

theorem view_exec {command : Command Record} (h : Minor command) (w : World Record) :
    view (exec command w).2 = view w := by
  cases command with
  | get key => rfl
  | put key record => exact h.elim
  | statics => rfl
  | setStatics statics => rfl
  | send p =>
      obtain ⟨hup, hreg⟩ := h
      simp [exec, view, uploads, registrations, List.countP_append, hup, hreg]

section Effects

variable {α β : Type} {p : Handler Record α} {f : α → Handler Record β}

def Effects (p : Handler Record α) : Prop := ∀ w, p.wp exec w fun _ w' => Effect w w'

theorem effect_of_view {w w' : World Record} (h : view w' = view w) : Effect w w' := by
  simp only [view, Prod.mk.injEq] at h
  exact .unchanged h.1 h.2.1 h.2.2

theorem effect_congr {w₀ w w' : World Record} (hview : view w = view w₀) (h : Effect w w') :
    Effect w₀ w' := by
  simp only [view, Prod.mk.injEq] at hview
  obtain ⟨hdb, hup, hreg⟩ := hview
  cases h with
  | unchanged hdatabase huploads hregistrations =>
      exact .unchanged (hdatabase.trans hdb) (huploads.trans hup) (hregistrations.trans hreg)
  | created mof fi hfiles hfree hid hdatabase huploads hregistrations =>
      rw [hdb] at hfiles hfree hdatabase
      rw [hup] at huploads
      exact .created mof fi hfiles hfree hid hdatabase huploads (hregistrations.trans hreg)
  | acked mof req fname fi hfiles hname hfile hdatabase huploads hregistrations =>
      rw [hdb] at hfiles hfile hdatabase
      exact .acked mof req fname fi hfiles hname hfile hdatabase (huploads.trans hup)
        (hregistrations.trans hreg)
  | registered mos si hstorages hid hdatabase huploads hregistrations =>
      rw [hdb] at hstorages hdatabase
      rw [hreg] at hregistrations
      exact .registered mos si hstorages hid hdatabase (huploads.trans hup) hregistrations

theorem effects_of_minor (h : p.All Minor) : Effects p := fun w =>
  Program.wp_mono (Program.wp_of_all (fun _ hc w => view_exec hc w) h w)
    fun _ _ => effect_of_view

theorem effects_bind (hp : p.All Minor) (hf : ∀ a, Effects (f a)) : Effects (p >>= f) := by
  intro w
  apply Program.wp_bind
  refine Program.wp_mono (Program.wp_of_all (fun _ hc w => view_exec hc w) hp w) ?_
  intro result w' hview
  cases result with
  | error e => exact effect_of_view hview
  | ok a => exact Program.wp_mono (hf a w') fun _ _ => effect_congr hview

end Effects

/-! ### Reading and answering -/

theorem minor_tryGet (key : Bytes) : (tryGet key).All Minor := Program.all_perform trivial

theorem minor_blockingSend {packet : Packet} (fromto : FromtoType) (what : WhatType)
    (hfromto : packet.fromtoGet = fromto) (hwhat : packet.whatGet = what)
    (hup : ¬ (fromto = MC.fromto ∧ what = MC.upPiecesLocW))
    (hreg : ¬ (fromto = MS.fromto ∧ what = MS.fidInfoW)) :
    (DB.blockingSend packet).All Minor := by
  apply Program.all_perform
  rw [Minor, hfromto, hwhat]
  exact ⟨hup, hreg⟩

/-! The placement looks up the table and the storages, and nothing else. -/

def LooksUp : Command Record → Prop
  | .get key => ∀ name, key ≠ fileKey name
  | .put _ _ => False
  | .send _ => False
  | _ => True

theorem minor_of_looksUp {command : Command Record} (h : LooksUp command) : Minor command := by
  cases command with
  | get key => trivial
  | put key record => exact h.elim
  | statics => trivial
  | setStatics statics => trivial
  | send packet => exact h.elim

theorem looksUp_cmdGet {key : Bytes} (hkey : ∀ name, key ≠ fileKey name) :
    (cmdGet key).All LooksUp :=
  Program.all_bind (Program.all_perform hkey) fun _ => Program.all_ofOption _ _

theorem looksUp_numberOfParts (fileSize : FsizeType) :
    (Tools.numberOfParts fileSize).All LooksUp :=
  Program.all_bind (looksUp_cmdGet fun _ => fileKey_ne_storageSizesKey.symm) fun _ =>
    Program.all_bind (Program.all_ofOption _ _) fun _ => Program.all_pure _

theorem looksUp_getStorages (ids : List StidType) : (getStorages ids).All LooksUp := by
  induction ids with
  | nil => trivial
  | cons i rest ih =>
      apply Program.all_bind (looksUp_cmdGet fun _ => fileKey_ne_storageKey.symm)
      intro json
      apply Program.all_bind (Program.all_ofOption _ _)
      intro st
      exact Program.all_bind ih fun _ => Program.all_pure _

theorem looksUp_getAllStorages : getAllStorages.All LooksUp := by
  apply Program.all_bind (looksUp_cmdGet fun _ => fileKey_ne_storagesKey.symm)
  intro json
  apply Program.all_bind (Program.all_ofOption _ _)
  intro mos
  apply Program.all_bind (looksUp_getStorages _)
  intro storages
  apply Program.all_bind (Program.all_perform trivial)
  intro statics
  exact Program.all_bind (Program.all_perform trivial) fun _ => Program.all_pure _

theorem looksUp_initRoundRobin (env : Env) : (initRoundRobin env).All LooksUp := by
  apply Program.all_bind (Program.all_perform trivial)
  intro statics
  split
  · exact Program.all_pure _
  apply Program.all_bind looksUp_getAllStorages
  intro tmp
  split
  · exact Program.all_pure _
  · exact Program.all_bind (Program.all_perform trivial) fun _ => Program.all_pure _

theorem looksUp_getStpfieldsForUpload (env : Env) (fuel : ℕ) (fileSize : FsizeType) :
    (getStpfieldsForUpload env fuel fileSize).All LooksUp := by
  apply Program.all_bind (looksUp_initRoundRobin env)
  intro ready
  split
  · apply Program.all_bind (looksUp_numberOfParts _)
    intro nbParts
    apply Program.all_bind (Program.all_perform trivial)
    intro statics
    apply Program.all_bind (Program.all_ofExcept _)
    intro placement
    apply Program.all_bind (Program.all_perform trivial)
    intro _
    exact Program.all_ofOption _ _
  · exact Program.all_pure _

theorem minor_numberOfParts (fileSize : FsizeType) : (Tools.numberOfParts fileSize).All Minor :=
  Program.all_mono (fun _ => minor_of_looksUp) (looksUp_numberOfParts fileSize)

theorem minor_getAllStorages : getAllStorages.All Minor :=
  Program.all_mono (fun _ => minor_of_looksUp) looksUp_getAllStorages

theorem minor_getStpfieldsForUpload (env : Env) (fuel : ℕ) (fileSize : FsizeType) :
    (getStpfieldsForUpload env fuel fileSize).All Minor :=
  Program.all_mono (fun _ => minor_of_looksUp) (looksUp_getStpfieldsForUpload env fuel fileSize)

theorem minor_sendAck (packet : Packet) (ack : ErrorCode) : (sendAck packet ack).All Minor := by
  refine Program.all_bind (Program.all_ofOption _ _) fun fromtoDst => ?_
  exact minor_blockingSend fromtoDst ackW rfl rfl (fun h => absurd h.2 (by decide))
    (fun h => absurd h.2 (by decide))

theorem minor_sendError (packet : Packet) (code : ErrorCode) :
    (sendError packet code).All Minor :=
  Program.all_bind (minor_sendAck _ _) fun _ => Program.all_pure _

theorem minor_replicate (r : Request) (req : SM.PartAck) (part : PartItem) :
    (replicate r req part).All Minor := by
  refine Program.all_bind minor_getAllStorages fun storages => ?_
  split
  · trivial
  · refine Program.all_bind (Program.all_ofOption _ _) fun addr => ?_
    exact minor_blockingSend MS.fromto MS.partLocW rfl rfl (by decide) (by decide)

theorem minor_deleteParts (packet : Packet) (parts : List PartItem) :
    (deleteParts packet parts).All Minor := by
  induction parts with
  | nil => trivial
  | cons part rest ih =>
      rw [deleteParts]
      split
      · exact minor_sendError _ _
      · exact Program.all_bind
          (minor_blockingSend MS.fromto MS.delActW rfl rfl (by decide) (by decide)) fun _ => ih

theorem minor_firstField (fields : List StpField) : (firstField fields).All Minor := by
  unfold firstField
  split
  · exact Program.all_throw _
  · exact Program.all_pure _

theorem minor_cmDownReq (r : Request) : (cmDownReq r).All Minor := by
  refine Program.all_bind (Program.all_ofOption _ _) fun fname => ?_
  refine Program.all_bind (minor_tryGet _) fun json => ?_
  split
  · exact minor_sendError _ _
  · refine Program.all_bind (Program.all_ofOption _ _) fun fi => ?_
    refine Program.all_bind minor_getAllStorages fun storages => ?_
    split
    · exact minor_sendError _ _
    · exact Program.all_bind
        (minor_blockingSend MC.fromto MC.downPiecesLocW rfl rfl (by decide) (by decide)) fun _ =>
          Program.all_bind (minor_firstField _) fun _ => Program.all_pure _

theorem minor_cmDelReq (r : Request) : (cmDelReq r).All Minor := by
  refine Program.all_bind (Program.all_ofOption _ _) fun fname => ?_
  refine Program.all_bind (minor_tryGet _) fun json => ?_
  split
  · exact minor_sendError _ _
  · refine Program.all_bind (Program.all_ofOption _ _) fun fi => ?_
    exact Program.all_bind minor_getAllStorages fun _ => minor_deleteParts _ _

/-! ### Writing -/

section Rules

variable {α β : Type} {w : World Record} {Q : Except Halt β → World Record → Prop}

theorem wp_tryGet {key : Bytes} {f : Option Record → Handler Record β}
    (h : (f (w.database.lookup key)).wp exec w Q) : (tryGet key >>= f).wp exec w Q := h

theorem wp_cmdGet {key : Bytes} {f : Record → Handler Record β}
    (hnone : w.database.lookup key = none → Q (.error .exception) w)
    (hsome : ∀ record, w.database.lookup key = some record → (f record).wp exec w Q) :
    (cmdGet key >>= f).wp exec w Q := by
  apply Program.wp_bind
  apply wp_tryGet
  exact Program.wp_ofOption hsome hnone

theorem wp_cmdPut {key : Bytes} {record : Record} {f : Unit → Handler Record β}
    (h : (f ()).wp exec (w.put key record) Q) :
    (cmdPut key record >>= f).wp exec w Q := h

theorem wp_blockingSend {packet : Packet} {f : Unit → Handler Record β}
    (h : (f ()).wp exec { w with sent := w.sent ++ [packet] } Q) :
    (DB.blockingSend packet >>= f).wp exec w Q := h

theorem wp_ofOption {e : Halt} {x : Option α} {f : α → Handler Record β}
    (hnone : x = none → Q (.error e) w) (hsome : ∀ a, x = some a → (f a).wp exec w Q) :
    (Program.ofOption e x >>= f).wp exec w Q :=
  Program.wp_bind (Program.wp_ofOption hsome hnone)

end Rules

theorem searchName_free (tmpName : Bytes) (fuel : ℕ) (i : UInt64) (w : World Record) :
    (searchName tmpName fuel i).wp exec w fun result w' => w' = w ∧
      ∀ name, result = .ok name → w.database.lookup (fileKey name) = none := by
  induction fuel generalizing i with
  | zero => exact Program.wp_throw ⟨rfl, fun _ h => nomatch h⟩
  | succ fuel ih =>
      apply wp_tryGet
      split
      · exact ih _
      · rename_i hfree
        refine Program.wp_pure ⟨rfl, fun name h => ?_⟩
        cases h
        exact hfree

theorem uploads_send {V : Type} (w : World V) (p : Packet) :
    uploads { w with sent := w.sent ++ [p] } = uploads w +
      if p.fromtoGet = MC.fromto ∧ p.whatGet = MC.upPiecesLocW then 1 else 0 := by
  simp [uploads, List.countP_append, List.countP_cons]

theorem registrations_send {V : Type} (w : World V) (p : Packet) :
    registrations { w with sent := w.sent ++ [p] } = registrations w +
      if p.fromtoGet = MS.fromto ∧ p.whatGet = MS.fidInfoW then 1 else 0 := by
  simp [registrations, List.countP_append, List.countP_cons]

/-- The world in which a new file record is written, as a function of what was read. -/
theorem createNewFile_spec (fuel : ℕ) (fi : FileItem) (w : World Record) :
    (createNewFile fuel fi).wp exec w fun result w' =>
      (w' = w ∧ ∃ e, result = .error e) ∨
      ∃ (mof : MetaOnFilesItem) (name : Bytes),
        w.database.lookup filesKey = some (.files mof) ∧
        w.database.lookup (fileKey name) = none ∧
        result = .ok { fi with name := name, id := mof.count } ∧
        w' = (w.put filesKey (.files (addFile mof { fi with name := name, id := mof.count }))).put
          (fileKey name) (.file { fi with name := name, id := mof.count }) := by
  apply Program.wp_bind
  refine Program.wp_mono (searchName_free fi.name fuel 0 w) ?_
  rintro (e | name) w' ⟨rfl, hfree⟩
  · exact .inl ⟨rfl, e, rfl⟩
  refine wp_cmdGet (fun _ => .inl ⟨rfl, _, rfl⟩) fun json hjson => ?_
  refine wp_ofOption (fun _ => .inl ⟨rfl, _, rfl⟩) fun mof hmof => ?_
  refine wp_cmdPut (wp_cmdPut (Program.wp_pure (.inr ⟨mof, name, ?_, hfree name rfl, rfl, rfl⟩)))
  rw [hjson, Record.files?_eq_some.mp hmof]

theorem fromto_ne : MS.fromto ≠ MC.fromto := by decide

theorem effects_created (fuel : ℕ) (fi : FileItem) (fields : List StpField) :
    Effects (do
      let fi ← createNewFile fuel fi
      DB.blockingSend (upPiecesLocPacket fi.id fields)
      firstField fields
      pure KeepAlive.no) := by
  intro w
  apply Program.wp_bind
  refine Program.wp_mono (createNewFile_spec fuel fi w) ?_
  rintro result w' (⟨rfl, e, rfl⟩ | ⟨mof, name, hfiles, hfree, rfl, rfl⟩)
  · exact effect_of_view rfl
  · apply wp_blockingSend
    refine Program.wp_mono (Program.wp_of_all (fun _ hc w => view_exec hc w)
      (Program.all_bind (minor_firstField fields) fun _ => Program.all_pure _) _) ?_
    intro _ w' hview
    simp only [view, Prod.mk.injEq] at hview
    obtain ⟨hdatabase, huploads, hregistrations⟩ := hview
    refine .created mof { fi with name, id := mof.count } hfiles hfree rfl hdatabase ?_ ?_
    · rw [huploads, uploads_send, if_pos ⟨rfl, rfl⟩]
      rfl
    · rw [hregistrations, registrations_send, if_neg fun h => fromto_ne h.1.symm]
      rfl

theorem effects_cmUpReq (r : Request) : Effects (cmUpReq r) := by
  refine effects_bind (Program.all_ofOption _ _) fun ⟨req, fname⟩ => ?_
  refine effects_bind (minor_numberOfParts _) fun nbParts => ?_
  split
  · exact effects_of_minor (minor_sendError _ _)
  refine effects_bind (minor_getStpfieldsForUpload _ _ _) fun fields => ?_
  split
  · exact effects_of_minor (minor_sendError _ _)
  exact effects_created _ _ _

theorem fid_of_readPartAck {packet : Packet} {req : SM.PartAck}
    (h : readPartAck packet = some req) : readPartAckFid packet = some req.partid.fid := by
  simp only [readPartAck, Option.bind_eq_bind, Option.bind_eq_some_iff, Option.pure_def,
    Option.some.injEq] at h
  obtain ⟨x, hread, rfl⟩ := h
  have hpartid := (Layout.overlay_prod_eq_some_iff.mp hread).2
  obtain ⟨y, hfields, hy⟩ := Option.map_eq_some_iff.mp hpartid
  change _ = some x.2.fid
  rw [← hy]
  exact (Layout.overlay_prod_eq_some_iff.mp hfields).1

/-- What an acknowledgement finds: the request, the metadata of the files, and the file it is about
under its name. -/
structure Acknowledges (w : World Record) (r : Request) (req : SM.PartAck) (mof : MetaOnFilesItem)
    (fname : Bytes) (fi : FileItem) : Prop where
  request : readPartAck r.packet = some req
  files : w.database.lookup filesKey = some (.files mof)
  name : mof.nameById.lookup req.partid.fid = some fname
  file : w.database.lookup (fileKey fname) = some (.file fi)

def putAck (w : World Record) (req : SM.PartAck) (fname : Bytes) (fi : FileItem) : World Record :=
  w.put (fileKey fname) (.file { fi with parts := (ackParts req fi.parts).1 })

section Acknowledges

variable {w : World Record} {r : Request} {req req' : SM.PartAck} {mof mof' : MetaOnFilesItem}
  {fname fname' : Bytes} {fi fi' : FileItem}

theorem Acknowledges.files_eq (h : Acknowledges w r req mof' fname fi)
    (hfiles : w.database.lookup filesKey = some (.files mof)) : mof' = mof :=
  Record.files.inj (Option.some_inj.mp (h.files.symm.trans hfiles))

theorem Acknowledges.fid_eq (h : Acknowledges w r req mof fname fi) {fid : FidType}
    (hfid : readPartAckFid r.packet = some fid) : req.partid.fid = fid :=
  Option.some_inj.mp ((fid_of_readPartAck h.request).symm.trans hfid)

theorem Acknowledges.name_eq (h : Acknowledges w r req mof fname' fi)
    (hname : mof.nameById.lookup req.partid.fid = some fname) : fname' = fname :=
  Option.some_inj.mp (h.name.symm.trans hname)

theorem Acknowledges.unique (h : Acknowledges w r req mof fname fi)
    (h' : Acknowledges w r req' mof' fname' fi') : req' = req ∧ fname' = fname ∧ fi' = fi := by
  obtain rfl := h'.files_eq h.files
  obtain rfl := Option.some_inj.mp (h'.request.symm.trans h.request)
  obtain rfl := h'.name_eq h.name
  exact ⟨rfl, rfl, Record.file.inj (Option.some_inj.mp (h'.file.symm.trans h.file))⟩

end Acknowledges

/-- **An acknowledgement.** It is recorded when everything it looks up is there, and otherwise
nothing happens. -/
theorem smPartAck_spec (w : World Record) (r : Request) :
    (smPartAck r).wp exec w fun _ w' =>
      (∃ req mof fname fi, Acknowledges w r req mof fname fi ∧
        view w' = view (putAck w req fname fi)) ∨
      (view w' = view w ∧ ∀ req mof fname fi, ¬ Acknowledges w r req mof fname fi) := by
  refine wp_cmdGet (fun hnone => .inr ⟨rfl, fun req mof fname fi h => ?_⟩) fun json hjson => ?_
  · cases h.files.symm.trans hnone
  refine wp_ofOption (fun hnone => .inr ⟨rfl, fun req mof fname fi h => ?_⟩) fun mof hmof => ?_
  · rw [Option.some_inj.mp (hjson.symm.trans h.files)] at hnone
    cases hnone
  rw [Record.files?_eq_some.mp hmof] at hjson
  refine wp_ofOption (fun hnone => .inr ⟨rfl, fun req mof fname fi h => ?_⟩) fun fid hfid => ?_
  · cases (fid_of_readPartAck h.request).symm.trans hnone
  refine wp_ofOption (fun hnone => .inr ⟨rfl, fun req mof' fname fi h => ?_⟩) fun fname hname => ?_
  · rw [← h.files_eq hjson, ← h.fid_eq hfid] at hnone
    cases h.name.symm.trans hnone
  have hname_eq {req : SM.PartAck} {mof' : MetaOnFilesItem} {fname' : Bytes} {fi : FileItem}
      (h : Acknowledges w r req mof' fname' fi) : fname' = fname := by
    rw [← h.files_eq hjson, ← h.fid_eq hfid] at hname
    exact h.name_eq hname
  refine wp_cmdGet (fun hnone => .inr ⟨rfl, fun req mof' fname' fi h => ?_⟩) fun json hfile => ?_
  · rw [← hname_eq h] at hnone
    cases h.file.symm.trans hnone
  refine wp_ofOption (fun hnone => .inr ⟨rfl, fun req mof' fname' fi h => ?_⟩) fun fi hfi => ?_
  · rw [← hname_eq h] at hfile
    rw [Option.some_inj.mp (hfile.symm.trans h.file)] at hnone
    cases hnone
  rw [Record.file?_eq_some.mp hfi] at hfile
  refine wp_ofOption (fun hnone => .inr ⟨rfl, fun req mof' fname' fi h => ?_⟩) fun req hreq => ?_
  · cases h.request.symm.trans hnone
  have hfid_eq := Option.some_inj.mp (hfid.symm.trans (fid_of_readPartAck hreq))
  have hack : Acknowledges w r req mof fname fi := ⟨hreq, hjson, hfid_eq ▸ hname, hfile⟩
  cases hparts : ackParts req fi.parts with | mk parts it => ?_
  have hput : w.put (fileKey fname) (.file { fi with parts := parts }) = putAck w req fname fi := by
    rw [putAck, hparts]
  have hrest (w' : World Record)
      (hview : view w' = view (w.put (fileKey fname) (.file { fi with parts := parts }))) :
      (∃ req mof fname fi, Acknowledges w r req mof fname fi ∧
        view w' = view (putAck w req fname fi)) ∨
      (view w' = view w ∧ ∀ req mof fname fi, ¬ Acknowledges w r req mof fname fi) :=
    .inl ⟨req, mof, fname, fi, hack, hput ▸ hview⟩
  refine wp_cmdPut (wp_ofOption (fun _ => hrest _ rfl) fun part _ => ?_)
  refine Program.wp_mono (Program.wp_of_all (fun _ hc w => view_exec hc w) ?_ _)
    fun _ => hrest
  split
  · exact Program.all_bind (minor_sendAck _ _) fun _ => Program.all_pure _
  · exact Program.all_bind (minor_replicate _ _ _) fun _ => Program.all_pure _

theorem view_smPartAck {w : World Record} {r : Request} {req : SM.PartAck} {mof : MetaOnFilesItem}
    {fname : Bytes} {fi : FileItem} (h : Acknowledges w r req mof fname fi) :
    view ((smPartAck r).run exec w).2 = view (putAck w req fname fi) := by
  rcases smPartAck_spec w r with ⟨req', mof', fname', fi', h', hview⟩ | ⟨-, hnone⟩
  · obtain ⟨rfl, rfl, rfl⟩ := h.unique h'
    exact hview
  · exact absurd h (hnone _ _ _ _)

theorem effects_smPartAck (r : Request) : Effects (smPartAck r) := by
  intro w
  refine Program.wp_mono (smPartAck_spec w r) ?_
  rintro _ w' (⟨req, mof, fname, fi, hack, hview⟩ | ⟨hview, -⟩)
  · simp only [view, Prod.mk.injEq] at hview
    exact .acked mof req fname fi hack.files hack.name hack.file hview.1 hview.2.1 hview.2.2
  · exact effect_of_view hview

theorem effects_smIdReq (r : Request) : Effects (smIdReq r) := by
  intro w
  refine wp_cmdGet (fun _ => effect_of_view rfl) fun json hjson => ?_
  refine wp_ofOption (fun _ => effect_of_view rfl) fun mos hmos => ?_
  refine wp_ofOption (fun _ => effect_of_view rfl) fun hostAddr _ => ?_
  refine wp_ofOption (fun _ => effect_of_view rfl) fun req _ => ?_
  refine wp_cmdPut (wp_cmdPut (wp_blockingSend (Program.wp_pure ?_)))
  refine .registered mos ⟨mos.count, hostAddr, req.port, req.avspace⟩ ?_ rfl rfl ?_ ?_
  · rw [hjson, Record.storages?_eq_some.mp hmos]
  · rw [uploads_send, if_neg fun h => fromto_ne h.1]
    rfl
  · rw [registrations_send, if_pos ⟨rfl, rfl⟩]
    rfl

/-- **Effects.** Every request writes in one of the three ways or not at all, however its handler
ends. -/
theorem effect_handle (w : World Record) (r : Request) : Effect w (handle w r) := by
  have h : Effects (recvDispatcher r) := by
    simp only [recvDispatcher]
    split_ifs
    · exact effects_of_minor (minor_sendError _ _)
    · exact effects_of_minor (Program.all_pure _)
    · exact effects_cmUpReq r
    · exact effects_of_minor (minor_cmDownReq r)
    · exact effects_of_minor (minor_cmDelReq r)
    · exact effects_smPartAck r
    · exact effects_smIdReq r
    · exact effects_of_minor (Program.all_pure _)
  exact h w

end Mp2p.Master
