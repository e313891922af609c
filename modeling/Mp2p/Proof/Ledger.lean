import Mp2p.Proof.Arrivals
import Mp2p.Proof.Requests

/-!
# The master's side of an upload

Every number that was handed out names a record, so an acknowledgement of its parts finds it. What a
record lists it keeps, whatever the master handles next. The answer to an upload carries the count of
the files and no more parts than a part number can count.
-/

namespace Mp2p.System

open Masks Network DB DB.Tools Master

section Ledger

variable {w w' : World Record} {mof : MetaOnFilesItem} {r : Request}

/-! ### What is kept -/

theorem exists_files_of_effect (h : Effect w w')
    (hfiles : w.database.lookup filesKey = some (.files mof)) :
    ∃ mof', w'.database.lookup filesKey = some (.files mof') ∧
      ∀ fid name, mof.nameById.lookup fid = some name → mof'.nameById.lookup fid = some name := by
  cases h with
  | unchanged hdatabase => exact ⟨mof, by rwa [hdatabase], fun _ _ => id⟩
  | created mof' fi hfiles' hfree hid hdatabase =>
      obtain rfl : mof' = mof := by
        rw [hfiles, Option.some_inj] at hfiles'
        cases hfiles'
        rfl
      refine ⟨addFile mof' fi, ?_, fun fid name hname => ?_⟩
      · rw [hdatabase, AList.lookup_insert_ne fileKey_ne_filesKey.symm, AList.lookup_insert]
      · rw [addFile, NameById.lookup_emplace, hname, Option.some_or]
  | acked mof' req fname fi hfiles' hname hfile hdatabase =>
      refine ⟨mof, ?_, fun _ _ => id⟩
      rwa [hdatabase, AList.lookup_insert_ne fileKey_ne_filesKey.symm]
  | registered mos si hstorages hid hdatabase =>
      refine ⟨mof, ?_, fun _ _ => id⟩
      rwa [hdatabase, AList.lookup_insert_ne filesKey_ne_storagesKey, storageKey,
        AList.lookup_insert_ne filesKey_ne_storageKey]

def Extends (fi fi' : FileItem) : Prop :=
  ∀ part ∈ fi.parts, ∃ part' ∈ fi'.parts, part'.numGet = part.numGet ∧
    part.locations ⊆ part'.locations

theorem Extends.refl (fi : FileItem) : Extends fi fi := fun part hpart =>
  ⟨part, hpart, rfl, List.Subset.refl _⟩

theorem locations_subset_addAck (ack : SM.PartAck) (part : PartItem) :
    part.locations ⊆ (addAck ack part).locations := by
  rw [addAck]
  split_ifs
  · exact List.subset_append_left _ _
  · exact List.Subset.refl _

theorem extends_ackParts (req : SM.PartAck) (fi : FileItem) :
    Extends fi { fi with parts := (ackParts req fi.parts).1 } := by
  intro part hpart
  refine ⟨addAck req part, ?_, numGet_addAck req part, locations_subset_addAck req part⟩
  rw [ackParts_fst]
  exact List.mem_append_left _ (List.mem_map_of_mem hpart)

theorem exists_file_of_effect (h : Effect w w') {name : Bytes} {fi : FileItem}
    (hfile : w.database.lookup (fileKey name) = some (.file fi)) :
    ∃ fi', w'.database.lookup (fileKey name) = some (.file fi') ∧ Extends fi fi' := by
  cases h with
  | unchanged hdatabase => exact ⟨fi, by rwa [hdatabase], .refl fi⟩
  | created mof' new hfiles' hfree hid hdatabase =>
      have hne : fileKey name ≠ fileKey new.name := by
        intro heq
        rw [heq, hfree] at hfile
        cases hfile
      refine ⟨fi, ?_, .refl fi⟩
      rwa [hdatabase, AList.lookup_insert_ne hne, AList.lookup_insert_ne fileKey_ne_filesKey]
  | acked mof' req fname old hfiles' hname hfile' hdatabase =>
      rw [hdatabase]
      by_cases hkey : fileKey name = fileKey fname
      · rw [← hkey, hfile, Option.some_inj] at hfile'
        cases hfile'
        rw [hkey]
        exact ⟨_, AList.lookup_insert _, extends_ackParts req fi⟩
      · exact ⟨fi, by rwa [AList.lookup_insert_ne hkey], .refl fi⟩
  | registered mos si hstorages hid hdatabase =>
      refine ⟨fi, ?_, .refl fi⟩
      rwa [hdatabase, AList.lookup_insert_ne fileKey_ne_storagesKey, storageKey,
        AList.lookup_insert_ne fileKey_ne_storageKey]

theorem recorded_iff {partid : PartId} {stid : StidType} : Recorded w partid stid ↔
    ∃ mof fname fi part, w.database.lookup filesKey = some (.files mof) ∧
      mof.nameById.lookup partid.fid = some fname ∧
      w.database.lookup (fileKey fname) = some (.file fi) ∧
      part ∈ fi.parts ∧ part.numGet = partid.partnum ∧ stid ∈ part.locations := by
  simp only [Recorded, Option.bind_eq_some_iff, Record.files?_eq_some, Record.file?_eq_some,
    exists_eq_right]

/-- **Records are kept.** What the record of a file lists, it lists after every packet. -/
theorem Recorded.effect {partid : PartId} {stid : StidType} (h : Recorded w partid stid)
    (heffect : Effect w w') : Recorded w' partid stid := by
  obtain ⟨mof, fname, fi, part, hfiles, hname, hfile, hpart, hnum, hlocation⟩ := recorded_iff.mp h
  obtain ⟨mof', hfiles', hnames⟩ := exists_files_of_effect heffect hfiles
  obtain ⟨fi', hfile', hextends⟩ := exists_file_of_effect heffect hfile
  obtain ⟨part', hpart', hnum', hlocations⟩ := hextends part hpart
  exact recorded_iff.mpr ⟨mof', fname, fi', part', hfiles', hnames _ _ hname, hfile', hpart',
    hnum'.trans hnum, hlocations hlocation⟩

/-! ### The numbers -/

/-- The count is that of the uploads, every number below it is named, and every name is that of a
record. -/
structure Ledger (w : World Record) (mof : MetaOnFilesItem) : Prop where
  files : w.database.lookup filesKey = some (.files mof)
  count : mof.count = UInt64.ofNat (uploads w)
  named : ∀ fid : FidType, fid.toNat < uploads w → (mof.nameById.lookup fid).isSome
  recorded : ∀ fid name, mof.nameById.lookup fid = some name →
    ∃ fi, w.database.lookup (fileKey name) = some (.file fi)

theorem ledger_initial : Ledger .initial ⟨0, 0, ∅⟩ where
  files := rfl
  count := rfl
  named := fun _ hlt => absurd hlt (Nat.not_lt_zero _)
  recorded := fun _ _ hname => nomatch hname

theorem Ledger.effect (h : Ledger w mof) (heffect : Effect w w') : ∃ mof', Ledger w' mof' := by
  have hrecorded : ∀ fid name, mof.nameById.lookup fid = some name →
      ∃ fi, w'.database.lookup (fileKey name) = some (.file fi) := by
    intro fid name hname
    obtain ⟨fi, hfile⟩ := h.recorded fid name hname
    obtain ⟨fi', hfile', -⟩ := exists_file_of_effect heffect hfile
    exact ⟨fi', hfile'⟩
  cases heffect with
  | unchanged hdatabase huploads =>
      exact ⟨mof, by rw [hdatabase, h.files], by rw [huploads, h.count],
        by rw [huploads]; exact h.named, hrecorded⟩
  | created mof' fi hfiles hfree hid hdatabase huploads =>
      obtain rfl : mof' = mof := by
        rw [h.files, Option.some_inj] at hfiles
        cases hfiles
        rfl
      have hnames (fid : FidType) : (addFile mof' fi).nameById.lookup fid =
          (mof'.nameById.lookup fid).or (if fi.id = fid then some fi.name else none) :=
        NameById.lookup_emplace ..
      refine ⟨addFile mof' fi, ?_, ?_, ?_, ?_⟩
      · rw [hdatabase, AList.lookup_insert_ne fileKey_ne_filesKey.symm, AList.lookup_insert]
      · rw [addFile, h.count, huploads, UInt64.ofNat_add]
        rfl
      · intro fid hlt
        rw [hnames]
        by_cases hnew : fi.id = fid
        · rw [if_pos hnew, Option.isSome_or, Option.isSome_some, Bool.or_true]
        · rw [if_neg hnew, Option.or_none]
          apply h.named
          have hne : fid.toNat ≠ uploads w := by
            intro heq
            apply hnew
            rw [hid, h.count, ← heq, UInt64.ofNat_toNat]
          omega
      · intro fid name hname
        rw [hnames] at hname
        cases hold : mof'.nameById.lookup fid with
        | some old =>
            rw [hold, Option.some_or, Option.some_inj] at hname
            exact hname ▸ hrecorded fid old hold
        | none =>
            rw [hold, Option.none_or, Option.ite_none_right_eq_some, Option.some_inj] at hname
            rw [← hname.2, hdatabase]
            exact ⟨fi, AList.lookup_insert _⟩
  | acked mof' req fname fi hfiles hname hfile hdatabase huploads =>
      refine ⟨mof, ?_, by rw [huploads, h.count], by rw [huploads]; exact h.named, hrecorded⟩
      rw [hdatabase, AList.lookup_insert_ne fileKey_ne_filesKey.symm, h.files]
  | registered mos si hstorages hid hdatabase huploads =>
      refine ⟨mof, ?_, by rw [huploads, h.count], by rw [huploads]; exact h.named, hrecorded⟩
      rw [hdatabase, AList.lookup_insert_ne filesKey_ne_storagesKey, storageKey,
        AList.lookup_insert_ne filesKey_ne_storageKey, h.files]

/-! ### Acknowledgements -/

/-- **An acknowledgement is recorded.** It finds the record of its file by the number and leaves an
item that lists the storage. -/
theorem recorded_of_partAck (h : Ledger w mof) {stid : StidType} {partid : PartId}
    {avspace : AvspaceType} (hfid : partid.fid.toNat < uploads w)
    (harrival : arrival (Storage.partAckPacket stid partid avspace) = some r.packet) :
    Recorded (handle w r) partid stid := by
  obtain ⟨fname, hname⟩ := Option.isSome_iff_exists.mp (h.named partid.fid hfid)
  obtain ⟨fi, hfile⟩ := h.recorded _ _ hname
  have hread := readPartAck_of_arrival harrival
  have hheader := (header_of_arrival harrival).trans (header_partAckPacket stid partid avspace)
  have hdispatch : recvDispatcher r = smPartAck r := by
    simp only [recvDispatcher, Packet.sizeGet, Packet.whatGet, Packet.fromtoGet, hheader]
    rfl
  have hview := view_smPartAck (r := r) ⟨hread, h.files, hname, hfile⟩
  rw [← hdispatch, view, view, Prod.mk.injEq] at hview
  have hdatabase : (handle w r).database = w.database.insert (fileKey fname)
      (.file { fi with parts := (ackParts ⟨stid, partid, avspace⟩ fi.parts).1 }) := hview.1
  refine recorded_iff.mpr ⟨mof, fname,
    { fi with parts := (ackParts ⟨stid, partid, avspace⟩ fi.parts).1 },
    ackItem ⟨stid, partid, avspace⟩, ?_, hname, ?_, ?_, rfl, List.mem_singleton_self _⟩
  · rw [hdatabase, AList.lookup_insert_ne fileKey_ne_filesKey.symm, h.files]
  · rw [hdatabase, AList.lookup_insert]
  · rw [ackParts_fst]
    exact List.mem_append_right _ (List.mem_singleton_self _)

/-! ### Answers -/

theorem placeCached_keeps (env : Env) (fuel : ℕ) (fileSize : FsizeType) (w : World Record) :
    (placeCached env fuel fileSize w).2.database = w.database ∧
      (placeCached env fuel fileSize w).2.sent = w.sent := by
  rw [placeCached]
  cases partsOfSize w.database fileSize with
  | none => exact ⟨rfl, rfl⟩
  | some nbParts =>
      dsimp only
      cases placeParts env fileSize nbParts w.statics.storages fuel 1 w.statics.currentRoundRobin []
        with
      | error e => exact ⟨rfl, rfl⟩
      | ok placed => exact ⟨rfl, rfl⟩

theorem getStpfieldsForUpload_keeps (hvalid : Statics.Valid w.statics) {env : Env} {fuel : ℕ}
    {fileSize : FsizeType} {result : Except Halt (List StpField)}
    (hrun : (getStpfieldsForUpload env fuel fileSize).run exec w = (result, w')) :
    w'.database = w.database ∧ w'.sent = w.sent ∧
      ∀ fields, result = .ok fields → Client.totalParts fields < 2 ^ 32 := by
  obtain ⟨w₁, hkept, hcached, hvalid₁, hplace⟩ | hnone | hthrew :=
    getStpfieldsForUpload_cases env fuel fileSize w hvalid
  · rw [hrun] at hplace
    have hkeeps := placeCached_keeps env fuel fileSize w₁
    rw [← hplace] at hkeeps
    refine ⟨hkeeps.1.trans hkept.1, hkeeps.2.trans hkept.2, ?_⟩
    rintro fields rfl
    obtain ⟨nbParts, tmpValues, places, h⟩ := placed_of_placeCached hvalid₁ hcached hplace.symm
    rw [totalParts_of_placementFields h.fields, h.places.total]
    exact nbParts.toNat_lt
  · rw [hrun] at hnone
    cases hnone
    refine ⟨rfl, rfl, ?_⟩
    rintro fields hfields
    cases hfields
    exact Nat.two_pow_pos 32
  · rw [hrun] at hthrew
    cases hthrew
    refine ⟨rfl, rfl, ?_⟩
    rintro fields hfields
    cases hfields

/-- The handler said nothing, or acknowledged, or gave out the next number. -/
inductive Answered (w w' : World Record) : Prop where
  | silent (hsent : w'.sent = w.sent)
  | refused (packet : Packet) (hwhat : packet.whatGet = ackW) (hsent : w'.sent = w.sent ++ [packet])
  | given (mof : MetaOnFilesItem) (fields : List StpField)
      (hfiles : w.database.lookup filesKey = some (.files mof))
      (hparts : Client.totalParts fields < 2 ^ 32)
      (hsent : w'.sent = w.sent ++ [upPiecesLocPacket mof.count fields])

theorem answered_sendError (packet : Packet) (code : ErrorCode) (w : World Record) :
    Answered w ((sendError packet code).run exec w).2 := by
  rw [run_sendError]
  cases fromtoInverse packet.fromtoGet with
  | none => exact .silent rfl
  | some fromtoDst => exact .refused _ rfl rfl

theorem answered_afterPlacement (r : Request) (fi : FileItem) {fields : List StpField}
    (hparts : Client.totalParts fields < 2 ^ 32) (w : World Record) :
    Answered w ((afterPlacement r fi fields).run exec w).2 := by
  by_cases hfew : fields.length < fi.redundancy.toNat
  · rw [run_afterPlacement_of_few hfew]
    exact answered_sendError _ _ w
  rw [run_afterPlacement_of_many hfew]
  obtain ⟨e, hrun⟩ | ⟨i, mof, -, hfiles, hrun⟩ := createNewFile_cases r.fuel fi w
  · rw [hrun]
    exact .silent rfl
  · rw [hrun]
    exact .given mof fields hfiles hparts rfl

theorem Answered.congr {w₁ : World Record} (h : Answered w₁ w')
    (hkept : w₁.database = w.database ∧ w₁.sent = w.sent) : Answered w w' := by
  cases h with
  | silent hsent => exact .silent (hsent.trans hkept.2)
  | refused packet hwhat hsent => exact .refused packet hwhat (hkept.2 ▸ hsent)
  | given mof fields hfiles hparts hsent =>
      exact .given mof fields (hkept.1 ▸ hfiles) hparts (hkept.2 ▸ hsent)

theorem answered_cmUpReq (hvalid : Statics.Valid w.statics) (r : Request) :
    Answered w ((cmUpReq r).run exec w).2 := by
  rw [run_cmUpReq]
  cases readUpReq r.packet with
  | none => exact .silent rfl
  | some upload =>
      obtain ⟨req, fname⟩ := upload
      dsimp only
      cases partsOfSize w.database req.fsize with
      | none => exact .silent rfl
      | some nbParts =>
          dsimp only
          split_ifs with hzero
          · exact answered_sendError _ _ w
          cases hrun : (getStpfieldsForUpload r.env r.fuel req.fsize).run exec w with
          | mk result w' =>
              obtain ⟨hdatabase, hsent, hparts⟩ := getStpfieldsForUpload_keeps hvalid hrun
              cases result with
              | error e => exact .silent hsent
              | ok fields =>
                  have hanswered := answered_afterPlacement r (newFile req fname) (hparts fields rfl)
                    w'
                  exact hanswered.congr ⟨hdatabase, hsent⟩

/-- **The answer to an upload.** It carries the count of the files, and the uploads are one more. -/
theorem exists_fields_of_answer (hvalid : Statics.Valid w.statics) {fsize : FsizeType}
    {rdcy : RdcyType} {fname : Bytes} {answer : Packet}
    (hrequest : arrival (Client.upReqPacket fsize rdcy fname) = some r.packet)
    (hanswer : (handle w r).sent = w.sent ++ [answer]) (hwhat : answer.whatGet = MC.upPiecesLocW) :
    uploads (handle w r) = uploads w + 1 ∧ ∃ mof fields,
      w.database.lookup filesKey = some (.files mof) ∧ Client.totalParts fields < 2 ^ 32 ∧
      answer = upPiecesLocPacket mof.count fields := by
  have htype : r.packet.header.type = ⟨CM.fromto, CM.upReqW⟩ :=
    congrArg PacketHeader.type (header_of_arrival hrequest)
  have hkind : kindOf r.packet = .invalid ∨ kindOf r.packet = .upReq := by
    rw [kindOf, Packet.whatGet, Packet.fromtoGet, htype]
    by_cases hsize : r.packet.sizeGet < 1
    · exact .inl (if_pos hsize)
    · exact .inr (if_neg hsize)
  have hanswered : Answered w (handle w r) := by
    rw [handle, recvDispatcher_eq]
    obtain hkind | hkind := hkind
    · rw [hkind]
      exact answered_sendError _ _ w
    · rw [hkind]
      exact answered_cmUpReq hvalid r
  cases hanswered with
  | silent hsent => simp [hsent] at hanswer
  | refused packet hack hsent =>
      rw [hsent, List.append_cancel_left_eq, List.cons.injEq] at hanswer
      rw [hanswer.1, hwhat] at hack
      exact absurd hack (by decide)
  | given mof fields hfiles hparts hsent =>
      rw [hsent, List.append_cancel_left_eq, List.cons.injEq] at hanswer
      refine ⟨?_, mof, fields, hfiles, hparts, hanswer.1.symm⟩
      rw [uploads, hsent, List.countP_append, uploads, List.countP_singleton]
      rfl

end Ledger

end Mp2p.System
