import Mp2p.Proof.Metadata
import Mp2p.Proof.Requests

/-!
# Where the record of a file comes from

A record of a file that a request leaves behind was there before, or is a new one without parts, or
is an old one with the acknowledgement of the request among its parts.
-/

namespace Mp2p.Master

open Masks Network DB DB.Tools

inductive EntryOf (w : World Record) (r : Request) (name : Bytes) (fi : FileItem) : Prop where
  | kept (hfile : w.database.lookup (fileKey name) = some (.file fi))
  | fresh (hkind : kindOf r.packet = .upReq) (hfree : w.database.lookup (fileKey name) = none)
      (hparts : fi.parts = [])
  | acked (req : SM.PartAck) (mof : MetaOnFilesItem) (old : FileItem)
      (hkind : kindOf r.packet = .partAck) (hack : Acknowledges w r req mof name old)
      (heq : fi = { old with parts := (ackParts req old.parts).1 })

section Entries

variable {w w' : World Record} {r : Request} {name : Bytes} {fi : FileItem}

/-- The files stay consistent whatever is registered. -/
theorem FilesConsistent.effect {mof : MetaOnFilesItem} (h : FilesConsistent w.database mof)
    (hcount : mof.count.toNat = uploads w) (heffect : Effect w w') (hfew : uploads w' < 2 ^ 64) :
    ∃ mof', FilesConsistent w'.database mof' ∧ mof'.count.toNat = uploads w' := by
  cases heffect with
  | unchanged hdatabase huploads => exact ⟨mof, hdatabase ▸ h, hcount.trans huploads.symm⟩
  | created mof' fi hfiles hfree hid hdatabase huploads =>
      obtain rfl : mof' = mof := by
        rw [h.files, Option.some_inj] at hfiles
        cases hfiles
        rfl
      have hlt : mof'.count.toNat + 1 < 2 ^ 64 := by rwa [hcount, ← huploads]
      refine ⟨addFile mof' fi, ?_, ?_⟩
      · rw [hdatabase]
        exact h.create hfree hid hlt
      · rw [huploads, ← hcount]
        exact toNat_count_succ hlt
  | acked mof' req fname fi hfiles hname hfile hdatabase huploads =>
      refine ⟨mof, ?_, hcount.trans huploads.symm⟩
      rw [hdatabase]
      exact h.update hfile ⟨rfl, rfl, rfl⟩
  | registered mos si hstorages hid hdatabase huploads =>
      refine ⟨mof, ?_, hcount.trans huploads.symm⟩
      rw [hdatabase]
      apply h.congr
      · rw [AList.lookup_insert_ne filesKey_ne_storagesKey]
        exact AList.lookup_insert_ne filesKey_ne_storageKey
      · intro name
        rw [AList.lookup_insert_ne fileKey_ne_storagesKey]
        exact congrArg _ (AList.lookup_insert_ne fileKey_ne_storageKey)

theorem entryOf_of_database (hdatabase : w'.database = w.database)
    (hfile : w'.database.lookup (fileKey name) = some (.file fi)) : EntryOf w r name fi :=
  .kept (hdatabase ▸ hfile)

theorem database_of_minor {α : Type} {p : Handler Record α} (h : p.All Minor) (w : World Record) :
    (p.run exec w).2.database = w.database := by
  have hview : view (p.run exec w).2 = view w :=
    Program.wp_of_all (fun _ hc w => view_exec hc w) h w
  exact congrArg Prod.fst hview

theorem entryOf_of_minor {p : Handler Record KeepAlive} (h : p.All Minor)
    (hdatabase : w'.database = w.database)
    (hfile : (p.run exec w').2.database.lookup (fileKey name) = some (.file fi)) :
    EntryOf w r name fi :=
  entryOf_of_database ((database_of_minor h w').trans hdatabase) hfile

/-- A file is created under a free name, without parts. -/
theorem entryOf_created (hkind : kindOf r.packet = .upReq) (hdatabase : w'.database = w.database)
    {mof : MetaOnFilesItem} {new : FileItem}
    (hfree : w'.database.lookup (fileKey new.name) = none) (hparts : new.parts = [])
    (hfile : (World.created w' mof new).database.lookup (fileKey name) = some (.file fi)) :
    EntryOf w r name fi := by
  rw [hdatabase] at hfree
  change AList.lookup _ (AList.insert _ _ (AList.insert _ _ _)) = _ at hfile
  by_cases hname : fileKey name = fileKey new.name
  · rw [hname, AList.lookup_insert, Option.some_inj, Record.file.injEq] at hfile
    obtain rfl : name = new.name := fileKey_injective hname
    exact .fresh hkind hfree (hfile ▸ hparts)
  · rw [AList.lookup_insert_ne hname, AList.lookup_insert_ne fileKey_ne_filesKey, hdatabase] at hfile
    exact .kept hfile

theorem entryOf_cmUpReq (hkind : kindOf r.packet = .upReq)
    (hfile : ((cmUpReq r).run exec w).2.database.lookup (fileKey name) = some (.file fi)) :
    EntryOf w r name fi := by
  rw [run_cmUpReq] at hfile
  cases hread : readUpReq r.packet with
  | none =>
      rw [hread] at hfile
      exact .kept hfile
  | some upload =>
      obtain ⟨req, fname⟩ := upload
      rw [hread] at hfile
      dsimp only at hfile
      cases hparts : partsOfSize w.database req.fsize with
      | none =>
          rw [hparts] at hfile
          exact .kept hfile
      | some nbParts =>
          rw [hparts] at hfile
          dsimp only at hfile
          split_ifs at hfile with hzero
          · exact entryOf_of_minor (minor_sendError _ _) rfl hfile
          have hplaced := database_of_minor (minor_getStpfieldsForUpload r.env r.fuel req.fsize) w
          cases hrun : (getStpfieldsForUpload r.env r.fuel req.fsize).run exec w with
          | mk result w₁ =>
              rw [hrun] at hfile hplaced
              dsimp only at hfile hplaced
              cases result with
              | error e => exact entryOf_of_database hplaced hfile
              | ok fields =>
                  dsimp only at hfile
                  by_cases hfew : fields.length < (newFile req fname).redundancy.toNat
                  · rw [run_afterPlacement_of_few hfew] at hfile
                    exact entryOf_of_minor (minor_sendError _ _) hplaced hfile
                  rw [run_afterPlacement_of_many hfew] at hfile
                  obtain ⟨e, hstopped⟩ | ⟨i, mof, hfree, -, hcreated⟩ :=
                    createNewFile_cases r.fuel (newFile req fname) w₁
                  · rw [hstopped] at hfile
                    exact entryOf_of_database hplaced hfile
                  · rw [hcreated] at hfile
                    refine entryOf_created hkind hplaced ?_ ?_ hfile
                    · exact hfree
                    · rfl

theorem entryOf_smIdReq
    (hfile : ((smIdReq r).run exec w).2.database.lookup (fileKey name) = some (.file fi)) :
    EntryOf w r name fi := by
  have h : (smIdReq r).wp exec w fun _ w' =>
      w'.database.lookup (fileKey name) = w.database.lookup (fileKey name) := by
    refine wp_cmdGet (fun _ => rfl) fun json _ => ?_
    refine wp_ofOption (fun _ => rfl) fun mos _ => ?_
    refine wp_ofOption (fun _ => rfl) fun hostAddr _ => ?_
    refine wp_ofOption (fun _ => rfl) fun req _ => ?_
    refine wp_cmdPut (wp_cmdPut (wp_blockingSend (Program.wp_pure ?_)))
    exact (AList.lookup_insert_ne fileKey_ne_storagesKey).trans
      (AList.lookup_insert_ne fileKey_ne_storageKey)
  rw [Program.wp, hfile] at h
  exact .kept h.symm

theorem entryOf_smPartAck (hkind : kindOf r.packet = .partAck)
    (hfile : ((smPartAck r).run exec w).2.database.lookup (fileKey name) = some (.file fi)) :
    EntryOf w r name fi := by
  obtain ⟨req, mof, fname, old, hack, hview⟩ | ⟨hview, -⟩ := smPartAck_spec w r
  · have hdatabase : ((smPartAck r).run exec w).2.database = (putAck w req fname old).database :=
      congrArg Prod.fst hview
    rw [hdatabase] at hfile
    change AList.lookup _ (AList.insert _ _ _) = _ at hfile
    by_cases hname : fileKey name = fileKey fname
    · obtain rfl : name = fname := fileKey_injective hname
      rw [AList.lookup_insert, Option.some_inj, Record.file.injEq] at hfile
      exact .acked req mof old hkind hack hfile.symm
    · rw [AList.lookup_insert_ne hname] at hfile
      exact .kept hfile
  · exact entryOf_of_database (congrArg Prod.fst hview) hfile

/-- **Every record.** -/
theorem entryOf_handle (hfile : (handle w r).database.lookup (fileKey name) = some (.file fi)) :
    EntryOf w r name fi := by
  rw [handle, recvDispatcher_eq] at hfile
  cases hkind : kindOf r.packet with
  | invalid =>
      rw [hkind] at hfile
      exact entryOf_of_minor (minor_sendError _ _) rfl hfile
  | ignored =>
      rw [hkind] at hfile
      exact .kept hfile
  | upReq =>
      rw [hkind] at hfile
      exact entryOf_cmUpReq hkind hfile
  | downReq =>
      rw [hkind] at hfile
      exact entryOf_of_minor (minor_cmDownReq r) rfl hfile
  | delReq =>
      rw [hkind] at hfile
      exact entryOf_of_minor (minor_cmDelReq r) rfl hfile
  | partAck =>
      rw [hkind] at hfile
      exact entryOf_smPartAck hkind hfile
  | idReq =>
      rw [hkind] at hfile
      exact entryOf_smIdReq hfile

/-- An acknowledgement accepts no upload. -/
theorem uploads_of_partAck (w : World Record) (hkind : kindOf r.packet = .partAck) :
    uploads (handle w r) = uploads w := by
  rw [handle, recvDispatcher_eq, hkind]
  obtain ⟨req, mof, fname, fi, -, hview⟩ | ⟨hview, -⟩ := smPartAck_spec w r
  · exact congrArg (fun v => v.2.1) hview
  · exact congrArg (fun v => v.2.1) hview

end Entries

end Mp2p.Master
