import Mp2p.Proof.Requests

/-!
# What the handlers do to the static variables

Only an upload sets the round robin up, and nobody else writes its variables but to have them set up
again. So what a request leaves in them is what it found, or what a placement left, or it is not
used any more. The records of the storages, which they copy, only a registration writes.
-/

namespace Mp2p.Master

open Masks Network DB DB.Tools

/-- A command that writes no record of a storage, and the static variables only to have them set up
again. -/
def Resetting : Command Record → Prop
  | .put key _ => key = filesKey ∨ ∃ name, key = fileKey name
  | .setStatics statics => statics.iteratorInitialized = false
  | _ => True

def Resets (w w' : World Record) : Prop :=
  w'.statics = w.statics ∨ w'.statics.iteratorInitialized = false

section Reset

variable {α : Type} {w w' : World Record} {p : Handler Record α}

theorem Resets.refl (w : World Record) : Resets w w := .inl rfl

theorem Resets.exec (h : Resets w w') {command : Command Record} (hcommand : Resetting command) :
    Resets w (DB.exec command w').2 := by
  cases command with
  | setStatics statics => exact .inr hcommand
  | get key => exact h
  | put key record => exact h
  | statics => exact h
  | send packet => exact h

theorem resets_of_all (hp : p.All Resetting) : Resets w (p.run exec w).2 :=
  Program.wp_of_invariant (fun _ hcommand _ h => h.exec hcommand) hp (Resets.refl w)

theorem allStorages_exec {command : Command Record} (hcommand : Resetting command)
    (w : World Record) :
    allStorages (DB.exec command w).2.database = allStorages w.database := by
  cases command with
  | put key record =>
      apply allStorages_congr
      · apply AList.lookup_insert_ne
        obtain rfl | ⟨name, rfl⟩ := hcommand
        · exact filesKey_ne_storagesKey.symm
        · exact fileKey_ne_storagesKey.symm
      · intro id
        apply AList.lookup_insert_ne
        obtain rfl | ⟨name, rfl⟩ := hcommand
        · exact filesKey_ne_storageKey.symm
        · exact fileKey_ne_storageKey.symm
  | get key => rfl
  | statics => rfl
  | setStatics statics => rfl
  | send packet => rfl

theorem allStorages_of_all (hp : p.All Resetting) :
    allStorages (p.run exec w).2.database = allStorages w.database := by
  have h : p.wp exec w fun _ w' => allStorages w'.database = allStorages w.database :=
    Program.wp_of_all (fun _ hcommand w => allStorages_exec hcommand w) hp w
  exact h

theorem resetting_cmdGet (key : Bytes) : (cmdGet key).All Resetting :=
  Program.all_bind (Program.all_perform trivial) fun _ => Program.all_ofOption _ _

theorem resetting_getStorages (ids : List StidType) : (getStorages ids).All Resetting := by
  induction ids with
  | nil => trivial
  | cons i rest ih =>
      apply Program.all_bind (resetting_cmdGet _)
      intro json
      apply Program.all_bind (Program.all_ofOption _ _)
      intro st
      exact Program.all_bind ih fun _ => Program.all_pure _

theorem resetting_getAllStorages : getAllStorages.All Resetting := by
  apply Program.all_bind (resetting_cmdGet _)
  intro json
  apply Program.all_bind (Program.all_ofOption _ _)
  intro mos
  apply Program.all_bind (resetting_getStorages _)
  intro storages
  apply Program.all_bind (Program.all_perform trivial)
  intro statics
  exact Program.all_bind (Program.all_perform rfl) fun _ => Program.all_pure _

theorem resetting_sendAck (packet : Packet) (ack : ErrorCode) :
    (sendAck packet ack).All Resetting :=
  Program.all_bind (Program.all_ofOption _ _) fun _ => Program.all_perform trivial

theorem resetting_sendError (packet : Packet) (code : ErrorCode) :
    (sendError packet code).All Resetting :=
  Program.all_bind (resetting_sendAck _ _) fun _ => Program.all_pure _

theorem resetting_firstField (fields : List StpField) : (firstField fields).All Resetting := by
  unfold firstField
  split
  · exact Program.all_throw _
  · exact Program.all_pure _

theorem resetting_searchName (tmpName : Bytes) (fuel : ℕ) (i : UInt64) :
    (searchName tmpName fuel i).All Resetting := by
  induction fuel generalizing i with
  | zero => trivial
  | succ fuel ih =>
      apply Program.all_bind (Program.all_perform trivial)
      intro record
      split
      · exact ih _
      · exact Program.all_pure _

theorem resetting_createNewFile (fuel : ℕ) (fi : FileItem) :
    (createNewFile fuel fi).All Resetting := by
  apply Program.all_bind (resetting_searchName _ _ _)
  intro name
  apply Program.all_bind (resetting_cmdGet _)
  intro json
  apply Program.all_bind (Program.all_ofOption _ _)
  intro mof
  apply Program.all_bind (Program.all_perform (.inl rfl))
  intro _
  exact Program.all_bind (Program.all_perform (.inr ⟨_, rfl⟩)) fun _ => Program.all_pure _

theorem resetting_afterPlacement (r : Request) (fi : FileItem) (fields : List StpField) :
    (afterPlacement r fi fields).All Resetting := by
  rw [afterPlacement]
  split
  · exact resetting_sendError _ _
  apply Program.all_bind (resetting_createNewFile _ _)
  intro fi
  apply Program.all_bind (Program.all_perform trivial)
  intro _
  exact Program.all_bind (resetting_firstField _) fun _ => Program.all_pure _

theorem resetting_cmDownReq (r : Request) : (cmDownReq r).All Resetting := by
  apply Program.all_bind (Program.all_ofOption _ _)
  intro fname
  apply Program.all_bind (Program.all_perform trivial)
  intro json
  split
  · exact resetting_sendError _ _
  apply Program.all_bind (Program.all_ofOption _ _)
  intro fi
  apply Program.all_bind resetting_getAllStorages
  intro storages
  split
  · exact resetting_sendError _ _
  apply Program.all_bind (Program.all_perform trivial)
  intro _
  exact Program.all_bind (resetting_firstField _) fun _ => Program.all_pure _

theorem resetting_deleteParts (packet : Packet) (parts : List PartItem) :
    (deleteParts packet parts).All Resetting := by
  induction parts with
  | nil => trivial
  | cons part rest ih =>
      rw [deleteParts]
      split
      · exact resetting_sendError _ _
      · exact Program.all_bind (Program.all_perform trivial) fun _ => ih

theorem resetting_cmDelReq (r : Request) : (cmDelReq r).All Resetting := by
  apply Program.all_bind (Program.all_ofOption _ _)
  intro fname
  apply Program.all_bind (Program.all_perform trivial)
  intro json
  split
  · exact resetting_sendError _ _
  apply Program.all_bind (Program.all_ofOption _ _)
  intro fi
  exact Program.all_bind resetting_getAllStorages fun _ => resetting_deleteParts _ _

theorem resetting_replicate (r : Request) (req : SM.PartAck) (part : PartItem) :
    (replicate r req part).All Resetting := by
  apply Program.all_bind resetting_getAllStorages
  intro storages
  split
  · exact Program.all_pure _
  · exact Program.all_bind (Program.all_ofOption _ _) fun _ => Program.all_perform trivial

theorem resetting_smPartAck (r : Request) : (smPartAck r).All Resetting := by
  apply Program.all_bind (resetting_cmdGet _)
  intro json
  apply Program.all_bind (Program.all_ofOption _ _)
  intro mof
  apply Program.all_bind (Program.all_ofOption _ _)
  intro fid
  apply Program.all_bind (Program.all_ofOption _ _)
  intro fname
  apply Program.all_bind (resetting_cmdGet _)
  intro json
  apply Program.all_bind (Program.all_ofOption _ _)
  intro fi
  apply Program.all_bind (Program.all_ofOption _ _)
  intro req
  apply Program.all_bind (Program.all_perform (.inr ⟨_, rfl⟩))
  intro _
  apply Program.all_bind (Program.all_ofOption _ _)
  intro part
  split
  · exact Program.all_bind (resetting_sendAck _ _) fun _ => Program.all_pure _
  · exact Program.all_bind (resetting_replicate _ _ _) fun _ => Program.all_pure _

theorem resetting_handlerOf {kind : Kind} (hup : kind ≠ .upReq) (hid : kind ≠ .idReq)
    (r : Request) : (handlerOf kind r).All Resetting := by
  cases kind with
  | invalid => exact resetting_sendError _ _
  | ignored => exact Program.all_pure _
  | upReq => exact absurd rfl hup
  | downReq => exact resetting_cmDownReq r
  | delReq => exact resetting_cmDelReq r
  | partAck => exact resetting_smPartAck r
  | idReq => exact absurd rfl hid

/-- Nobody but an upload sets the round robin up. -/
theorem resets_handle {r : Request} (hup : kindOf r.packet ≠ .upReq) : Resets w (handle w r) := by
  rw [handle, recvDispatcher_eq]
  by_cases hid : kindOf r.packet = .idReq
  · rw [hid]
    exact .inl (statics_smIdReq r w)
  · exact resets_of_all (resetting_handlerOf hup hid r)

/-- An upload leaves the static variables as they were, or as its placement leaves them, or they
have to be set up again. -/
theorem resets_cmUpReq (r : Request) : Resets w ((cmUpReq r).run exec w).2 ∨
    ∃ fileSize, Resets ((getStpfieldsForUpload r.env r.fuel fileSize).run exec w).2
      ((cmUpReq r).run exec w).2 := by
  rw [run_cmUpReq]
  cases readUpReq r.packet with
  | none => exact .inl (Resets.refl w)
  | some upload =>
      obtain ⟨req, fname⟩ := upload
      dsimp only
      cases partsOfSize w.database req.fsize with
      | none => exact .inl (Resets.refl w)
      | some nbParts =>
          dsimp only
          by_cases hzero : nbParts = 0
          · rw [if_pos hzero]
            exact .inl (resets_of_all (resetting_sendError _ _))
          rw [if_neg hzero]
          right
          use req.fsize
          cases (getStpfieldsForUpload r.env r.fuel req.fsize).run exec w with
          | mk result w' =>
              cases result with
              | error e => exact Resets.refl w'
              | ok fields => exact resets_of_all (resetting_afterPlacement _ _ _)

end Reset

end Mp2p.Master
