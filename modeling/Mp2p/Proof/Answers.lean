import Mp2p.Master.Callbacks
import Mp2p.Proof.Procedures

/-!
# How each request is answered

What a handler of the master comes to, as a function of the packet, the database and the static
variables: how it ends, what it writes and what it sends.
-/

namespace Mp2p.Master

open Masks Network DB DB.Tools

def sending {V : Type} (w : World V) (packets : List Packet) : World V :=
  { w with sent := w.sent ++ packets }

@[simp] theorem sending_nil {V : Type} (w : World V) : sending w [] = w := by
  rw [sending, List.append_nil]

@[simp] theorem sending_sending {V : Type} (w : World V) (first second : List Packet) :
    sending (sending w first) second = sending w (first ++ second) := by
  rw [sending, sending, sending, List.append_assoc]

section Answers

variable {V : Type} {r : Request} {w : World V}

theorem run_sendAck (packet : Packet) (ack : ErrorCode) (w : World V) :
    (sendAck packet ack).run exec w = match fromtoInverse packet.fromtoGet with
      | none => (.error .fault, w)
      | some fromtoDst => (.ok (), sending w [ackPacket fromtoDst ack]) := by
  rw [sendAck, Program.run_bind, Program.run_ofOption]
  cases fromtoInverse packet.fromtoGet with
  | none => rfl
  | some fromtoDst => rfl

theorem run_sendError (packet : Packet) (code : ErrorCode) (w : World V) :
    (sendError packet code).run exec w = match fromtoInverse packet.fromtoGet with
      | none => (.error .fault, w)
      | some fromtoDst => (.ok .no, sending w [ackPacket fromtoDst code]) := by
  rw [sendError, Program.run_bind, run_sendAck]
  cases fromtoInverse packet.fromtoGet with
  | none => rfl
  | some fromtoDst => rfl

theorem run_sendError_client {packet : Packet} (hfromto : packet.fromtoGet = CM.fromto)
    (code : ErrorCode) (w : World V) : (sendError packet code).run exec w =
      (.ok .no, sending w [ackPacket MC.fromto code]) := by
  rw [run_sendError, hfromto]
  rfl

theorem run_firstField (fields : List StpField) (w : World V) : (firstField fields).run exec w =
    (if fields = [] then .error .fault else .ok (), w) := by
  rw [firstField]
  split_ifs
  · rfl
  · rfl

/-! ### Uploads -/

variable [Coding V]

/-- What an upload request comes to behind the placement. -/
def afterPlacement (r : Request) (fi : FileItem) (fields : List StpField) : Handler V KeepAlive :=
  if fields.length < fi.redundancy.toNat then sendError r.packet .redundancy
  else do
    let fi ← createNewFile r.fuel fi
    blockingSend (upPiecesLocPacket fi.id fields)
    firstField fields
    pure .no

def newFile (req : CM.UpReq) (fname : Bytes) : FileItem :=
  ⟨0, fname, req.fsize, req.rdcy, 0, blankHash, false, []⟩

theorem run_cmUpReq (r : Request) (w : World V) :
    (cmUpReq r).run exec w = match readUpReq r.packet with
      | none => (.error .fault, w)
      | some (req, fname) => match partsOfSize w.database req.fsize with
        | none => (.error .exception, w)
        | some nbParts =>
            if nbParts = 0 then (sendError r.packet .missingStorage).run exec w
            else match (getStpfieldsForUpload r.env r.fuel req.fsize).run exec w with
              | (.error e, w') => (.error e, w')
              | (.ok fields, w') => (afterPlacement r (newFile req fname) fields).run exec w' := by
  rw [cmUpReq]
  cases readUpReq r.packet with
  | none => rfl
  | some upload =>
      obtain ⟨req, fname⟩ := upload
      change ((Tools.numberOfParts req.fsize) >>= _).run exec w = _
      rw [Program.run_bind, run_numberOfParts]
      dsimp only
      cases partsOfSize w.database req.fsize with
      | none => rfl
      | some nbParts =>
          dsimp only [Option.elim_some]
          by_cases hzero : nbParts = 0
          · rw [if_pos hzero, if_pos hzero]
          · rw [if_neg hzero, if_neg hzero, Program.run_bind]
            cases (getStpfieldsForUpload r.env r.fuel req.fsize).run exec w with
            | mk result w' =>
                cases result with
                | error e => rfl
                | ok fields => rfl

theorem run_afterPlacement_of_few {fields : List StpField} {fi : FileItem}
    (hfew : fields.length < fi.redundancy.toNat) :
    (afterPlacement r fi fields).run exec w = (sendError r.packet .redundancy).run exec w := by
  rw [afterPlacement, if_pos hfew]

theorem run_afterPlacement_of_many {fields : List StpField} {fi : FileItem}
    (hmany : ¬fields.length < fi.redundancy.toNat) :
    (afterPlacement r fi fields).run exec w = match (createNewFile r.fuel fi).run exec w with
      | (.error e, w') => (.error e, w')
      | (.ok fi, w') => (if fields = [] then .error .fault else .ok .no,
          sending w' [upPiecesLocPacket fi.id fields]) := by
  rw [afterPlacement, if_neg hmany, Program.run_bind]
  cases (createNewFile r.fuel fi).run exec w with
  | mk result w' =>
      cases result with
      | error e => rfl
      | ok fi' =>
          dsimp only
          change ((firstField fields) >>= _).run exec (sending w' _) = _
          rw [Program.run_bind, run_firstField]
          by_cases hempty : fields = []
          · rw [if_pos hempty, if_pos hempty]
          · rw [if_neg hempty, if_neg hempty]
            rfl

/-- The file is created and its number given out. -/
theorem run_afterPlacement_of_created {fields : List StpField} {fi fi' : FileItem} {w' : World V}
    (hmany : ¬fields.length < fi.redundancy.toNat) (hne : fields ≠ [])
    (hcreate : (createNewFile r.fuel fi).run exec w = (.ok fi', w')) :
    (afterPlacement r fi fields).run exec w =
      (.ok .no, sending w' [upPiecesLocPacket fi'.id fields]) := by
  rw [run_afterPlacement_of_many hmany, hcreate]
  dsimp only
  rw [if_neg hne]

/-! ### Downloads and deletions -/

theorem run_cmDownReq (r : Request) (w : World V) :
    (cmDownReq r).run exec w = match readFname r.packet with
      | none => (.error .fault, w)
      | some fname => match w.database.lookup (fileKey fname) with
        | none => (sendError r.packet .fileNotFound).run exec w
        | some json => match Coding.file? json with
          | none => (.error .exception, w)
          | some fi => match allStorages w.database with
            | none => (.error .exception, w)
            | some storages => match downloadFields r.env storages fi.parts with
              | none => (sendError r.packet .incompleteFile).run exec (World.reset w)
              | some fields => (if fields = [] then .error .fault else .ok .no,
                  sending (World.reset w) [downPiecesLocPacket fi.fileSize fi.id fields]) := by
  rw [cmDownReq]
  cases readFname r.packet with
  | none => rfl
  | some fname =>
      rw [Program.run_bind, Program.run_ofOption]
      dsimp only [Option.elim_some]
      rw [run_tryGet]
      cases w.database.lookup (fileKey fname) with
      | none => rfl
      | some json =>
          dsimp only
          rw [Program.run_bind, Program.run_ofOption]
          cases Coding.file? json with
          | none => rfl
          | some fi =>
              dsimp only [Option.elim_some]
              rw [Program.run_bind, run_getAllStorages]
              cases allStorages w.database with
              | none => rfl
              | some storages =>
                  dsimp only
                  cases downloadFields r.env storages fi.parts with
                  | none => rfl
                  | some fields =>
                      dsimp only
                      change ((firstField fields) >>= _).run exec (sending (World.reset w) _) = _
                      rw [Program.run_bind, run_firstField]
                      by_cases hempty : fields = []
                      · rw [if_pos hempty, if_pos hempty]
                      · rw [if_neg hempty, if_neg hempty]
                        rfl

def deletedParts (parts : List PartItem) : List PartItem :=
  parts.takeWhile fun part => part.locations.length ≠ 0

omit [Coding V] in
theorem run_deleteParts (packet : Packet) (parts : List PartItem) (w : World V) :
    (deleteParts packet parts).run exec w =
      (let w' := sending w
        (List.replicate (deletedParts parts).length (Packet.ofType MS.fromto MS.delActW))
      if (deletedParts parts).length = parts.length then (.ok .no, w')
      else (sendError packet .incompleteFile).run exec w') := by
  induction parts generalizing w with
  | nil =>
      change (Except.ok KeepAlive.no, w) = (Except.ok KeepAlive.no, sending w [])
      rw [sending_nil]
  | cons part rest ih =>
      rw [deleteParts]
      by_cases hnone : part.locations.length = 0
      · have hdeleted : deletedParts (part :: rest) = [] :=
          List.takeWhile_cons_of_neg (by simpa using hnone)
        rw [if_pos hnone, hdeleted]
        change _ = (sendError packet .incompleteFile).run exec (sending w [])
        rw [sending_nil]
      · have hdeleted : deletedParts (part :: rest) = part :: deletedParts rest :=
          List.takeWhile_cons_of_pos (by simpa using hnone)
        rw [if_neg hnone, hdeleted]
        change (deleteParts packet rest).run exec (sending w [_]) = _
        rw [ih]
        dsimp only
        rw [sending_sending, List.length_cons, List.length_cons, List.replicate_succ,
          List.singleton_append]
        simp only [Nat.add_right_cancel_iff]

theorem run_cmDelReq (r : Request) (w : World V) :
    (cmDelReq r).run exec w = match readFname r.packet with
      | none => (.error .fault, w)
      | some fname => match w.database.lookup fname with
        | none => (sendError r.packet .fileNotFound).run exec w
        | some json => match Coding.file? json with
          | none => (.error .exception, w)
          | some fi => match allStorages w.database with
            | none => (.error .exception, w)
            | some _ => (deleteParts r.packet fi.parts).run exec (World.reset w) := by
  rw [cmDelReq]
  cases readFname r.packet with
  | none => rfl
  | some fname =>
      rw [Program.run_bind, Program.run_ofOption]
      dsimp only [Option.elim_some]
      rw [run_tryGet]
      cases w.database.lookup fname with
      | none => rfl
      | some json =>
          dsimp only
          rw [Program.run_bind, Program.run_ofOption]
          cases Coding.file? json with
          | none => rfl
          | some fi =>
              dsimp only [Option.elim_some]
              rw [Program.run_bind, run_getAllStorages]
              cases allStorages w.database with
              | none => rfl
              | some storages => rfl

/-! ### Storages -/

theorem run_replicate (r : Request) (req : SM.PartAck) (part : PartItem) (w : World V) :
    (replicate r req part).run exec w = match allStorages w.database with
      | none => (.error .exception, w)
      | some storages =>
          match (r.env.shuffle storages).find? fun st => st.id ∉ part.locations with
          | none => (.ok (), World.reset w)
          | some st => match st.addrGet r.env with
            | none => (.error .exception, World.reset w)
            | some addr => (.ok (), sending (World.reset w) [partLocPacket req.partid addr]) := by
  rw [replicate, Program.run_bind, run_getAllStorages]
  cases allStorages w.database with
  | none => rfl
  | some storages =>
      dsimp only
      cases (r.env.shuffle storages).find? fun st => st.id ∉ part.locations with
      | none => rfl
      | some st =>
          dsimp only
          rw [Program.run_bind, Program.run_ofOption]
          cases st.addrGet r.env with
          | none => rfl
          | some addr => rfl

/-- What an acknowledgement comes to once its file is found. -/
def afterAck (r : Request) (req : SM.PartAck) (fi : FileItem) (part : PartItem) :
    Handler V KeepAlive := do
  if part.locations.length ≥ fi.redundancy.toNat then sendAck r.packet .success
  else replicate r req part
  pure .no

theorem run_afterAck (r : Request) (req : SM.PartAck) (fi : FileItem) (part : PartItem)
    (w : World V) : (afterAck r req fi part).run exec w =
      match (if part.locations.length ≥ fi.redundancy.toNat then sendAck r.packet .success
        else replicate r req part).run exec w with
      | (.error e, w') => (.error e, w')
      | (.ok _, w') => (.ok .no, w') := by
  have hbind (p : Handler V Unit) :
      (p >>= fun _ => pure KeepAlive.no : Handler V KeepAlive).run exec w = match p.run exec w with
      | (.error e, w') => (.error e, w')
      | (.ok _, w') => (.ok .no, w') := by
    rw [Program.run_bind]
    cases p.run exec w with
    | mk result w' =>
        cases result with
        | error e => rfl
        | ok _ => rfl
  rw [afterAck]
  by_cases henough : part.locations.length ≥ fi.redundancy.toNat
  · rw [if_pos henough, if_pos henough]
    exact hbind _
  · rw [if_neg henough, if_neg henough]
    exact hbind _

theorem run_putAck (r : Request) (fname : Bytes) (fi : FileItem) (w : World Record) :
    (do
      let req ← Program.ofOption .fault (readPartAck r.packet)
      let (parts, it) := ackParts req fi.parts
      let fi := { fi with parts }
      cmdPut (fileKey fname) (.file fi)
      let part ← Program.ofOption .fault parts[it]?
      afterAck r req fi part : Handler Record KeepAlive).run exec w =
    match readPartAck r.packet with
    | none => (.error .fault, w)
    | some req =>
        let w' := w.put (fileKey fname) (.file { fi with parts := (ackParts req fi.parts).1 })
        match (ackParts req fi.parts).1[(ackParts req fi.parts).2]? with
        | none => (.error .fault, w')
        | some part => (afterAck r req fi part).run exec w' := by
  rw [Program.run_bind, Program.run_ofOption]
  cases readPartAck r.packet with
  | none => rfl
  | some req =>
      dsimp only [Option.elim_some]
      change (Program.ofOption Halt.fault
        (ackParts req fi.parts).1[(ackParts req fi.parts).2]? >>= _).run exec
          (w.put (fileKey fname) (.file { fi with parts := (ackParts req fi.parts).1 })) = _
      rw [Program.run_bind, Program.run_ofOption]
      cases (ackParts req fi.parts).1[(ackParts req fi.parts).2]? with
      | none => rfl
      | some part => rfl

theorem run_smPartAck (r : Request) (w : World Record) :
    (smPartAck r).run exec w = match (w.database.lookup filesKey).bind Coding.files? with
      | none => (.error .exception, w)
      | some mof => match readPartAckFid r.packet with
        | none => (.error .fault, w)
        | some fid => match mof.nameById.lookup fid with
          | none => (.error .exception, w)
          | some fname => match (w.database.lookup (fileKey fname)).bind Coding.file? with
            | none => (.error .exception, w)
            | some fi => match readPartAck r.packet with
              | none => (.error .fault, w)
              | some req =>
                let w' := w.put (fileKey fname)
                  (.file { fi with parts := (ackParts req fi.parts).1 })
                match (ackParts req fi.parts).1[(ackParts req fi.parts).2]? with
                | none => (.error .fault, w')
                | some part => (afterAck r req fi part).run exec w' := by
  rw [smPartAck, run_cmdGet_decode]
  cases (w.database.lookup filesKey).bind Coding.files? with
  | none => rfl
  | some mof =>
      dsimp only
      rw [Program.run_bind, Program.run_ofOption]
      cases readPartAckFid r.packet with
      | none => rfl
      | some fid =>
          dsimp only [Option.elim_some]
          rw [Program.run_bind, Program.run_ofOption]
          cases mof.nameById.lookup fid with
          | none => rfl
          | some fname =>
              dsimp only [Option.elim_some]
              rw [run_cmdGet_decode]
              cases (w.database.lookup (fileKey fname)).bind Coding.file? with
              | none => rfl
              | some fi => exact run_putAck r fname fi w

theorem run_smIdReq (r : Request) (w : World Record) :
    (smIdReq r).run exec w = match (w.database.lookup storagesKey).bind Coding.storages? with
      | none => (.error .exception, w)
      | some mos => match r.env.remoteAddress with
        | none => (.error .exception, w)
        | some hostAddr => match readIdReq r.packet with
          | none => (.error .fault, w)
          | some req =>
              let si : StorageItem := ⟨mos.count, hostAddr, req.port, req.avspace⟩
              (.ok .no, sending ((w.put (storageKey si.id) (.storage si)).put storagesKey (.storages {
                count := mos.count + 1
                availableSpace := mos.availableSpace + BitVec.ofNat 128 req.avspace.toNat }))
                [fidInfoPacket si.id]) := by
  rw [smIdReq, run_cmdGet_decode]
  cases (w.database.lookup storagesKey).bind Coding.storages? with
  | none => rfl
  | some mos =>
      dsimp only
      rw [Program.run_bind, Program.run_ofOption]
      cases r.env.remoteAddress with
      | none => rfl
      | some hostAddr =>
          dsimp only [Option.elim_some]
          rw [Program.run_bind, Program.run_ofOption]
          cases readIdReq r.packet with
          | none => rfl
          | some req => rfl

end Answers

end Mp2p.Master
