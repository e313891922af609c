import Mp2p.Master.Procedures

/-!
# The handlers of the master

One handler for each packet a client or a storage may send, and the dispatcher in front of them. A
packet that is too short for its handler is a fault, and so is an answer to a packet of no known
direction, which has no inverse.
-/

namespace Mp2p.Master

open Masks Network DB DB.Tools

structure Request where
  packet : Packet
  env : Env
  fuel : ℕ

section

variable {V : Type}

def sendAck (packet : Packet) (ack : ErrorCode) : Handler V Unit := do
  let fromtoDst ← .ofOption .fault (fromtoInverse packet.fromtoGet)
  blockingSend (ackPacket fromtoDst ack)

def sendError (packet : Packet) (code : ErrorCode) : Handler V KeepAlive := do
  sendAck packet code
  pure .no

/-- `&*fields.begin()`: an empty list has no first element, and taking its address is a fault. -/
def firstField (fields : List StpField) : Handler V Unit :=
  if fields = [] then .throw .fault else pure ()

variable [Coding V]

/-- `cm_up_req`. The address of the first field is taken for the answer that is sent. -/
def cmUpReq (r : Request) : Handler V KeepAlive := do
  let (req, fname) ← .ofOption .fault (readUpReq r.packet)
  let fi : FileItem := ⟨0, fname, req.fsize, req.rdcy, 0, blankHash, false, []⟩
  let nbParts ← Tools.numberOfParts fi.fileSize
  if nbParts = 0 then sendError r.packet .missingStorage
  else do
    let fields ← getStpfieldsForUpload r.env r.fuel fi.fileSize
    if fields.length < fi.redundancy.toNat then sendError r.packet .redundancy
    else do
      let fi ← createNewFile r.fuel fi
      blockingSend (upPiecesLocPacket fi.id fields)
      firstField fields
      pure .no

/-- The address of the first storage with this id whose address resolves. -/
def storageAddr (env : Env) (storages : List StorageItem) (stid : StidType) : Option Addr :=
  storages.findSome? fun st => if st.id = stid then st.addrGet env else none

/-- The location a part is to be fetched from: the first with a port, else the last that resolved. -/
def partAddr (env : Env) (storages : List StorageItem) : List StidType → Addr → Addr
  | [], addr => addr
  | stid :: rest, addr =>
      let addr := (storageAddr env storages stid).getD addr
      if addr.port ≠ 0 then addr else partAddr env storages rest addr

def downloadFields (env : Env) (storages : List StorageItem) (parts : List PartItem) :
    Option (List StpField) :=
  parts.mapM fun part =>
    if part.locations.length = 0 then none
    else some ⟨partAddr env storages part.locations ⟨env.uninitialized, 0⟩, part.numGet⟩

def cmDownReq (r : Request) : Handler V KeepAlive := do
  let fname ← .ofOption .fault (readFname r.packet)
  match ← tryGet (fileKey fname) with
  | none => sendError r.packet .fileNotFound
  | some json =>
      let fi ← .ofOption .exception (Coding.file? json)
      let storages ← getAllStorages
      match downloadFields r.env storages fi.parts with
      | none => sendError r.packet .incompleteFile
      | some fields =>
          blockingSend (downPiecesLocPacket fi.fileSize fi.id fields)
          firstField fields
          pure .no

/-- One `del_act` for each part up to the first without a location. -/
def deleteParts (packet : Packet) : List PartItem → Handler V KeepAlive
  | [] => pure .no
  | part :: rest =>
      if part.locations.length = 0 then sendError packet .incompleteFile
      else do
        blockingSend (Packet.ofType MS.fromto MS.delActW)
        deleteParts packet rest

/-- `cm_del_req`: the name is looked up as it is, without the prefix of file keys. -/
def cmDelReq (r : Request) : Handler V KeepAlive := do
  let fname ← .ofOption .fault (readFname r.packet)
  match ← tryGet fname with
  | none => sendError r.packet .fileNotFound
  | some json =>
      let fi ← .ofOption .exception (Coding.file? json)
      let _ ← getAllStorages
      deleteParts r.packet fi.parts

/-- The search of `sm_part_ack` with the position it stops at: nothing leaves the loop early. -/
def searchPart (partnum : PartnumType) (stid : StidType) :
    List PartItem → ℕ → List PartItem × ℕ
  | [], it => ([], it)
  | part :: rest, it =>
      let part := if part.numGet = partnum then part.addStid stid else part
      let (rest, it) := searchPart partnum stid rest (it + 1)
      (part :: rest, it)

/-- The parts after an acknowledgement and the position of the part it is about. -/
def ackParts (req : SM.PartAck) (parts : List PartItem) : List PartItem × ℕ :=
  let (parts, it) := searchPart req.partid.partnum req.stid parts 0
  if it = parts.length then (parts ++ [⟨req.partid, blankHash, [req.stid]⟩], parts.length)
  else (parts, it)

/-- The replication request: the first storage, in random order, that does not hold the part. -/
def replicate (r : Request) (req : SM.PartAck) (part : PartItem) : Handler V Unit := do
  let storages ← getAllStorages
  match (r.env.shuffle storages).find? fun st => st.id ∉ part.locations with
  | none => pure ()
  | some st =>
      let addr ← .ofOption .exception (st.addrGet r.env)
      blockingSend (partLocPacket req.partid addr)

def smPartAck (r : Request) : Handler V KeepAlive := do
  let json ← cmdGet filesKey
  let mof ← .ofOption .exception (Coding.files? json)
  let fid ← .ofOption .fault (readPartAckFid r.packet)
  let fname ← .ofOption .exception (mof.nameById.lookup fid)
  let json ← cmdGet (fileKey fname)
  let fi ← .ofOption .exception (Coding.file? json)
  let req ← .ofOption .fault (readPartAck r.packet)
  let (parts, it) := ackParts req fi.parts
  let fi := { fi with parts }
  cmdPut (fileKey fname) (Coding.ofFile fi)
  let part ← .ofOption .fault parts[it]?
  if part.locations.length ≥ fi.redundancy.toNat then sendAck r.packet .success
  else replicate r req part
  pure .no

def smIdReq (r : Request) : Handler V KeepAlive := do
  let json ← cmdGet storagesKey
  let mos ← .ofOption .exception (Coding.storages? json)
  let hostAddr ← .ofOption .exception r.env.remoteAddress
  let req ← .ofOption .fault (readIdReq r.packet)
  let si : StorageItem := ⟨mos.count, hostAddr, req.port, req.avspace⟩
  cmdPut (storageKey si.id) (Coding.ofStorage si)
  cmdPut storagesKey (Coding.ofStorages {
    count := mos.count + 1
    availableSpace := mos.availableSpace + BitVec.ofNat 128 req.avspace.toNat })
  blockingSend (fidInfoPacket si.id)
  pure .no

/-- `Master::recv_dispatcher`. The cases of a client fall through to those of a storage, which no
packet of a client reaches with a code of its own. -/
def recvDispatcher (r : Request) : Handler V KeepAlive :=
  let what := r.packet.whatGet
  if r.packet.sizeGet < 1 then sendError r.packet .invalidPacket
  else if what = ackW then pure .no
  else if r.packet.fromtoGet = CM.fromto ∧ what = CM.upReqW then cmUpReq r
  else if r.packet.fromtoGet = CM.fromto ∧ what = CM.downReqW then cmDownReq r
  else if r.packet.fromtoGet = CM.fromto ∧ what = CM.delReqW then cmDelReq r
  else if (r.packet.fromtoGet = CM.fromto ∨ r.packet.fromtoGet = SM.fromto) ∧
      what = SM.partAckW then smPartAck r
  else if (r.packet.fromtoGet = CM.fromto ∨ r.packet.fromtoGet = SM.fromto) ∧
      what = SM.idReqW then smIdReq r
  else pure .no

def handle (w : World V) (r : Request) : World V := ((recvDispatcher r).run exec w).2

def handleAll (w : World V) (requests : List Request) : World V := requests.foldl handle w

inductive Event where
  | request (r : Request)
  | restart

def Event.apply (w : World V) : Event → World V
  | .request r => handle w r
  | .restart => w.restart

def runEvents (w : World V) (events : List Event) : World V := events.foldl Event.apply w

end

end Mp2p.Master
