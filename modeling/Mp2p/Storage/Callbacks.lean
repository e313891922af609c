import Mp2p.Files.Hash
import Mp2p.Storage.Directory

/-!
# The handlers of a storage

A client uploads a part or asks for one. A part lies in a file of the storage directory named by the
numbers of the file and of the part, which the two handlers write down each in its own way.
-/

namespace Mp2p.Storage

open Masks Network Files

structure Request where
  packet : Packet
  env : Env

def sendAck (packet : Packet) (ack : ErrorCode) : Handler Unit := do
  let fromtoDst ← .ofOption .fault (fromtoInverse packet.fromtoGet)
  send .client (ackPacket fromtoDst ack)

def sendError (packet : Packet) (code : ErrorCode) : Handler KeepAlive := do
  sendAck packet code
  pure .no

/-- `storage_path + '/' + std::to_string(fid) + "." + std::to_string(partnum)` -/
def uploadPath (s : Setup) (partid : PartId) : Bytes :=
  s.storagePath ++ [0x2f] ++ Decimal.digits partid.fid.toNat
    ++ ([0x2e] ++ Decimal.digits partid.partnum.toNat)

/-- `filename_ss << storage_path << '/' << fid << '.' << partnum` -/
def downloadPath (s : Setup) (partid : PartId) : Bytes :=
  [s.storagePath, [0x2f], Decimal.digits partid.fid.toNat, [0x2e],
    Decimal.digits partid.partnum.toNat].flatten

/-- The numbers `cs_up_act` logs before it looks at the rest. -/
def readPartId (packet : Packet) : Option PartId := Layout.overlay packet.front 0

def csUpAct (s : Setup) (r : Request) : Handler KeepAlive := do
  let partid ← .ofOption .fault (readPartId r.packet)
  let _ ← .ofOption .exception r.env.remoteAddress
  let (part, data) ← .ofOption .fault (readUpAct r.packet)
  let hash ← .ofOption .fault
    (hashBufferHex s.sha1 data (r.packet.sizeT - UInt64.ofNat (sizeof CS.UpAct)))
  if hash ≠ part.sha1 then sendError r.packet .hashFailed
  else do
    writeFile r.env (uploadPath s partid) data
    createSession r.env
    send .master (partAckPacket s.id partid 10)
    sendAck r.packet .success
    pure .yes

def csDownAct (s : Setup) (r : Request) : Handler KeepAlive := do
  let request ← .ofOption .fault (readDownAct r.packet)
  let (part, fileSize) ← openFile r.env (downloadPath s request.partid)
  let hash ← .ofOption .overrun (hashBufferHex s.sha1 part fileSize)
  send .client (partDataPacket request.partid hash part)
  match (recvAck r.env.stream).1 with
  | .lost => pure .no
  | .accepted _ => pure .no
  | .threw _ => .throw .exception
  | .fault => .throw .fault

def recvDispatcher (s : Setup) (r : Request) : Handler KeepAlive :=
  let what := r.packet.whatGet
  if r.packet.sizeGet < 1 then sendError r.packet .invalidPacket
  else if what = ackW then pure .no
  else if r.packet.fromtoGet = CS.fromto ∧ what = CS.upActW then csUpAct s r
  else if r.packet.fromtoGet = CS.fromto ∧ what = CS.downActW then csDownAct s r
  else pure .no

def handle (s : Setup) (w : World) (r : Request) : World := ((recvDispatcher s r).run exec w).2

def handleAll (s : Setup) (w : World) (requests : List Request) : World :=
  requests.foldl (handle s) w

end Mp2p.Storage
