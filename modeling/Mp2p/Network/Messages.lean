import Mp2p.Masks.Messages
import Mp2p.Network.Packet

/-!
# Senders and receivers

What each program writes for a message and how the program at the other end reads it. The two sides
share no encoder: a sender appends loose fields to a packet, a receiver casts the front of the body
to the struct of the message and gets the length of a tail from the packet size by subtraction, in
the 64 bits of `size_t`.
-/

namespace Mp2p

open Masks Network

/-- `add_message` of a fixed-size value. -/
def Network.Packet.addValue {α : Type} [Layout α] (p : Packet) (x : α) (toCopy : Copy) : Packet :=
  p.addData (Layout.image x) toCopy

/-- `packet.size_get()` in `size_t`. -/
def Network.Packet.sizeT (p : Packet) : UInt64 := p.sizeGet.toUInt64

/-! ### Senders -/

namespace Client

def upReqPacket (fsize : FsizeType) (rdcy : RdcyType) (fname : Bytes) : Packet :=
  ((Packet.ofType 0 1).addValue (CM.UpReq.mk fsize rdcy) .no).addData fname .no

def downReqPacket (fname : Bytes) : Packet :=
  (Packet.ofType CM.fromto CM.downReqW).addData fname .no

def upActPacket (fid : FidType) (partNum : PartnumType) (hash : Sha1Type) (partBuffer : Bytes) :
    Packet :=
  ((((Packet.ofType CS.fromto CS.upActW).addValue fid .no).addValue partNum .no).addValue
    hash .no).addData partBuffer .no

def downActPacket (partid : PartId) : Packet :=
  (Packet.ofType CS.fromto CS.downActW).addValue partid .no

end Client

namespace Master

def upPiecesLocPacket (fileId : FidType) (fields : List StpField) : Packet :=
  ((Packet.ofType MC.fromto MC.upPiecesLocW).addValue fileId .yes).addData
    (Layout.imageList fields) .yes

def downPiecesLocPacket (fsize : FsizeType) (fid : FidType) (fields : List StpField) : Packet :=
  (((Packet.ofType MC.fromto MC.downPiecesLocW).addValue fsize .yes).addValue fid .yes).addData
    (Layout.imageList fields) .yes

def partLocPacket (partid : PartId) (addr : Addr) : Packet :=
  (Packet.ofType MS.fromto MS.partLocW).addValue (MS.PartLoc.mk partid addr) .yes

def fidInfoPacket (stid : StidType) : Packet :=
  (Packet.ofType MS.fromto MS.fidInfoW).addValue (MS.FidInfo.mk stid) .yes

end Master

namespace Storage

def partDataPacket (partid : PartId) (hash : Sha1Type) (part : Bytes) : Packet :=
  (((Packet.ofType SC.fromto SC.upActW).addValue partid .no).addValue hash .no).addData part .no

def partAckPacket (stid : StidType) (partid : PartId) (avspace : AvspaceType) : Packet :=
  (Packet.ofType SM.fromto SM.partAckW).addValue (SM.PartAck.mk stid partid avspace) .yes

def idReqPacket (port : PortType) (avspace : AvspaceType) : Packet :=
  (Packet.ofType SM.fromto SM.idReqW).addValue (SM.IdReq.mk port avspace) .no

end Storage

def Network.fromtoInverse (fromto : FromtoType) : Option FromtoType :=
  if fromto = CM.fromto then some MC.fromto
  else if fromto = MC.fromto then some CM.fromto
  else if fromto = CS.fromto then some SC.fromto
  else if fromto = SC.fromto then some CS.fromto
  else if fromto = SM.fromto then some MS.fromto
  else if fromto = MS.fromto then some SM.fromto
  else none

/-- The packet `send_ack` writes, under the direction it answers in. -/
def Network.ackPacket (fromtoDst : FromtoType) (ack : ErrorCode) : Packet :=
  (Packet.ofType fromtoDst ackW).addValue ack.toUInt8 .no

/-! ### Receivers -/

namespace Master

def readUpReq (packet : Packet) : Option (CM.UpReq × Bytes) := do
  let req ← Layout.overlay (α := CM.UpReq) packet.front 0
  let fname ← Window.read packet.front (sizeof CM.UpReq)
    (packet.sizeT - UInt64.ofNat (sizeof FsizeType) - UInt64.ofNat (sizeof RdcyType)).toNat
  pure (req, fname)

/-- `cm_down_req` and `cm_del_req`. -/
def readFname (packet : Packet) : Option Bytes :=
  Window.read packet.front 0 packet.sizeT.toNat

/-- `sm_part_ack`, which reads nothing of `avspace`: a body may end before it. -/
def readPartAck (packet : Packet) : Option SM.PartAck := do
  let req ← Layout.overlay (α := StidType × PartId) packet.front 0
  let avspace := Layout.overlay (α := AvspaceType) packet.front (sizeof StidType + sizeof PartId)
  pure ⟨req.1, req.2, avspace.getD 0⟩

/-- The file number of an acknowledgement, which is looked up before the rest is read. -/
def readPartAckFid (packet : Packet) : Option FidType :=
  Layout.overlay packet.front (sizeof StidType)

def readIdReq (packet : Packet) : Option SM.IdReq := Layout.overlay packet.front 0

end Master

namespace Client

def readUpPiecesLoc (p : Packet) : Option (FidType × List StpField) := do
  let pieces ← Layout.overlay (α := MC.UpPiecesLoc) p.front 0
  let listSize := (p.sizeT - UInt64.ofNat (sizeof FidType)) / UInt64.ofNat (sizeof StpField)
  let stplist ← Layout.overlayList StpField p.front (sizeof MC.UpPiecesLoc) listSize.toNat
  pure (pieces.fid, stplist)

def readDownPiecesLoc (p : Packet) : Option (FsizeType × FidType × List StpField) := do
  let pieces ← Layout.overlay (α := MC.DownPiecesLoc) p.front 0
  let listSize := (p.sizeT - UInt64.ofNat (sizeof FidType) - UInt64.ofNat (sizeof FsizeType))
    / UInt64.ofNat (sizeof StpField)
  let stplist ← Layout.overlayList StpField p.front (sizeof MC.DownPiecesLoc) listSize.toNat
  pure (pieces.fsize, pieces.fid, stplist)

/-- `recv_part`. -/
def readPartData (p : Packet) : Option (SC.UpAct × Bytes) := do
  let upload ← Layout.overlay (α := SC.UpAct) p.front 0
  let data ← Window.read p.front (sizeof SC.UpAct)
    (p.sizeT - UInt64.ofNat (sizeof PartId) - UInt64.ofNat (sizeof Sha1Type)).toNat
  pure (upload, data)

end Client

namespace Storage

def readUpAct (packet : Packet) : Option (CS.UpAct × Bytes) := do
  let part ← Layout.overlay (α := CS.UpAct) packet.front 0
  let data ← Window.read packet.front (sizeof CS.UpAct)
    (packet.sizeT - UInt64.ofNat (sizeof CS.UpAct)).toNat
  pure (part, data)

def readDownAct (packet : Packet) : Option CS.DownAct := Layout.overlay packet.front 0

/-- `Storage::init_id`. -/
def readFidInfo (p : Packet) : Option MS.FidInfo := Layout.overlay p.front 0

end Storage

/-- `recv_ack` and `process_error`: the first byte of the body. -/
def Network.readAck (p : Packet) : Option UInt8 := Layout.overlay p.front 0

end Mp2p
