import Mp2p.Network.Messages
import Mp2p.Proof.PacketFraming

/-!
# Every message decodes to what was encoded

Each receiver overlays a struct on the body the sender wrote field by field. The body of a message is
the image of its struct followed by its tail (`Message.body`), whatever the number of `add_message`
calls it took, so one lemma about overlays and one about the size field settle every layout.
-/

namespace Mp2p

open Masks Network

inductive Message where
  | upReq (fsize : FsizeType) (rdcy : RdcyType) (fname : Bytes)
  | downReq (fname : Bytes)
  | upPiecesLoc (fid : FidType) (stplist : List StpField)
  | downPiecesLoc (fsize : FsizeType) (fid : FidType) (stplist : List StpField)
  | upAct (partid : PartId) (sha1 : Sha1Type) (data : Bytes)
  | downAct (partid : PartId)
  | partData (partid : PartId) (sha1 : Sha1Type) (data : Bytes)
  | partAck (stid : StidType) (partid : PartId) (avspace : AvspaceType)
  | idReq (port : PortType) (avspace : AvspaceType)
  | fidInfo (stid : StidType)
  | ack (fromtoDst : FromtoType) (code : ErrorCode)

namespace Message

def packet : Message → Packet
  | upReq fsize rdcy fname => Client.upReqPacket fsize rdcy fname
  | downReq fname => Client.downReqPacket fname
  | upPiecesLoc fid stplist => Master.upPiecesLocPacket fid stplist
  | downPiecesLoc fsize fid stplist => Master.downPiecesLocPacket fsize fid stplist
  | upAct partid sha1 data => Client.upActPacket partid.fid partid.partnum sha1 data
  | downAct partid => Client.downActPacket partid
  | partData partid sha1 data => Storage.partDataPacket partid sha1 data
  | partAck stid partid avspace => Storage.partAckPacket stid partid avspace
  | idReq port avspace => Storage.idReqPacket port avspace
  | fidInfo stid => Master.fidInfoPacket stid
  | ack fromtoDst code => ackPacket fromtoDst code

/-- What the receiver that handles this type of packet reads in it. -/
def read (p : Packet) : Option Message :=
  if p.whatGet = ackW then
    (readAck p).bind fun byte => (ErrorCode.ofUInt8 byte).map (ack p.fromtoGet)
  else if p.header.type = ⟨CM.fromto, CM.upReqW⟩ then
    (Master.readUpReq p).map fun r => upReq r.1.fsize r.1.rdcy r.2
  else if p.header.type = ⟨CM.fromto, CM.downReqW⟩ then
    (Master.readFname p).map downReq
  else if p.header.type = ⟨MC.fromto, MC.upPiecesLocW⟩ then
    (Client.readUpPiecesLoc p).map fun r => upPiecesLoc r.1 r.2
  else if p.header.type = ⟨MC.fromto, MC.downPiecesLocW⟩ then
    (Client.readDownPiecesLoc p).map fun r => downPiecesLoc r.1 r.2.1 r.2.2
  else if p.header.type = ⟨CS.fromto, CS.upActW⟩ then
    (Storage.readUpAct p).map fun r => upAct r.1.partid r.1.sha1 r.2
  else if p.header.type = ⟨CS.fromto, CS.downActW⟩ then
    (Storage.readDownAct p).map fun r => downAct r.partid
  else if p.header.type = ⟨SC.fromto, SC.upActW⟩ then
    (Client.readPartData p).map fun r => partData r.1.partid r.1.sha1 r.2
  else if p.header.type = ⟨SM.fromto, SM.partAckW⟩ then
    (Master.readPartAck p).map fun r => partAck r.stid r.partid r.avspace
  else if p.header.type = ⟨SM.fromto, SM.idReqW⟩ then
    (Master.readIdReq p).map fun r => idReq r.port r.avspace
  else if p.header.type = ⟨MS.fromto, MS.fidInfoW⟩ then
    (Storage.readFidInfo p).map fun r => fidInfo r.stid
  else none

def size : Message → ℕ
  | upReq _ _ fname => sizeof CM.UpReq + fname.length
  | downReq fname => fname.length
  | upPiecesLoc _ stplist => sizeof MC.UpPiecesLoc + stplist.length * sizeof StpField
  | downPiecesLoc _ _ stplist => sizeof MC.DownPiecesLoc + stplist.length * sizeof StpField
  | upAct _ _ data => sizeof CS.UpAct + data.length
  | downAct _ => sizeof CS.DownAct
  | partData _ _ data => sizeof SC.UpAct + data.length
  | partAck _ _ _ => sizeof SM.PartAck
  | idReq _ _ => sizeof SM.IdReq
  | fidInfo _ => sizeof MS.FidInfo
  | ack _ _ => sizeof UInt8

def body : Message → Bytes
  | upReq fsize rdcy fname => Layout.image (CM.UpReq.mk fsize rdcy) ++ fname
  | downReq fname => fname
  | upPiecesLoc fid stplist => Layout.image (MC.UpPiecesLoc.mk fid) ++ Layout.imageList stplist
  | downPiecesLoc fsize fid stplist =>
      Layout.image (MC.DownPiecesLoc.mk fsize fid) ++ Layout.imageList stplist
  | upAct partid sha1 data => Layout.image (CS.UpAct.mk partid sha1) ++ data
  | downAct partid => Layout.image (CS.DownAct.mk partid)
  | partData partid sha1 data => Layout.image (SC.UpAct.mk partid sha1) ++ data
  | partAck stid partid avspace => Layout.image (SM.PartAck.mk stid partid avspace)
  | idReq port avspace => Layout.image (SM.IdReq.mk port avspace)
  | fidInfo stid => Layout.image (MS.FidInfo.mk stid)
  | ack _ code => Layout.image code.toUInt8

theorem length_body (m : Message) : m.body.length = m.size := by
  cases m <;> simp only [body, size, List.length_append, Layout.length_image,
    Layout.length_imageList]

end Message

/-! ### The sender's side -/

theorem payload_addValue {α : Type} [Layout α] (p : Packet) (x : α) (toCopy : Copy)
    (hsize : sizeof α < 2 ^ 32) : (p.addValue x toCopy).payload = p.payload ++ Layout.image x := by
  rw [Packet.addValue, payload_addData]
  rwa [Layout.length_image]

namespace Message

theorem sized_packet (m : Message) : m.packet.Sized := by
  cases m <;> repeat first | exact sized_ofType _ _ | refine sized_addMessage ?_ _

/-- However many calls it took, the sender wrote the struct and the tail. -/
theorem payload_packet (m : Message) (hm : m.size < 2 ^ 32) : m.packet.payload = m.body := by
  cases m with
  | upReq fsize rdcy fname =>
      have htail : fname.length < 2 ^ 32 := by simp only [size] at hm; omega
      rw [packet, Client.upReqPacket, payload_addData _ htail, payload_addValue _ _ _ (by decide)]
      rfl
  | downReq fname => exact payload_addData _ hm .no
  | upPiecesLoc fid stplist =>
      have htail : (Layout.imageList stplist).length < 2 ^ 32 := by
        rw [Layout.length_imageList]
        exact (Nat.le_add_left _ _).trans_lt hm
      rw [packet, Master.upPiecesLocPacket, payload_addData _ htail,
        payload_addValue _ _ _ (by decide)]
      rfl
  | downPiecesLoc fsize fid stplist =>
      have htail : (Layout.imageList stplist).length < 2 ^ 32 := by
        rw [Layout.length_imageList]
        exact (Nat.le_add_left _ _).trans_lt hm
      rw [packet, Master.downPiecesLocPacket, payload_addData _ htail,
        payload_addValue _ _ _ (by decide), payload_addValue _ _ _ (by decide)]
      rfl
  | upAct partid sha1 data =>
      have htail : data.length < 2 ^ 32 := by simp only [size] at hm; omega
      rw [packet, Client.upActPacket, payload_addData _ htail, payload_addValue _ _ _ (by decide),
        payload_addValue _ _ _ (by decide), payload_addValue _ _ _ (by decide)]
      rfl
  | partData partid sha1 data =>
      have htail : data.length < 2 ^ 32 := by simp only [size] at hm; omega
      rw [packet, Storage.partDataPacket, payload_addData _ htail,
        payload_addValue _ _ _ (by decide), payload_addValue _ _ _ (by decide)]
      rfl
  | downAct partid => exact payload_addValue _ _ _ (by decide)
  | partAck stid partid avspace => exact payload_addValue _ _ _ (by decide)
  | idReq port avspace => exact payload_addValue _ _ _ (by decide)
  | fidInfo stid => exact payload_addValue _ _ _ (by decide)
  | ack fromtoDst code => exact payload_addValue _ _ _ (by decide)

/-- The size field of the packet is the number of bytes of the struct and the tail. -/
theorem size_packet (m : Message) (hm : m.size < 2 ^ 32) :
    m.packet.header.size.toNat = m.body.length := by
  rw [m.sized_packet, payload_packet m hm, length_body, UInt32.toNat_ofNat', Nat.mod_eq_of_lt hm]

end Message

/-! ### The receiver's side -/

theorem sizeT_received {header : PacketHeader} {body : Bytes} {n : ℕ}
    (hsize : header.size.toNat = n) : (received header body).sizeT.toNat = n := by
  simpa [Packet.sizeT, Packet.sizeGet, received] using hsize

theorem toNat_sub_ofNat {size : UInt64} {k n : ℕ} (hsize : size.toNat = k + n) :
    (size - UInt64.ofNat k).toNat = n := by
  have hlt := size.toNat_lt
  have hk : (UInt64.ofNat k).toNat = k := by
    rw [UInt64.toNat_ofNat', Nat.mod_eq_of_lt (by omega)]
  rw [UInt64.toNat_sub_of_le, hsize, hk, Nat.add_sub_cancel_left]
  rw [UInt64.le_iff_toNat_le]
  omega

section Tails

variable {α : Type} [Layout α] (x : α)

theorem overlay_image : Layout.overlay (Layout.image x) 0 = some x := by
  simpa using Layout.overlay_image_append x []

theorem read_tail (tail : Bytes) :
    Window.read (Layout.image x ++ tail) (sizeof α) tail.length = some tail := by
  have h := Layout.read_append (Layout.image x) tail []
  rwa [List.append_nil, Layout.length_image] at h

theorem overlayList_tail {β : Type} [Layout β] (tail : List β) :
    Layout.overlayList β (Layout.image x ++ Layout.imageList tail) (sizeof α) tail.length
      = some tail := by
  have h := Layout.overlayList_imageList (Layout.image x) tail []
  rwa [List.append_nil, Layout.length_image] at h

end Tails

theorem toNat_div_stpField {size : UInt64} {n : ℕ} (hsize : size.toNat = n * sizeof StpField) :
    (size / UInt64.ofNat (sizeof StpField)).toNat = n := by
  rw [UInt64.toNat_div, hsize]
  exact Nat.mul_div_cancel n (by decide)

section Readers

variable {p : Packet}

theorem overlay_front {α : Type} [Layout α] {x : α} (hfront : p.front = Layout.image x) :
    Layout.overlay p.front 0 = some x := by
  rw [hfront]
  exact overlay_image x

/-- The storage and the part are read first, and the space behind them. -/
theorem readPartAck_of_front {stid : StidType} {partid : PartId} {avspace : AvspaceType}
    (hfront : p.front = Layout.image (SM.PartAck.mk stid partid avspace)) :
    Master.readPartAck p = some ⟨stid, partid, avspace⟩ := by
  have himage : Layout.image (SM.PartAck.mk stid partid avspace) =
      Layout.image (stid, partid) ++ Layout.image avspace := (List.append_assoc ..).symm
  have hreq := Layout.overlay_image_append (stid, partid) (Layout.image avspace)
  have havspace := Layout.overlay_image (Layout.image (stid, partid)) avspace []
  rw [List.append_nil, Layout.length_image] at havspace
  rw [Master.readPartAck, hfront, himage, hreq]
  exact congrArg (fun space : Option AvspaceType => some (SM.PartAck.mk stid partid (space.getD 0)))
    havspace

variable (hsize : p.sizeT.toNat = p.front.length)
include hsize

theorem readUpReq_of_front {fsize : FsizeType} {rdcy : RdcyType} {fname : Bytes}
    (hfront : p.front = Layout.image (CM.UpReq.mk fsize rdcy) ++ fname) :
    Master.readUpReq p = some (⟨fsize, rdcy⟩, fname) := by
  have hlen : (p.sizeT - UInt64.ofNat (sizeof FsizeType) - UInt64.ofNat (sizeof RdcyType)).toNat =
      fname.length := by
    apply toNat_sub_ofNat
    apply toNat_sub_ofNat
    rw [hsize, hfront, List.length_append, Layout.length_image]
    exact Nat.add_assoc 8 1 _
  simp only [Master.readUpReq, hlen]
  simp only [hfront, Layout.overlay_image_append, read_tail]
  rfl

theorem readFname_of_front {fname : Bytes} (hfront : p.front = fname) :
    Master.readFname p = some fname := by
  rw [Master.readFname, hsize, hfront]
  simpa using Layout.read_append [] fname []

theorem readUpPiecesLoc_of_front {fid : FidType} {stplist : List StpField}
    (hfront : p.front = Layout.image (MC.UpPiecesLoc.mk fid) ++ Layout.imageList stplist) :
    Client.readUpPiecesLoc p = some (fid, stplist) := by
  have hlen : ((p.sizeT - UInt64.ofNat (sizeof FidType)) / UInt64.ofNat (sizeof StpField)).toNat =
      stplist.length := by
    apply toNat_div_stpField
    apply toNat_sub_ofNat
    rw [hsize, hfront, List.length_append, Layout.length_image, Layout.length_imageList]
    rfl
  simp only [Client.readUpPiecesLoc, hlen]
  simp only [hfront, Layout.overlay_image_append, overlayList_tail]
  rfl

theorem readDownPiecesLoc_of_front {fsize : FsizeType} {fid : FidType} {stplist : List StpField}
    (hfront : p.front = Layout.image (MC.DownPiecesLoc.mk fsize fid) ++ Layout.imageList stplist) :
    Client.readDownPiecesLoc p = some (fsize, fid, stplist) := by
  have hlen : ((p.sizeT - UInt64.ofNat (sizeof FidType) - UInt64.ofNat (sizeof FsizeType)) /
      UInt64.ofNat (sizeof StpField)).toNat = stplist.length := by
    apply toNat_div_stpField
    apply toNat_sub_ofNat
    apply toNat_sub_ofNat
    rw [hsize, hfront, List.length_append, Layout.length_image, Layout.length_imageList]
    exact Nat.add_assoc 8 8 _
  simp only [Client.readDownPiecesLoc, hlen]
  simp only [hfront, Layout.overlay_image_append, overlayList_tail]
  rfl

theorem readUpAct_of_front {partid : PartId} {sha1 : Sha1Type} {data : Bytes}
    (hfront : p.front = Layout.image (CS.UpAct.mk partid sha1) ++ data) :
    Storage.readUpAct p = some (⟨partid, sha1⟩, data) := by
  have hlen : (p.sizeT - UInt64.ofNat (sizeof CS.UpAct)).toNat = data.length := by
    apply toNat_sub_ofNat
    rw [hsize, hfront, List.length_append, Layout.length_image]
  simp only [Storage.readUpAct, hlen]
  simp only [hfront, Layout.overlay_image_append, read_tail]
  rfl

theorem readPartData_of_front {partid : PartId} {sha1 : Sha1Type} {data : Bytes}
    (hfront : p.front = Layout.image (SC.UpAct.mk partid sha1) ++ data) :
    Client.readPartData p = some (⟨partid, sha1⟩, data) := by
  have hlen : (p.sizeT - UInt64.ofNat (sizeof PartId) - UInt64.ofNat (sizeof Sha1Type)).toNat =
      data.length := by
    apply toNat_sub_ofNat
    apply toNat_sub_ofNat
    rw [hsize, hfront, List.length_append, Layout.length_image]
    exact Nat.add_assoc 12 20 _
  simp only [Client.readPartData, hlen]
  simp only [hfront, Layout.overlay_image_append, read_tail]
  rfl

end Readers

namespace Message

/-- A packet of the type of the message, with its body and its size, is read as the message. -/
theorem read_of_front (m : Message) {p : Packet} (htype : p.header.type = m.packet.header.type)
    (hfront : p.front = m.body) (hsize : p.sizeT.toNat = p.front.length) : read p = some m := by
  rw [read, Packet.whatGet, Packet.fromtoGet, htype]
  cases m with
  | upReq fsize rdcy fname =>
      change (Master.readUpReq p).map _ = _
      rw [readUpReq_of_front hsize hfront, Option.map_some]
  | downReq fname =>
      change (Master.readFname p).map _ = _
      rw [readFname_of_front hsize hfront]
      rfl
  | upPiecesLoc fid stplist =>
      change (Client.readUpPiecesLoc p).map _ = _
      rw [readUpPiecesLoc_of_front hsize hfront, Option.map_some]
  | downPiecesLoc fsize fid stplist =>
      change (Client.readDownPiecesLoc p).map _ = _
      rw [readDownPiecesLoc_of_front hsize hfront, Option.map_some]
  | upAct partid sha1 data =>
      change (Storage.readUpAct p).map _ = _
      rw [readUpAct_of_front hsize hfront, Option.map_some]
  | downAct partid =>
      change (Storage.readDownAct p).map _ = _
      rw [Storage.readDownAct, overlay_front hfront, Option.map_some]
  | partData partid sha1 data =>
      change (Client.readPartData p).map _ = _
      rw [readPartData_of_front hsize hfront, Option.map_some]
  | partAck stid partid avspace =>
      change (Master.readPartAck p).map _ = _
      rw [readPartAck_of_front hfront, Option.map_some]
  | idReq port avspace =>
      change (Master.readIdReq p).map _ = _
      rw [Master.readIdReq, overlay_front hfront, Option.map_some]
  | fidInfo stid =>
      change (Storage.readFidInfo p).map _ = _
      rw [Storage.readFidInfo, overlay_front hfront, Option.map_some]
  | ack fromtoDst code =>
      change ((readAck p).bind fun byte => (ErrorCode.ofUInt8 byte).map (ack fromtoDst)) = _
      rw [readAck, overlay_front hfront, Option.bind_some, ErrorCode.ofUInt8_toUInt8,
        Option.map_some]

/-- **Every message decodes to what was encoded.** The receiver of a message gets the sender's field
values, list and tail out of the packet the transport delivers. -/
theorem read_received (m : Message) (hm : m.size < 2 ^ 32) :
    read (received m.packet.header m.packet.payload) = some m := by
  have hpayload := payload_packet m hm
  refine read_of_front m rfl hpayload ?_
  rw [sizeT_received (size_packet m hm), front_received, hpayload]

theorem read_received_upReq :
    read (received (Client.upReqPacket 70000 2 [97, 98]).header
        [112, 17, 1, 0, 0, 0, 0, 0, 2, 97, 98])
      = some (upReq 70000 2 [97, 98]) :=
  read_received (upReq 70000 2 [97, 98]) (by decide)

end Message

end Mp2p
