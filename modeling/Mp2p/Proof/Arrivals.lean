import Mp2p.Proof.Messages
import Mp2p.Proof.Storing
import Mp2p.Proof.Upload
import Mp2p.System.Uploads

/-!
# What arrives

A receiver gets as much of a body as the size field says. The size field wraps, so a body may arrive
cut off; its front is still what the sender put there. A part of a task that arrives is handled in at
most three commands, whatever the environment.
-/

namespace Mp2p.System

open Masks Network

section Packets

variable {packet p : Packet}

theorem arrival_eq (h : arrival packet = some p) :
    packet.sizeGet.toNat ≤ packet.payload.length ∧
      p = received packet.header (packet.payload.take packet.sizeGet.toNat) := by
  rw [arrival, blockingSend_eq, receivePacket_image_append, Option.map_map] at h
  obtain ⟨data, hdata, rfl⟩ := Option.map_eq_some_iff.mp h
  rw [Window.read_eq_some_iff, List.drop_zero, zero_add] at hdata
  exact ⟨hdata.1, by rw [hdata.2]; rfl⟩

theorem header_of_arrival (h : arrival packet = some p) : p.header = packet.header := by
  rw [(arrival_eq h).2]
  rfl

theorem front_of_arrival (h : arrival packet = some p) :
    p.front = packet.payload.take packet.sizeGet.toNat := by
  rw [(arrival_eq h).2]
  rfl

theorem delivered_of_arrival (h : arrival packet = some p) : Delivered p := by
  obtain ⟨hle, rfl⟩ := arrival_eq h
  rw [Delivered, front_received, List.length_take, Nat.min_eq_left hle]
  rfl

theorem arrival_message (m : Message) (hm : m.size < 2 ^ 32) :
    arrival m.packet = some (received m.packet.header m.body) := by
  have hsize : m.packet.header.size.toNat = m.packet.payload.length := by
    rw [m.size_packet hm, m.payload_packet hm]
  have hreceived := receivePacket_blockingSend hsize []
  rw [List.append_nil] at hreceived
  rw [arrival, hreceived, Option.map_some, m.payload_packet hm]

/-- A message that fits in a packet arrives whole. -/
theorem whole_of_arrival (m : Message) (hm : m.size < 2 ^ 32) (h : arrival m.packet = some p) :
    p.sizeT.toNat = p.front.length ∧ p.front = m.body := by
  rw [arrival_message m hm, Option.some_inj] at h
  rw [← h, sizeT_received (m.size_packet hm)]
  exact ⟨rfl, rfl⟩

end Packets

/-! ### Acknowledgements -/

theorem recvAck_arrival (packet : Packet) : (recvAck (blockingSend packet)).1 =
    match arrival packet with
    | none => .lost
    | some p => match readAck p with
      | none => .fault
      | some ackCode =>
          if ackCode ≠ ErrorCode.success.toUInt8 then .threw p else .accepted p :=
  recvAck_eq _

theorem isSuccess_ackPacket (fromtoDst : FromtoType) (code : ErrorCode) :
    IsSuccess (ackPacket fromtoDst code) ↔ code = .success := by
  have harrival : arrival (ackPacket fromtoDst code) =
      some (received (ackPacket fromtoDst code).header (Layout.image code.toUInt8)) :=
    arrival_message (.ack fromtoDst code) (by change 1 < 2 ^ 32; decide)
  have hread : readAck (received (ackPacket fromtoDst code).header
      (Layout.image code.toUInt8)) = some code.toUInt8 := overlay_image code.toUInt8
  rw [IsSuccess, recvAck_arrival, harrival]
  dsimp only
  rw [hread]
  dsimp only
  by_cases hcode : code = .success
  · rw [hcode, if_neg (not_not_intro rfl)]
    exact iff_of_true ⟨_, rfl⟩ rfl
  · rw [if_pos fun h => hcode (ErrorCode.toUInt8_injective h)]
    refine iff_of_false ?_ hcode
    rintro ⟨p, hp⟩
    cases hp

theorem readPartAck_of_arrival {stid : StidType} {partid : PartId} {avspace : AvspaceType}
    {p : Packet} (h : arrival (Storage.partAckPacket stid partid avspace) = some p) :
    Master.readPartAck p = some ⟨stid, partid, avspace⟩ := by
  have hm : (Message.partAck stid partid avspace).size < 2 ^ 32 := by change 24 < 2 ^ 32; decide
  exact readPartAck_of_front (whole_of_arrival (.partAck stid partid avspace) hm h).2

theorem header_partAckPacket (stid : StidType) (partid : PartId) (avspace : AvspaceType) :
    (Storage.partAckPacket stid partid avspace).header = ⟨24, ⟨SM.fromto, SM.partAckW⟩⟩ := by
  rfl

/-! ### The parts of a task -/

theorem payload_upActPacket (fid : FidType) (partNum : PartnumType) (hash : Sha1Type)
    (partBuffer : Bytes) : (Client.upActPacket fid partNum hash partBuffer).payload =
      Layout.image (CS.UpAct.mk ⟨fid, partNum⟩ hash) ++
        partBuffer.take (partBuffer.length % 2 ^ 32) := by
  rw [Client.upActPacket, Packet.addData, payload_addMessage, SharedBuffer.buf_ofData,
    payload_addValue _ _ _ (by decide), payload_addValue _ _ _ (by decide),
    payload_addValue _ _ _ (by decide)]
  rfl

section Parts

variable {fid : FidType} {partNum : PartnumType} {hash : Sha1Type} {partBuffer : Bytes} {p : Packet}

theorem partid_of_arrival (h : arrival (Client.upActPacket fid partNum hash partBuffer) = some p)
    {part : CS.UpAct} {data : Bytes} (hread : Storage.readUpAct p = some (part, data)) :
    part.partid = ⟨fid, partNum⟩ := by
  have hoverlay := ((readUpAct_eq_some_iff (delivered_of_arrival h)).mp hread).1
  rw [front_of_arrival h, payload_upActPacket] at hoverlay
  rw [(Layout.eq_of_overlay_take [] hoverlay).2]

end Parts

/-! ### The answer of the master -/

instance : Layout.Exact MC.UpPiecesLoc := Layout.exact_ofEquiv (α := FidType) _
instance : Layout.Exact Addr := Layout.exact_ofEquiv (α := Ipv6Type × PortType) _
instance : Layout.Exact StpField := Layout.exact_ofEquiv (α := Addr × PartnumType) _

theorem payload_upPiecesLocPacket (fileId : FidType) (fields : List StpField) :
    (Master.upPiecesLocPacket fileId fields).payload =
      Layout.image (MC.UpPiecesLoc.mk fileId) ++
        (Layout.imageList fields).take ((Layout.imageList fields).length % 2 ^ 32) := by
  rw [Master.upPiecesLocPacket, Packet.addData, payload_addMessage, SharedBuffer.buf_ofData,
    payload_addValue _ _ _ (by decide)]
  rfl

theorem upPiecesLoc_of_arrival {fileId fid : FidType} {fields stplist : List StpField} {p : Packet}
    (h : arrival (Master.upPiecesLocPacket fileId fields) = some p)
    (hread : Client.readUpPiecesLoc p = some (fid, stplist)) :
    fid = fileId ∧ stplist <+: fields := by
  obtain ⟨pieces, hpieces, hrest⟩ := Option.bind_eq_some_iff.mp hread
  obtain ⟨list, hlist, heq⟩ := Option.bind_eq_some_iff.mp hrest
  cases heq
  rw [front_of_arrival h, payload_upPiecesLocPacket] at hpieces hlist
  obtain ⟨hle, rfl⟩ := Layout.eq_of_overlay_take [] hpieces
  refine ⟨rfl, ?_⟩
  rw [List.take_append, Layout.length_image, List.take_of_length_le (by rwa [Layout.length_image]),
    List.take_take, ← Layout.length_image (MC.UpPiecesLoc.mk fileId)] at hlist
  exact Layout.isPrefix_of_overlayList_take (by decide) hlist

theorem totalParts_le_of_isPrefix {stplist fields : List StpField} (h : stplist <+: fields) :
    Client.totalParts stplist ≤ Client.totalParts fields := by
  obtain ⟨rest, rfl⟩ := h
  rw [Client.totalParts, Client.totalParts, List.map_append, List.sum_append]
  exact Nat.le_add_right _ _

/-! ### The handler of a part -/

section Handling

variable {s : Storage.Setup} {p : Packet} {env : Storage.Env}

def answering (code : ErrorCode) (keepAlive : KeepAlive) : Storage.Handler KeepAlive :=
  .op (.send .client (ackPacket SC.fromto code)) fun _ => .pure keepAlive

/-- What is left of a handler that has stored the part. -/
def telling (s : Storage.Setup) (env : Storage.Env) (partid : PartId) :
    Storage.Handler KeepAlive :=
  if env.masterReachable then
    .op (.send .master (Storage.partAckPacket s.id partid 10)) fun _ => answering .success .yes
  else .throw .exception

def storing (s : Storage.Setup) (env : Storage.Env) (partid : PartId) (data : Bytes) :
    Storage.Handler KeepAlive :=
  .op (.write (Storage.uploadPath s partid) data) fun _ => telling s env partid

theorem sendError_eq (hfromto : p.fromtoGet = CS.fromto) (code : ErrorCode) :
    Storage.sendError p code = answering code .no := by
  rw [Storage.sendError, Storage.sendAck, hfromto]
  rfl

theorem storePart_eq (henv : Reliable env) (hfromto : p.fromtoGet = CS.fromto) (partid : PartId)
    (data : Bytes) : Storage.storePart s ⟨p, env⟩ partid data = storing s env partid data := by
  rw [Storage.storePart, Storage.writeFile, henv, storing]
  refine congrArg (Program.op _) (funext fun _ => ?_)
  change (Storage.createSession env >>= fun _ => _) = _
  rw [Storage.createSession, telling, Storage.sendAck, hfromto]
  split_ifs
  · rfl
  · rfl

theorem csUpAct_eq (hdelivered : Delivered p) (haddress : env.remoteAddress.isSome)
    {part : CS.UpAct} {data : Bytes} {hash : Sha1Type}
    (hread : Storage.readUpAct p = some (part, data))
    (hhash : Files.hashBufferHex s.sha1 data (UInt64.ofNat data.length) = some hash) :
    Storage.csUpAct s ⟨p, env⟩ =
      if hash ≠ part.sha1 then Storage.sendError p .hashFailed
      else Storage.storePart s ⟨p, env⟩ part.partid data := by
  obtain ⟨address, haddress⟩ := Option.isSome_iff_exists.mp haddress
  rw [Storage.csUpAct, readPartId_of_readUpAct hdelivered hread, haddress, hread]
  change Program.ofOption _ (Files.hashBufferHex s.sha1 data (p.sizeT - _)) >>= _ = _
  rw [(length_of_readUpAct hdelivered hread).2, hhash]
  rfl

/-- A part is refused or stored, or the handler throws. -/
theorem recvDispatcher_cases (henv : Reliable env) (hdelivered : Delivered p)
    (hfromto : p.fromtoGet = CS.fromto) (hwhat : p.whatGet = CS.upActW) :
    (∃ e, Storage.recvDispatcher s ⟨p, env⟩ = .throw e) ∨
    (∃ code, code ≠ .success ∧ Storage.recvDispatcher s ⟨p, env⟩ = answering code .no) ∨
    ∃ part data, Storage.readUpAct p = some (part, data) ∧ Storage.Checks s part data ∧
      Storage.recvDispatcher s ⟨p, env⟩ = storing s env part.partid data := by
  rw [Storage.recvDispatcher]
  by_cases hsize : p.sizeGet < 1
  · rw [if_pos hsize]
    exact .inr (.inl ⟨.invalidPacket, by decide, sendError_eq hfromto _⟩)
  rw [if_neg hsize, if_neg (by rw [hwhat]; decide), if_pos ⟨hfromto, hwhat⟩]
  cases haddress : env.remoteAddress with
  | none =>
      rw [Storage.csUpAct, haddress]
      cases Storage.readPartId p with
      | none => exact .inl ⟨.fault, rfl⟩
      | some partid => exact .inl ⟨.exception, rfl⟩
  | some address =>
      cases hread : Storage.readUpAct p with
      | none =>
          rw [Storage.csUpAct, haddress, hread]
          cases Storage.readPartId p with
          | none => exact .inl ⟨.fault, rfl⟩
          | some partid => exact .inl ⟨.fault, rfl⟩
      | some upload =>
          obtain ⟨part, data⟩ := upload
          have hlength := (length_of_readUpAct hdelivered hread).1
          have hlt := p.sizeGet.toNat_lt
          obtain ⟨hash, hhash⟩ := @Files.exists_hashBufferHex data s.sha1 (by omega)
          rw [csUpAct_eq hdelivered (by rw [haddress]; rfl) hread hhash]
          by_cases heq : hash = part.sha1
          · rw [if_neg (not_not_intro heq), storePart_eq henv hfromto]
            exact .inr (.inr ⟨part, data, rfl, hhash.trans (congrArg some heq), rfl⟩)
          · rw [if_pos heq, sendError_eq hfromto]
            exact .inr (.inl ⟨.hashFailed, by decide, rfl⟩)

end Handling

end Mp2p.System
