import Mp2p.Network.Messages

/-!
# Blocking transport over a byte stream

A connection is the bytes the peer has still to deliver; an exact read takes that many bytes or
fails, leaving the call without them.
-/

namespace Mp2p.Network

open Masks

def blockingSend (packet : Packet) : Bytes :=
  (packet.serializeHeader :: packet.messageSeq).flatMap SharedBuffer.buf

/-- One round of `blocking_receive`: an exact read of the header, a packet with one empty message of
the size the header gives, an exact read into that message. Nothing when either read fails. -/
def receivePacket (stream : Bytes) : Option (Packet × Bytes) := do
  let packetBuff ← Window.read stream 0 (sizeof PacketHeader)
  let header ← Layout.overlay (α := PacketHeader) packetBuff 0
  let p := Packet.ofMessage header.type.fromto header.type.what (emptyMessage header.size)
  let rest := stream.drop (sizeof PacketHeader)
  let data ← Window.read rest 0 header.size.toNat
  pure ({ p with messageSeq := [{ container := some data, buf := data }] },
    rest.drop header.size.toNat)

theorem length_lt_of_receivePacket {stream rest : Bytes} {p : Packet}
    (h : receivePacket stream = some (p, rest)) : rest.length < stream.length := by
  simp only [receivePacket, Option.bind_eq_bind, Option.bind_eq_some_iff, Option.pure_def,
    Option.some.injEq, Prod.mk.injEq] at h
  obtain ⟨_, hread, _, _, _, _, _, rfl⟩ := h
  have hsize := (Window.read_eq_some_iff.mp hread).1
  simp only [sizeof_packetHeader] at hsize
  simp only [List.length_drop, sizeof_packetHeader]
  omega

/-- `blocking_receive(s, callback)`: the callback gets the packets in turn as long as it answers
`keep_alive::Yes`; a failed read is logged and ends the call. -/
def blockingReceive {σ : Type} (callback : σ → Packet → σ × KeepAlive) (st : σ) (stream : Bytes) :
    σ × Bytes :=
  match _h : receivePacket stream with
  | none => (st, stream)
  | some (p, rest) =>
      match callback st p with
      | (st, .yes) => blockingReceive callback st rest
      | (st, .no) => (st, rest)
termination_by stream.length
decreasing_by exact length_lt_of_receivePacket _h

section Rounds

variable {σ : Type} {callback : σ → Packet → σ × KeepAlive} {st : σ} {stream rest : Bytes}
  {p : Packet}

theorem blockingReceive_closed (h : receivePacket stream = none) :
    blockingReceive callback st stream = (st, stream) := by
  rw [blockingReceive]
  split
  · rfl
  · rename_i hreceived
    rw [h] at hreceived
    cases hreceived

theorem blockingReceive_eq (h : receivePacket stream = some (p, rest)) :
    blockingReceive callback st stream =
      match callback st p with
      | (st, .yes) => blockingReceive callback st rest
      | (st, .no) => (st, rest) := by
  rw [blockingReceive]
  split
  · rename_i hclosed
    rw [h] at hclosed
    cases hclosed
  · rename_i hreceived
    rw [h] at hreceived
    cases hreceived
    rfl

theorem blockingReceive_yes (h : receivePacket stream = some (p, rest))
    (hanswer : (callback st p).2 = .yes) :
    blockingReceive callback st stream = blockingReceive callback (callback st p).1 rest := by
  rw [blockingReceive_eq h, show callback st p = ((callback st p).1, .yes) from Prod.ext rfl hanswer]

theorem blockingReceive_no (h : receivePacket stream = some (p, rest))
    (hanswer : (callback st p).2 = .no) :
    blockingReceive callback st stream = ((callback st p).1, rest) := by
  rw [blockingReceive_eq h, show callback st p = ((callback st p).1, .no) from Prod.ext rfl hanswer]

end Rounds

/-- A callback that never answers `keep_alive::Yes` gets at most one packet. -/
theorem blockingReceive_once {σ : Type} (callback : Packet → σ) (st : σ) (stream : Bytes) :
    (blockingReceive (fun _ p => (callback p, .no)) st stream).1 =
      match (receivePacket stream).map Prod.fst with
      | none => st
      | some p => callback p := by
  cases hreceived : receivePacket stream with
  | none => rw [blockingReceive_closed hreceived, Option.map_none]
  | some r =>
      have hone : blockingReceive (fun _ p => (callback p, .no)) st stream = (callback r.1, r.2) :=
        blockingReceive_no hreceived rfl
      rw [hone, Option.map_some]

inductive AckResult where
  /-- The read failed, which `blocking_receive` only logs. -/
  | lost
  | accepted (p : Packet)
  | threw (p : Packet)
  | fault
  deriving DecidableEq, Repr

def recvAck (stream : Bytes) : AckResult × Bytes :=
  blockingReceive (fun _ p =>
    match readAck p with
    | none => (.fault, .no)
    | some ackCode =>
        if ackCode ≠ ErrorCode.success.toUInt8 then (.threw p, .no) else (.accepted p, .no))
    .lost stream

theorem recvAck_eq (stream : Bytes) : (recvAck stream).1 =
    match (receivePacket stream).map Prod.fst with
    | none => .lost
    | some p => match readAck p with
      | none => .fault
      | some ackCode => if ackCode ≠ ErrorCode.success.toUInt8 then .threw p else .accepted p := by
  refine Eq.trans ?_ (blockingReceive_once (fun p => match readAck p with
    | none => AckResult.fault
    | some ackCode =>
        if ackCode ≠ ErrorCode.success.toUInt8 then .threw p else .accepted p) .lost stream)
  rw [recvAck]
  congr 2
  funext _ p
  cases readAck p with
  | none => rfl
  | some ackCode =>
      dsimp only
      split_ifs
      · rfl
      · rfl

end Mp2p.Network
