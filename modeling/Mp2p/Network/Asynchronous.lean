import Mp2p.Network.Session

/-!
# Asynchronous transport over a byte stream

What the handlers of `async_read` and `async_write` do when the operation has ended, and the
`blocking_send` that has a callback. A packet is handed over once its header and its body have been
read whole, and `receive_message` re-arms through `receive(s)`, with the dispatcher of the session.
-/

namespace Mp2p.Network

open Masks

abbrev DispatcherType (σ : Type) := σ → Packet → σ × KeepAlive

/-- The handler of `receive_header`: a packet with one empty message of the size that was read. -/
def receiveHeader (stream : Bytes) : Option (Packet × Bytes) := do
  let buff ← Window.read stream 0 (sizeof PacketHeader)
  let header ← Layout.overlay (α := PacketHeader) buff 0
  let p := Packet.ofType header.type.fromto header.type.what
  pure (p.addMessage (emptyMessage header.size), stream.drop (sizeof PacketHeader))

/-- The read of `receive_message`, into the message of the packet. -/
def receiveBody (p : Packet) (stream : Bytes) : Option (Packet × Bytes) := do
  let data ← Window.read stream 0 p.sizeGet.toNat
  pure ({ p with messageSeq := [{ container := some data, buf := data }] },
    stream.drop p.sizeGet.toNat)

theorem addMessage_ofType (fromto : FromtoType) (what : WhatType) (message : SharedBuffer) :
    (Packet.ofType fromto what).addMessage message = Packet.ofMessage fromto what message := by
  rw [Packet.ofType, Packet.addMessage, UInt32.zero_add, List.nil_append]
  rfl

/-- Both transports build one packet from one stream. -/
theorem receiveHeader_bind_receiveBody (stream : Bytes) :
    (receiveHeader stream).bind (fun r => receiveBody r.1 r.2) = receivePacket stream := by
  rw [receiveHeader, receivePacket]
  cases hbuff : Window.read stream 0 (sizeof PacketHeader) with
  | none => rfl
  | some buff =>
      cases hheader : Layout.overlay (α := PacketHeader) buff 0 with
      | none =>
          simp only [Option.bind_eq_bind, Option.bind_some, hheader, Option.bind_none]
      | some header =>
          have hsize : (Packet.ofMessage header.type.fromto header.type.what
              (emptyMessage header.size)).sizeGet = header.size := by
            simp [Packet.sizeGet, Packet.ofMessage, emptyMessage, SharedBuffer.size]
          simp only [Option.bind_eq_bind, Option.bind_some, hheader, Option.pure_def,
            addMessage_ofType, receiveBody, hsize]

def receive {σ : Type} (dispatcher callback : DispatcherType σ) (st : σ) (stream : Bytes) :
    σ × Bytes :=
  match _h : (receiveHeader stream).bind fun r => receiveBody r.1 r.2 with
  | none => (st, stream)
  | some (p, rest) =>
      match callback st p with
      | (st, .yes) => receive dispatcher dispatcher st rest
      | (st, .no) => (st, rest)
termination_by stream.length
decreasing_by exact length_lt_of_receivePacket ((receiveHeader_bind_receiveBody stream).symm.trans _h)

/-- `send(s, packet, callback)`. Of what is written the socket takes some, or all of it. -/
def send {σ : Type} (write : Bytes → Bytes × Bool) (callback : DispatcherType σ) (st : σ)
    (packet : Packet) : Bytes × σ :=
  let p := { packet with messageSeq := packet.serializeHeader :: packet.messageSeq }
  let (written, ok) := write (p.messageSeq.flatMap SharedBuffer.buf)
  (written, if ok then (callback st p).1 else st)

def blockingSendWith {σ : Type} (write : Bytes → Bytes × Bool) (callback : DispatcherType σ)
    (st : σ)
    (packet : Packet) : Bytes × σ :=
  let (written, ok) := write (blockingSend packet)
  (written, if ok then (callback st packet).1 else st)

end Mp2p.Network
