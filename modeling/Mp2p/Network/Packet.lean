import Mp2p.Utils.SharedBuffer

/-!
# Packets

A header and a sequence of messages. The size in the header is a 32-bit accumulator that
`add_message` increases by the size of each message.
-/

namespace Mp2p.Network

open Masks

inductive ErrorCode where
  | success
  | error
  | fileNotFound
  | hashFailed
  | invalidPacket
  | missingStorage
  | incompleteFile
  | redundancy
  deriving DecidableEq, Repr

def ErrorCode.toUInt8 : ErrorCode → UInt8
  | success => 0
  | error => 1
  | fileNotFound => 3
  | hashFailed => 4
  | invalidPacket => 5
  | missingStorage => 6
  | incompleteFile => 7
  | redundancy => 11

def ErrorCode.ofUInt8 (byte : UInt8) : Option ErrorCode :=
  [success, error, fileNotFound, hashFailed, invalidPacket, missingStorage, incompleteFile,
    redundancy].find? fun code => code.toUInt8 = byte

@[simp]
theorem ErrorCode.ofUInt8_toUInt8 (code : ErrorCode) : ofUInt8 code.toUInt8 = some code := by
  cases code <;> rfl

theorem ErrorCode.toUInt8_injective : Function.Injective ErrorCode.toUInt8 := by
  intro a b h
  have hcode := congrArg ErrorCode.ofUInt8 h
  rwa [ofUInt8_toUInt8, ofUInt8_toUInt8, Option.some_inj] at hcode

inductive KeepAlive where
  | yes
  | no
  deriving DecidableEq, Repr

structure Packet where
  header : PacketHeader
  messageSeq : List SharedBuffer
  deriving DecidableEq, Repr

namespace Packet

def ofType (fromto : FromtoType) (what : WhatType) : Packet :=
  { header := ⟨0, fromto, what⟩, messageSeq := [] }

/-- `Packet(header)`: the size is taken over, and there is no message yet. -/
def ofHeader (header : PacketHeader) : Packet := { header, messageSeq := [] }

def ofMessage (fromto : FromtoType) (what : WhatType) (message : SharedBuffer) : Packet :=
  { header := ⟨UInt32.ofNat message.size, fromto, what⟩, messageSeq := [message] }

/-- `Packet(size, fromto, what, data, to_copy)`: the size argument is 32 bits wide. -/
def ofDataCopy (fromto : FromtoType) (what : WhatType) (data : Bytes) (toCopy : Copy) : Packet :=
  { header := ⟨UInt32.ofNat data.length, fromto, what⟩
    messageSeq := [SharedBuffer.ofData (data.take (data.length % 2 ^ 32)) toCopy] }

/-- `Packet(size, fromto, what, data)`. -/
def ofData (fromto : FromtoType) (what : WhatType) (data : Bytes) : Packet :=
  ofDataCopy fromto what data .yes

/-- `Packet(fromto, what, data)` with a vector that is moved. -/
def ofContainer (fromto : FromtoType) (what : WhatType) (data : Bytes) : Packet :=
  { header := ⟨UInt32.ofNat data.length, fromto, what⟩
    messageSeq := [SharedBuffer.ofContainer data] }

def addMessage (p : Packet) (message : SharedBuffer) : Packet :=
  { header := { p.header with size := p.header.size + UInt32.ofNat message.size }
    messageSeq := p.messageSeq ++ [message] }

/-- `add_message(data, size, to_copy)`: the size argument is 32 bits wide. -/
def addData (p : Packet) (data : Bytes) (toCopy : Copy) : Packet :=
  p.addMessage (SharedBuffer.ofData (data.take (data.length % 2 ^ 32)) toCopy)

def copyMessage (p : Packet) (message : SharedBuffer) : Packet :=
  p.addData message.buf .yes

def sizeGet (p : Packet) : SizeType := p.header.size

def fromtoGet (p : Packet) : FromtoType := p.header.type.fromto

def whatGet (p : Packet) : WhatType := p.header.type.what

def serializeHeader (p : Packet) : SharedBuffer := SharedBuffer.ofData (Layout.image p.header) .yes

/-- The bytes of the message sequence, one message after the other. -/
def payload (p : Packet) : Bytes := p.messageSeq.flatMap SharedBuffer.buf

/-- What a dispatcher reads through `message_seq_get().front().data()`. -/
def front (p : Packet) : Bytes := (p.messageSeq.head?.map SharedBuffer.buf).getD []

end Packet

def emptyMessage (size : SizeType) : SharedBuffer := SharedBuffer.ofSize size.toNat

/-- The packet a receiver builds from the header it read and the body it read into one buffer. -/
def received (header : PacketHeader) (body : Bytes) : Packet :=
  { header, messageSeq := [{ container := some body, buf := body }] }

@[simp]
theorem front_received (header : PacketHeader) (body : Bytes) :
    (received header body).front = body := rfl

/-- The body is as long as the header says. -/
def Delivered (packet : Packet) : Prop := packet.front.length = packet.sizeGet.toNat

end Mp2p.Network
