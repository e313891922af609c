import Mp2p.Network.Messages
import Mp2p.Network.Misc

/-!
# Sending and receiving the parts of a file

The body of the loop of `send_parts` and the `memcpy` of `recv_part`. The hash of a part is a
parameter: nothing here depends on which function it is.
-/

namespace Mp2p.Client

open Masks Network

/-- The mapped contents of a `files::File`; its size is a `size_t`. -/
structure File where
  data : Bytes
  size_lt : data.length < 2 ^ 64

namespace File

def size (file : File) : UInt64 := UInt64.ofNat file.data.length

theorem toNat_size (file : File) : file.size.toNat = file.data.length := by
  rw [size, UInt64.toNat_ofNat', Nat.mod_eq_of_lt file.size_lt]

end File

def createEmptyFile (size : FsizeType) : Bytes := List.replicate size.toNat 0

/-- The buffer `part_buffer` points to. The hash reads all of it, so a buffer that leaves the file
is a fault. -/
def partBuffer (file : File) (totalParts i : UInt64) : Option Bytes :=
  let partSize := getPartSize file.size i.toUInt32 totalParts.toUInt32
  Window.read file.data (file.size / totalParts * i).toNat partSize.toNat

def sendPart (hashBufferHex : Bytes → Sha1Type) (fid : FidType) (file : File)
    (totalParts i : UInt64) : Option Packet :=
  (partBuffer file totalParts i).map fun buffer =>
    upActPacket fid i.toUInt32 (hashBufferHex buffer) buffer

def upActData (p : Packet) : Bytes := (p.messageSeq.getLast?.map SharedBuffer.buf).getD []

/-- `memcpy(file.data() + partnum * part_size, data, …)` of `recv_part`. -/
def recvPart (file : Bytes) (partSize : UInt64) (partnum : PartnumType) (data : Bytes) :
    Option Bytes :=
  Window.write file (partnum.toUInt64 * partSize).toNat data

end Mp2p.Client
