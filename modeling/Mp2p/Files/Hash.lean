import Mp2p.Network.Misc

/-!
# Hashing a buffer

`hash_buffer_hex` hands a buffer to SHA-1 in parts of about a megabyte. The parts are cut as those of
a file are, by a division in single precision, and nothing but their sizes keeps them in the buffer.
-/

namespace Mp2p.Files

open Masks Network

def partsForHashingSize (size : UInt64) : UInt64 :=
  let mb : UInt64 := 1000000
  if size < mb then 1 else size / mb

def hashingPartSize (size : UInt64) : UInt64 :=
  UInt64.ofNat (ceilFloatDiv size.toNat (partsForHashingSize size).toNat)

def partSizeForHashingSize (size partId : UInt64) : UInt64 :=
  let parts := partsForHashingSize size
  let partSize := hashingPartSize size
  if partId = parts - 1 then
    let offset := partId * partSize
    if offset + partSize > size then partSize - (offset + partSize - size) else partSize
  else partSize

/-- What the calls of `SHA1_Update` get, none when a part leaves the buffer. -/
def hashedParts (sbuff : Bytes) (size : UInt64) : Option (List Bytes) :=
  (List.range (partsForHashingSize size).toNat).mapM fun i =>
    Window.read sbuff (UInt64.ofNat i * hashingPartSize size).toNat
      (partSizeForHashingSize size (UInt64.ofNat i)).toNat

/-- `hash_buffer_hex`. SHA-1 is a library's; its hash is that of all it got, one after the other. -/
def hashBufferHex (sha1 : Bytes → Sha1Type) (sbuff : Bytes) (size : UInt64) : Option Sha1Type :=
  (hashedParts sbuff size).map fun parts => sha1 parts.flatten

end Mp2p.Files
