import Mp2p.Client.Tasks
import Mp2p.Client.Transfer

/-!
# Uploads

`request_upload` and its tasks. A task sends the parts of its range over one session to a storage,
each after the acknowledgement of the one before.
-/

namespace Mp2p.Client

open Masks Network

structure PartSent where
  part : ℕ
  toSend : Packet
  received : Option Packet
  deriving DecidableEq, Repr

/-- An upload with everything its outcome depends on; the storages are those of the fields of the
answer, in order, and deliver bytes on the sessions of the tasks. -/
structure Upload where
  file : File
  fname : Bytes
  rdcy : RdcyType
  master : Peer
  storages : ℕ → Option Bytes

section

variable (hashBufferHex : Bytes → Sha1Type)

/-- The packet for part `i`. A number of parts that is zero as a `partnum_type` makes
`get_part_size` convert an infinite quotient to an integer, which is a fault. -/
def partPacket (fid : FidType) (file : File) (totalParts i : ℕ) : Option Packet :=
  if (UInt64.ofNat totalParts).toUInt32 = 0 then none
  else sendPart hashBufferHex fid file (UInt64.ofNat totalParts) (UInt64.ofNat i)

def sendPartsLoop (fid : FidType) (file : File) (totalParts : ℕ) :
    ℕ → ℕ → Bytes → Course (Action PartSent)
  | 0, _, _ => .ended
  | n + 1, i, stream =>
      match partPacket hashBufferHex fid file totalParts i with
      | none => .fault
      | some toSend =>
          match recvAck stream with
          | (.fault, _) => .fault
          | (.threw p, _) => .act (.did ⟨i, toSend, some p⟩) .ended
          | (.accepted p, rest) =>
              .act (.did ⟨i, toSend, some p⟩)
                (.act .progressed (sendPartsLoop fid file totalParts n (i + 1) rest))
          | (.lost, rest) =>
              .act (.did ⟨i, toSend, none⟩)
                (.act .progressed (sendPartsLoop fid file totalParts n (i + 1) rest))

/-- `send_parts`: a refused connection throws. -/
def sendParts (fid : FidType) (file : File) (totalParts beginId endId : ℕ)
    (storage : Option Bytes) : Course (Action PartSent) :=
  match storage with
  | none => .ended
  | some stream => sendPartsLoop hashBufferHex fid file totalParts (endId - beginId) beginId stream

def totalParts (stplist : List StpField) : ℕ := (stplist.map fun field => field.nb.toNat).sum

def partRanges (parts : ℕ) : List StpField → List (ℕ × ℕ)
  | [] => []
  | field :: rest =>
      (parts - field.nb.toNat, parts) :: partRanges (parts - field.nb.toNat) rest

def uploadTasks (x : Upload) (fid : FidType) (stplist : List StpField)
    (i : Fin (partRanges (totalParts stplist) stplist).length) : Course (Action PartSent) :=
  let range := (partRanges (totalParts stplist) stplist).get i
  sendParts hashBufferHex fid x.file (totalParts stplist) range.1 range.2 (x.storages i)

/-- The callback of `request_upload`; the limit is `unsigned`. -/
def uploadAnswered (x : Upload) (p : Packet) : Call PartSent :=
  if p.whatGet = 0 then processError p
  else
    match readUpPiecesLoc p with
    | none => .fault
    | some (fid, stplist) =>
        .spawned (uploadTasks hashBufferHex x fid stplist) (totalParts stplist % 2 ^ 32) true

def Upload.request (x : Upload) : Packet := upReqPacket x.file.size x.rdcy x.fname

def requestUpload (x : Upload) : Call PartSent :=
  if x.rdcy = 0 then .threw
  else askMaster x.master x.request (uploadAnswered hashBufferHex x)

end

end Mp2p.Client
