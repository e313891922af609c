import Mp2p.Client.Tasks
import Mp2p.Client.Transfer

/-!
# Downloads

`request_download` and its tasks. A task asks one storage for one part and copies what comes back
into the mapped file, at the offset of the part number that came with it.
-/

namespace Mp2p.Client

open Masks Network

structure PartReceived where
  packet : Packet
  upload : SC.UpAct
  data : Bytes
  offset : ℕ

inductive DownloadEvent where
  | wrote (part : PartReceived)
  | acked (part : PartReceived) (ack : Packet)

/-- A download with everything its outcome depends on. The file is mapped by a library, given its
name and size, and nothing is asked of that; the storages are those of the fields of the answer. -/
structure Download where
  filename : Bytes
  master : Peer
  /-- `boost::filesystem::space(".").available`, none when that throws. -/
  available : Option UInt64
  /-- `File::create_empty_file`, none when that throws. -/
  createEmptyFile : Bytes → FsizeType → Option Bytes
  storages : ℕ → Peer
  /-- The milliseconds the clock measures. -/
  duration : ℕ

def dlName (filename : Bytes) : Bytes := filename ++ [0x2d, 0x64, 0x6c]

def partOffset (partSize : UInt64) (partnum : PartnumType) : ℕ :=
  (partnum.toUInt64 * partSize).toNat

/-- The callback of `recv_part`. Whether the `memcpy` stays in the file depends on the size of the
file alone, so the file as it was mapped decides it. -/
def partReceived (file : Bytes) (partSize : UInt64) (p : Packet) : Course (Action DownloadEvent) :=
  match readPartData p with
  | none => .fault
  | some (upload, data) =>
      match recvPart file partSize upload.partid.partnum data with
      | none => .fault
      | some _ =>
          let part := ⟨p, upload, data, partOffset partSize upload.partid.partnum⟩
          .act (.did (.wrote part)) (match fromtoInverse p.fromtoGet with
            | none => .fault
            | some fromtoDst =>
                .act (.did (.acked part (ackPacket fromtoDst .success)))
                  (.act .progressed .ended))

/-- `recv_part`: a refused connection throws, a failed read is logged. -/
def recvPartTask (file : Bytes) (partid : PartId) (partSize : UInt64) (storage : Peer) :
    Course (Action DownloadEvent) :=
  match storage with
  | none => .ended
  | some deliver =>
      (blockingReceive (fun _ p => (partReceived file partSize p, .no)) .ended
        (deliver (blockingSend (downActPacket partid)))).1

def downloadTasks (x : Download) (file : Bytes) (partSize : UInt64) (fid : FidType)
    (stplist : List StpField) (i : Fin stplist.length) : Course (Action DownloadEvent) :=
  recvPartTask file ⟨fid, (stplist.get i).nb⟩ partSize (x.storages i)

/-- The callback of `request_download`; the limit is `unsigned`. The throughput divides by the
duration. -/
def downloadAnswered (x : Download) (p : Packet) : Call DownloadEvent :=
  if p.whatGet = 0 then processError p
  else
    match readDownPiecesLoc p with
    | none => .fault
    | some (fsize, fid, stplist) =>
        if stplist.length = 0 then .threw
        else
          let partSize := fsize / UInt64.ofNat stplist.length
          match x.available with
          | none => .threw
          | some available =>
              if fsize > available then .threw
              else
                match x.createEmptyFile (dlName x.filename) fsize with
                | none => .threw
                | some file =>
                    .spawned (downloadTasks x file partSize fid stplist)
                      (stplist.length % 2 ^ 32) (x.duration ≠ 0)

def Download.request (x : Download) : Packet := downReqPacket x.filename

def requestDownload (x : Download) : Call DownloadEvent :=
  askMaster x.master x.request (downloadAnswered x)

end Mp2p.Client
