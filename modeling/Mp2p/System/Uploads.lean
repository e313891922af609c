import Mp2p.Client.Upload
import Mp2p.Master.Callbacks
import Mp2p.Storage.Callbacks

/-!
# Uploads across the system

Clients that upload, the storages they send their parts to, and the master. The master handles one
packet at a time; a storage handles packets of different sessions at once, one command of one
handler after the other, and the file of a part is closed as the handler ends. What is in flight is
delivered, in order on one session and in any order otherwise; only an exception closes a session
before its answer. Who was told what is written down as it happens and decides nothing.
-/

namespace Mp2p.System

open Masks Network

/-- The packet a receiver makes of the bytes of a packet. -/
def arrival (packet : Packet) : Option Packet :=
  (receivePacket (blockingSend packet)).map Prod.fst

/-- Bytes put into a file at an offset, zeros before them where there was nothing. -/
def writeAt (contents : Bytes) (offset : ℕ) (bytes : Bytes) : Bytes :=
  contents.take offset ++ List.replicate (offset - contents.length) 0 ++ bytes ++
    contents.drop (offset + bytes.length)

/-- An `ofstream` that is open: the offset it has come to, and the bytes it has still in its
buffer. -/
structure Stream where
  path : Bytes
  offset : ℕ
  rest : Bytes

def Stream.close (stream : Stream) (directory : Storage.Directory) : Storage.Directory :=
  if stream.rest = [] then directory
  else directory.insert stream.path
    (writeAt ((directory.lookup stream.path).getD []) stream.offset stream.rest)

/-- A task of `send_parts` and the session it has with a storage, which the storage handles. -/
structure Task (S : Type) where
  storage : S
  fid : FidType
  file : Client.File
  totalParts : ℕ
  beginId : ℕ
  endId : ℕ
  /-- The part the loop is at. -/
  i : ℕ
  /-- The task is in `recv_ack`. -/
  waiting : Bool
  /-- An error acknowledgement has ended the task. -/
  threw : Bool
  /-- What the task sent last. -/
  sent : Option Packet
  toStorage : List Packet
  /-- The packet the storage is at, with what its handler has still to do. -/
  handling : Option (Packet × Storage.Handler KeepAlive)
  /-- The file the handler has written to. -/
  stream : Option Stream
  closed : Bool
  /-- The answers on their way, each with the packet it answers. -/
  toClient : List (Packet × Packet)

def Task.begin {S : Type} (storage : S) (fid : FidType) (file : Client.File) (totalParts : ℕ)
    (range : ℕ × ℕ) : Task S :=
  { storage, fid, file, totalParts, beginId := range.1, endId := range.2, i := range.1,
    waiting := false, threw := false, sent := none, toStorage := [], handling := none,
    stream := none, closed := false, toClient := [] }

structure State (V S : Type) where
  master : DB.World V
  /-- The answers of the master to uploads on their way, each with the file to upload. -/
  answers : List (Client.File × Packet)
  tasks : List (Task S)
  directory : S → Storage.Directory
  partAcks : List Packet
  /-- The packets a storage has acknowledged with success. -/
  acked : List (S × Packet)
  /-- What a task had sent last when it consumed a success, and what the success answered. -/
  consumed : List (Packet × Packet)

def State.start {V S : Type} [DB.Coding V] (directory : S → Storage.Directory) : State V S :=
  { master := .initial, answers := [], tasks := [], directory, partAcks := [], acked := [],
    consumed := [] }

/-- Files can be written. What else a handler needs may still fail. -/
def Reliable (env : Storage.Env) : Prop := ∀ path data, env.written path data = some data

/-- An answer a client takes for a success. -/
def IsSuccess (packet : Packet) : Prop := ∃ p, (recvAck (blockingSend packet)).1 = .accepted p

instance (packet : Packet) : Decidable (IsSuccess packet) :=
  decidable_of_iff ((match (recvAck (blockingSend packet)).1 with
    | .accepted _ => true
    | _ => false) = true) (by
      unfold IsSuccess
      cases (recvAck (blockingSend packet)).1 <;> simp)

/-- What else is asked of the steps of a run. -/
structure Terms where
  /-- A packet the master handles. -/
  packet : Master.Request → Prop
  /-- A packet of anybody, which is neither a request to upload nor of a storage. -/
  stranger : Master.Request → Prop
  /-- Nothing is left in the buffer of a file when its part is answered. -/
  prompt : Prop

def Terms.free : Terms := ⟨fun _ => True, fun _ => True, False⟩

section Steps

variable {V S : Type} [DecidableEq S]

/-- A command of the handler of a task, which is at this packet. Of what is written so many bytes get
past the buffer of the stream. -/
def State.perform (st : State V S) (j : ℕ) (task : Task S) (packet : Packet) (flushed : ℕ) :
    (command : Storage.Command) → (command.Answer → Storage.Handler KeepAlive) → State V S
  | .read path, next =>
      let program := next ((st.directory task.storage).lookup path)
      { st with tasks := st.tasks.set j { task with handling := some (packet, program) } }
  | .write path data, next =>
      let directory := (st.directory task.storage).insert path (data.take flushed)
      { st with
        directory := Function.update st.directory task.storage directory
        tasks := st.tasks.set j { task with
          handling := some (packet, next ())
          stream := some ⟨path, (data.take flushed).length, data.drop flushed⟩ } }
  | .send .master message, next =>
      { st with
        partAcks := st.partAcks ++ [message]
        tasks := st.tasks.set j { task with handling := some (packet, next ()) } }
  | .send .client message, next =>
      { st with
        acked := if IsSuccess message then (task.storage, packet) :: st.acked else st.acked
        tasks := st.tasks.set j { task with
          handling := some (packet, next ())
          toClient := task.toClient ++ [(message, packet)] } }

def State.leave (st : State V S) (j : ℕ) (task : Task S) (closed : Bool) : State V S :=
  { st with
    directory := task.stream.elim st.directory fun stream =>
      Function.update st.directory task.storage (stream.close (st.directory task.storage))
    tasks := st.tasks.set j { task with handling := none, stream := none, closed } }

/-- The tasks `request_upload` starts for the fields of the answer, whoever listens at the
addresses. -/
def startTasks (listener : ℕ → S) (file : Client.File) (fid : FidType) (stplist : List StpField) :
    List (Task S) :=
  (Client.partRanges (Client.totalParts stplist) stplist).mapIdx fun k range =>
    Task.begin (listener k) fid file (Client.totalParts stplist) range

variable [DB.Coding V] (hashBufferHex : Bytes → Sha1Type) (setup : S → Storage.Setup)
  (terms : Terms)

inductive Step (st : State V S) : State V S → Prop where
  /-- The master handles a packet of anybody. -/
  | request (r : Master.Request) (hterms : terms.packet r ∧ terms.stranger r) :
      Step st { st with master := Master.handle st.master r }
  /-- The master handles the request of a client and answers it. -/
  | upload (r : Master.Request) (file : Client.File) (rdcy : RdcyType) (fname : Bytes)
      (answer : Packet) (hterms : terms.packet r)
      (hrequest : arrival (Client.upReqPacket file.size rdcy fname) = some r.packet)
      (hanswer : (Master.handle st.master r).sent = st.master.sent ++ [answer])
      (hwhat : answer.whatGet = MC.upPiecesLocW) :
      Step st { st with
        master := Master.handle st.master r
        answers := (file, answer) :: st.answers }
  | start (file : Client.File) (answer p : Packet) (answers : List (Client.File × Packet))
      (listener : ℕ → S) (fid : FidType) (stplist : List StpField)
      (hanswers : st.answers.Perm ((file, answer) :: answers)) (harrival : arrival answer = some p)
      (hread : Client.readUpPiecesLoc p = some (fid, stplist)) :
      Step st { st with answers, tasks := st.tasks ++ startTasks listener file fid stplist }
  | send (j : ℕ) (task : Task S) (toSend : Packet) (htask : st.tasks[j]? = some task)
      (hready : task.waiting = false ∧ task.threw = false) (hlt : task.i < task.endId)
      (hpacket : Client.partPacket hashBufferHex task.fid task.file task.totalParts task.i =
        some toSend) :
      Step st { st with tasks := st.tasks.set j { task with
        waiting := true
        sent := some toSend
        toStorage := task.toStorage ++ [toSend] } }
  | receive (j : ℕ) (task : Task S) (packet p : Packet) (rest : List Packet) (env : Storage.Env)
      (htask : st.tasks[j]? = some task) (hidle : task.handling = none ∧ task.closed = false)
      (hpacket : task.toStorage = packet :: rest) (harrival : arrival packet = some p)
      (henv : Reliable env) :
      Step st { st with tasks := st.tasks.set j { task with
        toStorage := rest
        handling := some (p, Storage.recvDispatcher (setup task.storage) ⟨p, env⟩) } }
  | perform (j : ℕ) (task : Task S) (p : Packet) (flushed : ℕ) (command : Storage.Command)
      (next : command.Answer → Storage.Handler KeepAlive) (htask : st.tasks[j]? = some task)
      (hhandling : task.handling = some (p, .op command next))
      (hprompt : terms.prompt → ∀ message, command = .send .client message →
        ∀ stream, task.stream = some stream → stream.rest = []) :
      Step st (st.perform j task p flushed command next)
  | finish (j : ℕ) (task : Task S) (p : Packet) (keepAlive : KeepAlive)
      (htask : st.tasks[j]? = some task) (hhandling : task.handling = some (p, .pure keepAlive)) :
      Step st (st.leave j task (decide (keepAlive = .no)))
  /-- An exception leaves the handler and closes the session. -/
  | fail (j : ℕ) (task : Task S) (p : Packet) (e : Storage.Halt) (htask : st.tasks[j]? = some task)
      (hhandling : task.handling = some (p, .throw e)) : Step st (st.leave j task true)
  | deliver (packet : Packet) (rest : List Packet) (r : Master.Request) (hterms : terms.packet r)
      (hpartAcks : st.partAcks.Perm (packet :: rest)) (harrival : arrival packet = some r.packet) :
      Step st { st with master := Master.handle st.master r, partAcks := rest }
  | consume (j : ℕ) (task : Task S) (ack answered p last : Packet) (rest : List (Packet × Packet))
      (htask : st.tasks[j]? = some task) (hwaiting : task.waiting = true)
      (hlast : task.sent = some last) (hack : task.toClient = (ack, answered) :: rest)
      (haccepted : (recvAck (blockingSend ack)).1 = .accepted p) :
      Step st { st with
        consumed := (last, answered) :: st.consumed
        tasks := st.tasks.set j { task with
          waiting := false
          i := task.i + 1
          toClient := rest } }
  | refuse (j : ℕ) (task : Task S) (ack answered p : Packet) (rest : List (Packet × Packet))
      (htask : st.tasks[j]? = some task) (hwaiting : task.waiting = true)
      (hack : task.toClient = (ack, answered) :: rest)
      (hthrew : (recvAck (blockingSend ack)).1 = .threw p) :
      Step st { st with tasks := st.tasks.set j { task with
        waiting := false
        threw := true
        toClient := rest } }
  /-- A read that fails on a closed session is only logged. -/
  | lose (j : ℕ) (task : Task S) (htask : st.tasks[j]? = some task) (hwaiting : task.waiting = true)
      (hclosed : task.toClient = [] ∧ task.closed = true) :
      Step st { st with tasks := st.tasks.set j { task with
        waiting := false
        i := task.i + 1 } }

def Reachable (directory : S → Storage.Directory) : State V S → Prop :=
  Relation.ReflTransGen (Step hashBufferHex setup terms) (.start directory)

end Steps

/-- The record of the file with this number lists the part at the storage. -/
def Recorded {V : Type} [DB.Coding V] (w : DB.World V) (partid : PartId) (stid : StidType) :
    Prop :=
  ∃ mof fname fi part, (w.database.lookup DB.filesKey).bind DB.Coding.files? = some mof ∧
    mof.nameById.lookup partid.fid = some fname ∧
    (w.database.lookup (DB.fileKey fname)).bind DB.Coding.file? = some fi ∧
    part ∈ fi.parts ∧ part.numGet = partid.partnum ∧ stid ∈ part.locations

/-- What is true whenever a storage has acknowledged a part. -/
structure Kept {V S : Type} [DB.Coding V] (setup : S → Storage.Setup) (st : State V S) : Prop where
  /-- The storage holds the payload whose hash it checked. -/
  held : ∀ s p, (s, p) ∈ st.acked → ∃ part data, Storage.readUpAct p = some (part, data) ∧
    Files.hashBufferHex (setup s).sha1 data (UInt64.ofNat data.length) = some part.sha1 ∧
    (st.directory s).lookup (Storage.uploadPath (setup s) part.partid) = some data
  /-- The master is being told where the part is, or has it in the record of the file. -/
  told : ∀ s p, (s, p) ∈ st.acked → ∃ part data, Storage.readUpAct p = some (part, data) ∧
    (Storage.partAckPacket (setup s).id part.partid 10 ∈ st.partAcks ∨
      Recorded st.master part.partid (setup s).id)
  /-- A client that consumes a success has it for what it sent last. -/
  answers : ∀ last answered, (last, answered) ∈ st.consumed → arrival last = some answered

end Mp2p.System
