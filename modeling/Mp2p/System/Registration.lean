import Mp2p.System.Uploads

/-!
# Storages that register

A storage goes by the number in its id file. Without the file it asks the master for a number, which
it writes there for the next start. The master, which handles one packet at a time, may be started
again like the storages, and a connection may break before the answer has come.
-/

namespace Mp2p.Storage

open Masks

def IsSpace (byte : UInt8) : Prop := byte = 0x20 ∨ (0x09 ≤ byte ∧ byte ≤ 0x0d)

instance : DecidablePred IsSpace := fun byte => by
  unfold IsSpace
  infer_instance

/-- Whether a number is negative, and the rest of it. -/
def readSign : Bytes → Bool × Bytes
  | 0x2b :: rest => (false, rest)
  | 0x2d :: rest => (true, rest)
  | contents => (false, contents)

/-- `id_file >> id`, where the id is 0 before. What is no number leaves 0, and a number that does
not fit the largest value of the type. -/
def readId (contents : Bytes) : StidType :=
  let (negative, numeral) := readSign (contents.dropWhile IsSpace)
  let n := Decimal.value (numeral.takeWhile Decimal.IsDigit)
  if n < 2 ^ 32 then (if negative then -UInt32.ofNat n else UInt32.ofNat n)
  else UInt32.ofNat (2 ^ 32 - 1)

/-- What is in the id file after `id_file << response->stid`, where there was none: it cannot be
opened, nothing gets into it, or the number does. -/
def Wrote (stid : StidType) (file : Option Bytes) : Prop :=
  file = none ∨ file = some [] ∨ file = some (Decimal.digits stid.toNat)

end Mp2p.Storage

namespace Mp2p.System.Registration

open Masks Network

inductive Phase where
  | stopped
  /-- In `blocking_receive` on this session with the master. -/
  | waiting (session : ℕ)
  | running (id : StidType)
  deriving DecidableEq, Repr

structure Process where
  idFile : Option Bytes
  phase : Phase
  deriving DecidableEq, Repr

structure State (S : Type) where
  master : DB.World DB.Record
  processes : S → Process
  /-- The number of sessions that were opened. -/
  sessions : ℕ
  /-- The requests on their way, each with its session and the storage at its other end. -/
  requests : List (ℕ × S × Packet)
  answers : List (ℕ × S × Packet)

def State.start {S : Type} : State S :=
  { master := .initial, processes := fun _ => ⟨none, .stopped⟩, sessions := 0, requests := [],
    answers := [] }

section Steps

variable {S : Type} [DecidableEq S]

def State.setProcess (st : State S) (s : S) (process : Process) : State S :=
  { st with processes := Function.update st.processes s process }

def State.setPhase (st : State S) (s : S) (phase : Phase) : State S :=
  st.setProcess s { st.processes s with phase }

/-- What the master sent last answers the packet of this session. -/
def State.answered (st : State S) (session : ℕ) (s : S) (r : Master.Request) : State S :=
  let master := Master.handle st.master r
  { st with
    master
    answers := st.answers ++
      (master.sent.drop st.master.sent.length).map fun packet => (session, s, packet) }

variable (host : S → Bytes) (port : S → PortType)

inductive Step (st : State S) : State S → Prop where
  /-- `init_id` finds an id file. -/
  | resume (s : S) (contents : Bytes) (hstopped : (st.processes s).phase = .stopped)
      (hfile : (st.processes s).idFile = some contents) :
      Step st (st.setPhase s (.running (Storage.readId contents)))
  /-- `init_id` finds none and asks the master. -/
  | ask (s : S) (avspace : AvspaceType) (hstopped : (st.processes s).phase = .stopped)
      (hfile : (st.processes s).idFile = none) :
      Step st { st.setPhase s (.waiting st.sessions) with
        sessions := st.sessions + 1
        requests := st.requests ++
          [(st.sessions, s, Storage.idReqPacket (port s) avspace)] }
  /-- The master handles the request, whose address it may no longer find out. -/
  | answer (session : ℕ) (s : S) (packet : Packet) (requests : List (ℕ × S × Packet))
      (r : Master.Request) (hrequests : st.requests.Perm ((session, s, packet) :: requests))
      (harrival : arrival packet = some r.packet)
      (haddress : ∀ address, r.env.remoteAddress = some address → address = host s) :
      Step st { st.answered session s r with requests }
  /-- The master handles a packet of anybody else, or is started again. -/
  | other (event : Master.Event) : Step st { st with master := event.apply st.master }
  | receive (session : ℕ) (s : S) (packet p : Packet) (info : MS.FidInfo) (file : Option Bytes)
      (answers : List (ℕ × S × Packet)) (hwaiting : (st.processes s).phase = .waiting session)
      (hanswers : st.answers.Perm ((session, s, packet) :: answers))
      (harrival : arrival packet = some p) (hread : Storage.readFidInfo p = some info)
      (hfile : Storage.Wrote info.stid file) :
      Step st { st.setProcess s ⟨file, .running info.stid⟩ with answers }
  /-- The connection breaks, which `blocking_receive` only logs: the id stays 0. -/
  | giveUp (session : ℕ) (s : S) (hwaiting : (st.processes s).phase = .waiting session) :
      Step st (st.setPhase s (.running 0))
  | stop (s : S) : Step st (st.setPhase s .stopped)

def Reachable : State S → Prop := Relation.ReflTransGen (Step host port) .start

end Steps

/-- The storage goes by this id: it stands in its file, or the storage runs with it. With 0 runs
also a storage that was given no id. -/
def GoesBy {S : Type} (st : State S) (s : S) (id : StidType) : Prop :=
  (∃ contents, contents ≠ [] ∧ (st.processes s).idFile = some contents ∧
    Storage.readId contents = id) ∨
  ((st.processes s).phase = .running id ∧ id ≠ 0)

end Mp2p.System.Registration
