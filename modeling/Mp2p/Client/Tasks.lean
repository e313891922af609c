import Mp2p.Lib.ForkJoin
import Mp2p.Network.Session

/-!
# Calls of the client and their tasks

`request_upload` and `request_download` ask the master, start a task for every field of its answer,
watch the progress of the tasks and join them. The tasks are futures nobody reads, so an exception
ends a task and nothing else.
-/

namespace Mp2p.Client

open Masks Network

/-- The bytes a peer delivers on a session before it closes it, given those it gets; none when it
refuses the connection. -/
abbrev Peer := Option (Bytes → Bytes)

inductive Action (Part : Type) where
  | did (part : Part)
  /-- `++progress_` -/
  | progressed
  deriving DecidableEq, Repr

def Action.counts {Part : Type} : Action Part → Bool
  | did _ => false
  | progressed => true

inductive Call (Part : Type) where
  | returned
  | threw
  | fault
  /-- The limit `progress_while` waits for, and whether what follows the join comes to its end. -/
  | spawned {n : ℕ} (tasks : Fin n → Course (Action Part)) (limit : ℕ) (finishes : Bool)

def progressStart : ℕ := 1

/-- The tasks of a call and the thread that called, in any order. -/
def Runs {Part : Type} {n : ℕ} (tasks : Fin n → Course (Action Part)) (limit : ℕ) :
    ForkJoin.State (Fin n) (Action Part) → Prop :=
  ForkJoin.Reachable Action.counts progressStart limit (ForkJoin.start tasks)

inductive Ending where
  | normal
  | threw
  deriving DecidableEq, Repr

inductive Call.Ends {Part : Type} : Call Part → Ending → List (Action Part) → Prop where
  | returned : Ends .returned .normal []
  | threw : Ends .threw .threw []
  | joined {n : ℕ} {tasks : Fin n → Course (Action Part)} {limit : ℕ}
      {s : ForkJoin.State (Fin n) (Action Part)} (hruns : Runs tasks limit s)
      (hphase : s.phase = .returned) : Ends (.spawned tasks limit true) .normal s.log

inductive Call.Logs {Part : Type} : Call Part → List (Action Part) → Prop where
  | spawned {n : ℕ} {tasks : Fin n → Course (Action Part)} {limit : ℕ} {finishes : Bool}
      {s : ForkJoin.State (Fin n) (Action Part)} (hruns : Runs tasks limit s) :
      Logs (.spawned tasks limit finishes) s.log

def processError {Part : Type} (p : Packet) : Call Part :=
  match readAck p with
  | none => .fault
  | some _ => .threw

/-- A request to the master and the callback for its answer. The call returns like the callback, and
normally when no whole packet came. -/
def askMaster {Part : Type} (master : Peer) (request : Packet) (callback : Packet → Call Part) :
    Call Part :=
  match master with
  | none => .threw
  | some deliver =>
      (blockingReceive (fun _ p => (callback p, .no)) .returned (deliver (blockingSend request))).1

def answerOf (peer : Peer) (request : Packet) : Option Packet :=
  peer.bind fun deliver => (receivePacket (deliver (blockingSend request))).map Prod.fst

theorem askMaster_some {Part : Type} (deliver : Bytes → Bytes) (request : Packet)
    (callback : Packet → Call Part) :
    askMaster (some deliver) request callback = match answerOf (some deliver) request with
      | none => .returned
      | some p => callback p :=
  blockingReceive_once ..

end Mp2p.Client
