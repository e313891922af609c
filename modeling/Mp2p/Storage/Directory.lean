import Mathlib.Data.List.AList
import Mp2p.Lib.Decimal
import Mp2p.Lib.Program
import Mp2p.Network.Session

/-!
# The directory and the commands of a handler

A handler of a storage is a program over the files of the storage directory and two sessions, the
one the packet came on and the one to the master. What the outside decides for one packet is the
environment of the packet.
-/

namespace Mp2p.Storage

open Masks Network

/-- What is fixed while a storage runs: its id, its configuration and the SHA-1 of its library. -/
structure Setup where
  id : StidType
  storagePath : Bytes
  sha1 : Bytes → Sha1Type

structure Env where
  remoteAddress : Option Bytes
  masterReachable : Bool
  /-- What a file holds after this was written to it, none when it cannot be opened. -/
  written : Bytes → Bytes → Option Bytes
  /-- Whether so many bytes of a file can be mapped. -/
  mappable : UInt32 → Bool
  /-- What the peer of the session sends behind the packet. -/
  stream : Bytes

abbrev Directory := AList fun _ : Bytes => Bytes

inductive Peer where
  | client
  | master
  deriving DecidableEq, Repr

inductive Command where
  | read (path : Bytes)
  | write (path data : Bytes)
  | send (peer : Peer) (packet : Packet)

def Command.Answer : Command → Type
  | .read _ => Option Bytes
  | .write _ _ => Unit
  | .send _ _ => Unit

inductive Halt where
  /-- An exception leaves the handler. -/
  | exception
  /-- A read outside the message, or an assertion that fails. -/
  | fault
  /-- A read behind the end of a mapped file. -/
  | overrun
  deriving DecidableEq, Repr

abbrev Handler := Program Command Command.Answer Halt

def send (peer : Peer) (packet : Packet) : Handler Unit := .perform (Command.send peer packet)

/-- An `ofstream` and one `write`; that the file cannot be opened or written goes unnoticed. -/
def writeFile (env : Env) (path data : Bytes) : Handler Unit :=
  match env.written path data with
  | none => pure ()
  | some contents => .perform (Command.write path contents)

def createSession (env : Env) : Handler Unit :=
  if env.masterReachable then pure () else .throw .exception

/-- `File(filepath)`: what is mapped, and the size of the file. The length of the mapping is
`unsigned`. -/
def openFile (env : Env) (path : Bytes) : Handler (Bytes × UInt64) := do
  let contents ← .perform (Command.read path)
  let contents ← .ofOption .exception contents
  let size := UInt64.ofNat contents.length
  if env.mappable size.toUInt32 then pure (contents.take size.toUInt32.toNat, size)
  else .throw .exception

structure World where
  directory : Directory
  sent : List (Peer × Packet)

def exec : (command : Command) → World → command.Answer × World
  | .read path, w => (w.directory.lookup path, w)
  | .write path data, w => ((), { w with directory := w.directory.insert path data })
  | .send peer packet, w => ((), { w with sent := w.sent ++ [(peer, packet)] })

end Mp2p.Storage
