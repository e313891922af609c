import Mp2p.Proof.Statics
import Mp2p.Proof.StorageRequests

/-!
# Staying inside a packet and returning from it

Whatever database a master starts over and whatever it handled before, the static variables stay
valid, so how the next packet ends is settled by its kind. The dispatcher checks no length but zero
and catches no exception, and neither do most handlers: both servers can be made to read outside a
packet, and both can be stopped by a packet that is well formed.
-/

namespace Mp2p.Master

open Masks Network DB DB.Tools

/-! ### The static variables of a run -/

section Runs

variable {w : World Record}

theorem valid_of_resets {w' : World Record} (h : Resets w w') (hvalid : Statics.Valid w.statics) :
    Statics.Valid w'.statics := by
  obtain heq | hreset := h
  · rw [heq]
    exact hvalid
  · intro hinit
    rw [hreset] at hinit
    cases hinit

theorem valid_handle (hvalid : Statics.Valid w.statics) (r : Request) :
    Statics.Valid (handle w r).statics := by
  by_cases hkind : kindOf r.packet = .upReq
  · rw [handle, recvDispatcher_eq, hkind]
    obtain hresets | ⟨fileSize, hresets⟩ := @resets_cmUpReq w r
    · exact valid_of_resets hresets hvalid
    · exact valid_of_resets hresets (valid_getStpfieldsForUpload _ _ _ hvalid)
  · exact valid_of_resets (resets_handle hkind) hvalid

theorem valid_handleAll (hvalid : Statics.Valid w.statics) (requests : List Request) :
    Statics.Valid (handleAll w requests).statics := by
  induction requests generalizing w with
  | nil => exact hvalid
  | cons r requests ih => exact ih (valid_handle hvalid r)

def World.over (database : Database Record) : World Record :=
  { database, statics := ⟨false, 0, []⟩, sent := [] }

/-- What a master over this database has become after these requests. -/
def after (database : Database Record) (requests : List Request) : World Record :=
  handleAll (World.over database) requests

theorem valid_after (database : Database Record) (requests : List Request) :
    Statics.Valid (after database requests).statics :=
  valid_handleAll (w := World.over database) nofun requests

end Runs

def arriving (packet : Packet) : Request := ⟨received packet.header packet.payload, anyHost, 1⟩

end Mp2p.Master

namespace Mp2p

open Masks Network

section Deliveries

variable (database : DB.Database DB.Record) (before : List Master.Request) {r : Master.Request}
  (s : Storage.Setup) (w : Storage.World) {q : Storage.Request}

/-- **No packet is read outside.** A request makes no server read outside its packet, wrap a length,
take the first of no pieces or answer to no direction exactly when it is safe for its kind. -/
theorem reads_inside_iff (hmaster : Delivered r.packet) (hstorage : Delivered q.packet) :
    ((∀ fuel, ((Master.recvDispatcher { r with fuel }).run DB.exec
        (Master.after database before)).1 ≠ .error .fault) ↔
      Master.SafeFor (Master.after database before) r (Master.kindOf r.packet)) ∧
    (((Storage.recvDispatcher s q).run Storage.exec w).1 ≠ .error .fault ↔
      Storage.SafeFor s w q (Storage.kindOf q.packet)) := by
  have hvalid := Master.valid_after database before
  constructor
  · exact (Master.settled_recvDispatcher hvalid hmaster).forall_ne_iff Master.fault_ne_stuck
  · exact (Storage.outcome_recvDispatcher hstorage).ne_iff

/-- **Requests are answered.** A request is handled to the end, with enough fuel, exactly when it is
served for its kind: anything else throws out of the dispatcher, is undefined or never ends. -/
theorem dispatchers_return_iff (hmaster : Delivered r.packet) (hstorage : Delivered q.packet) :
    (Fuel.Returns (fun fuel => (Master.recvDispatcher { r with fuel }).run DB.exec
        (Master.after database before)) ↔
      Master.ServedFor (Master.after database before) r (Master.kindOf r.packet)) ∧
    ((∃ k, ((Storage.recvDispatcher s q).run Storage.exec w).1 = .ok k) ↔
      Storage.ServedFor s w q (Storage.kindOf q.packet)) := by
  have hvalid := Master.valid_after database before
  constructor
  · exact (Master.settled_recvDispatcher hvalid hmaster).returns_iff
  · exact (Storage.outcome_recvDispatcher hstorage).ok_iff

end Deliveries

def registering : Master.Request := DB.Tools.registration 4242 1000

def uploading : Storage.Request :=
  Storage.delivering (Client.upActPacket 1 0 Storage.abcHash [97, 98, 99])

theorem reads_inside_regular :
    ((Master.recvDispatcher registering).run DB.exec
      (Master.after DB.World.initial.database [])).1 ≠ .error .fault ∧
    ((Storage.recvDispatcher Storage.abcStorage uploading).run Storage.exec ⟨∅, []⟩).1 ≠
      .error .fault := by
  obtain ⟨hmaster, hstorage⟩ := reads_inside_iff DB.World.initial.database [] Storage.abcStorage
    ⟨∅, []⟩ (r := registering) (q := uploading) rfl rfl
  refine ⟨hmaster.mpr ?_ 0, hstorage.mpr ?_⟩
  · intro mos _ _
    decide
  · exact ⟨by decide, fun _ => by decide⟩

theorem returns_regular :
    (Fuel.Returns fun fuel => (Master.recvDispatcher { registering with fuel }).run DB.exec
      (Master.after DB.World.initial.database [])) ∧
    ∃ k, ((Storage.recvDispatcher Storage.abcStorage uploading).run Storage.exec ⟨∅, []⟩).1 =
      .ok k := by
  obtain ⟨hmaster, hstorage⟩ := dispatchers_return_iff DB.World.initial.database []
    Storage.abcStorage ⟨∅, []⟩ (r := registering) (q := uploading) rfl rfl
  refine ⟨hmaster.mpr ?_, hstorage.mpr ?_⟩
  · exact ⟨by decide, rfl, ⟨0, 0⟩, rfl⟩
  · exact ⟨rfl, _, _, rfl, fun _ => rfl⟩

def shortUpReq : Packet := Packet.ofMessage CM.fromto CM.upReqW (.ofSize 1)

def shortUpAct : Packet := Packet.ofMessage CS.fromto CS.upActW (.ofSize 1)

def undirected : Packet := Packet.ofType 6 0

/-- Three packets that were delivered make a server read outside them or fail an assertion. -/
theorem reads_outside :
    (Delivered (Master.arriving shortUpReq).packet ∧
      ((Master.recvDispatcher (Master.arriving shortUpReq)).run DB.exec .initial).1 =
        .error .fault) ∧
    (Delivered (Master.arriving undirected).packet ∧
      ((Master.recvDispatcher (Master.arriving undirected)).run DB.exec .initial).1 =
        .error .fault) ∧
    Delivered (Storage.delivering shortUpAct).packet ∧
      ((Storage.recvDispatcher Storage.abcStorage (Storage.delivering shortUpAct)).run Storage.exec
        ⟨∅, []⟩).1 = .error .fault :=
  ⟨⟨rfl, rfl⟩, ⟨rfl, rfl⟩, rfl, rfl⟩

def unknownPartAck : Packet := Storage.partAckPacket 0 ⟨0, 0⟩ 0

def unknownDownAct : Packet := Client.downActPacket ⟨0, 0⟩

/-- Both packets hold what their messages hold, and both make the server throw. -/
theorem throws_unknown :
    (Delivered (Master.arriving unknownPartAck).packet ∧
      unknownPartAck.sizeGet.toNat = sizeof SM.PartAck ∧
      ∀ fuel, ((Master.recvDispatcher { Master.arriving unknownPartAck with fuel }).run DB.exec
        .initial).1 = .error .exception) ∧
    Delivered (Storage.delivering unknownDownAct).packet ∧
      unknownDownAct.sizeGet.toNat = sizeof CS.DownAct ∧
      ((Storage.recvDispatcher Storage.abcStorage (Storage.delivering unknownDownAct)).run
        Storage.exec ⟨∅, []⟩).1 = .error .exception :=
  ⟨⟨rfl, rfl, fun _ => rfl⟩, rfl, rfl, rfl⟩

end Mp2p
