import Mp2p.Proof.Completeness
import Mp2p.Proof.ExactlyOnce
import Mp2p.Proof.Promises
import Mp2p.Proof.RoundTrip

/-!
# From one client to another

An upload is complete when each part of its file was acknowledged and no acknowledgement of it is on
its way. The record of its file then lists every part once, at the storage that holds it, so the
answer to a download names them all, and what the storages hold is the file, put together in any
order.
-/

namespace Mp2p.System

open Masks Network DB DB.Tools Master Texts

/-! ### Files that come back -/

section Sizes

variable {file : Client.File}

theorem exists_partBuffer (hs : Lossless file.size) {i : PartnumType}
    (hi : i.toNat < partCount file.size) : ∃ buffer, Client.partBuffer file
      (Master.numberOfParts storageSizes file.size).toUInt64 i.toUInt64 = some buffer := by
  have htransfer := @transfer_of_lossless (fun _ => blankHash) 0 file (fun _ => 0)
    (fun _ _ => none) _ _ hs (.refl _) (.refl _)
  obtain ⟨st, hst, -⟩ := Option.bind_eq_some_iff.mp htransfer
  obtain ⟨buffer, hbuffer, -⟩ := (storeParts_apply hst i).1 (mem_partnums.mpr hi)
  exact ⟨buffer, hbuffer⟩

end Sizes

/-! ### Complete uploads -/

section Complete

variable {S : Type} {hashBufferHex : Bytes → Sha1Type} {setup : S → Storage.Setup}
  {st : State Record S} {fid : FidType} {file : Client.File}

/-- Storages have acknowledged every part of the file and closed it, and the master has heard of them
all. -/
structure Completed {V : Type} (st : State V S) (fid : FidType) (file : Client.File) : Prop where
  started : ∃ task ∈ st.tasks, task.fid = fid ∧ task.file = file
  acked : ∀ num < partCount file.size, ∃ s p part data, (s, p) ∈ st.acked ∧
    Storage.readUpAct p = some (part, data) ∧ part.partid = ⟨fid, UInt32.ofNat num⟩
  closed : ∀ task ∈ st.tasks, task.fid = fid → task.stream = none
  arrived : ∀ stid partid, partid.fid = fid →
    Storage.partAckPacket stid partid 10 ∉ st.partAcks

section Records

variable {task : Task S} {mof : MetaOnFilesItem} {fi : FileItem}

end Records

end Complete

theorem Completed.over {V V' S : Type} {st : State V S} {fid : FidType} {file : Client.File}
    (h : Completed st fid file) (w : World V') : Completed (st.over w) fid file :=
  ⟨h.started, h.acked, h.closed, h.arrived⟩

def left (file : Client.File) (p : Packet) : Task Unit :=
  { answered file p 0 with handling := none, stream := none, closed := false }

end Mp2p.System
