import Mp2p.Proof.StorageRequests

/-!
# Acknowledged and stored

Nobody looks at the stream a part is written to: whether the file could be opened, how much of the
part got into it and whether the rest did when it was closed, both acknowledgements are sent in
between. A part is acknowledged only if it is stored exactly when all of it gets to the file.
-/

namespace Mp2p.Storage

open Masks Network Files

def answers (s : Setup) (w : World) (r : Request) : List (Peer × Packet) :=
  (handle s w r).sent.drop w.sent.length

/-- The master is told that the storage has a part, or the client that the part has been stored. -/
def Acknowledges (s : Setup) (w : World) (r : Request) : Prop :=
  (∃ partid avspace, (Peer.master, partAckPacket s.id partid avspace) ∈ answers s w r) ∨
    (Peer.client, ackPacket SC.fromto .success) ∈ answers s w r

/-- A part is acknowledged only if its file has its payload, and refused if it is not. -/
structure AcksStored (s : Setup) (w : World) (r : Request) : Prop where
  stored : Acknowledges s w r → ∃ part data, readUpAct r.packet = some (part, data) ∧
    (handle s w r).directory.lookup (uploadPath s part.partid) = some data
  refused : ¬Acknowledges s w r → ∃ code, code ≠ .success ∧
    answers s w r = [(Peer.client, ackPacket SC.fromto code)]

section Upload

variable {s : Setup} {w : World} {r : Request} {part : CS.UpAct} {data : Bytes}

theorem not_acknowledges_of_nil (h : answers s w r = []) : ¬Acknowledges s w r := by
  rintro (⟨partid, avspace, hmem⟩ | hmem)
  · rw [h] at hmem
    cases hmem
  · rw [h] at hmem
    cases hmem

/-- A packet that is not answered at all is neither acknowledged nor refused. -/
theorem not_acksStored_of_nil (h : answers s w r = []) : ¬AcksStored s w r := by
  intro hacks
  obtain ⟨code, -, hsent⟩ := hacks.refused (not_acknowledges_of_nil h)
  rw [h] at hsent
  cases hsent

theorem answers_of_eq {sent : List (Peer × Packet)}
    (h : (handle s w r).sent = w.sent ++ sent) : answers s w r = sent := by
  rw [answers, h, List.drop_left]

/-- A refusal is an answer of its own. -/
theorem acksStored_of_refused {code : ErrorCode} (hcode : code ≠ .success)
    (h : answers s w r = [(Peer.client, ackPacket SC.fromto code)]) : AcksStored s w r := by
  have hnot : ¬Acknowledges s w r := by
    rintro (⟨partid, avspace, hmem⟩ | hmem)
    · rw [h, List.mem_singleton] at hmem
      cases congrArg Prod.fst hmem
    · rw [h, List.mem_singleton] at hmem
      have hack : ackPacket SC.fromto .success = ackPacket SC.fromto code := congrArg Prod.snd hmem
      cases code with
      | success => exact hcode rfl
      | _ => exact absurd (congrArg Packet.payload hack) (by decide)
  exact ⟨fun hacks => absurd hacks hnot, fun _ => ⟨code, hcode, h⟩⟩

theorem recvDispatcher_of_upAct (hkind : kindOf r.packet = .upAct) :
    recvDispatcher s r = csUpAct s r := by
  rw [kindOf] at hkind
  split_ifs at hkind with hsize hack hup
  rw [recvDispatcher, if_neg hsize, if_neg hack, if_pos hup]

theorem fromto_of_upAct (hkind : kindOf r.packet = .upAct) : r.packet.fromtoGet = CS.fromto := by
  rw [kindOf] at hkind
  split_ifs at hkind with _ _ hup
  exact hup.1

theorem uploads_of_kind (hkind : kindOf r.packet = .upAct)
    (hread : readUpAct r.packet = some (part, data)) : Uploads r part data := by
  rw [kindOf] at hkind
  split_ifs at hkind with _ _ hup
  exact ⟨hup.1, hup.2, hread⟩

/-- What lies under a path after a write: what the outcome of the write says, or what was there. -/
theorem lookup_saving (env : Env) (path data : Bytes) :
    (saving w env path data).directory.lookup path =
      (env.written path data).or (w.directory.lookup path) := by
  rw [saving]
  cases env.written path data with
  | none => exact Option.none_or.symm
  | some contents => exact AList.lookup_insert _

/-- A part that passes the check is acknowledged whether or not it is stored. -/
theorem acksStored_of_checks (hdelivered : Delivered r.packet) (h : Uploads r part data)
    (haddress : r.env.remoteAddress.isSome) (hchecks : Checks s part data) :
    AcksStored s w r ↔ r.env.masterReachable = true ∧
      (r.env.written (uploadPath s part.partid) data).or
        (w.directory.lookup (uploadPath s part.partid)) = some data := by
  have hhandle : handle s w r = ((storePart s r part.partid data).run exec w).2 := by
    rw [handle_of_uploads hdelivered h, if_pos haddress, if_pos hchecks]
  rw [run_storePart h.fromto] at hhandle
  by_cases hmaster : r.env.masterReachable = true
  · rw [if_pos hmaster] at hhandle
    have hsent : answers s w r = storedAcks s part.partid := by
      apply answers_of_eq
      rw [hhandle]
      exact congrArg (· ++ _) (sent_saving w r.env _ _)
    have hacks : Acknowledges s w r := by
      refine .inr ?_
      rw [hsent]
      exact .tail _ (.head _)
    have hlookup : (handle s w r).directory.lookup (uploadPath s part.partid) =
        (r.env.written (uploadPath s part.partid) data).or
          (w.directory.lookup (uploadPath s part.partid)) := by
      rw [hhandle, ← lookup_saving]
      rfl
    rw [← hlookup, and_iff_right hmaster]
    constructor
    · intro hstored
      obtain ⟨part', data', hread, hheld⟩ := hstored.stored hacks
      rw [h.read] at hread
      cases hread
      exact hheld
    · intro hheld
      exact ⟨fun _ => ⟨part, data, h.read, hheld⟩, fun hnot => absurd hacks hnot⟩
  · rw [if_neg hmaster] at hhandle
    apply iff_of_false _ fun hboth => hmaster hboth.1
    apply not_acksStored_of_nil
    apply answers_of_eq
    rw [hhandle, List.append_nil]
    exact sent_saving w r.env _ _

/-- **Acknowledged once stored.** Whatever the file operations come to, a part is acknowledged only if
its file has exactly its payload, and refused otherwise, exactly when the packet has a part and its
sender an address, and the part either fails the check of its hash, or the master can be told and the
file ends up with all of it. -/
theorem acksStored_iff (hdelivered : Delivered r.packet) (hkind : kindOf r.packet = .upAct) :
    AcksStored s w r ↔ ∃ part data, readUpAct r.packet = some (part, data) ∧
      r.env.remoteAddress.isSome ∧ (Checks s part data → r.env.masterReachable = true ∧
        (r.env.written (uploadPath s part.partid) data).or
          (w.directory.lookup (uploadPath s part.partid)) = some data) := by
  cases hread : readUpAct r.packet with
  | none =>
      apply iff_of_false
      · apply not_acksStored_of_nil
        apply answers_of_eq
        rw [handle, recvDispatcher_of_upAct hkind,
          run_csUpAct hdelivered (fromto_of_upAct hkind), List.append_nil]
        cases readPartId r.packet with
        | none => rfl
        | some partid =>
            dsimp only
            cases r.env.remoteAddress with
            | none => rfl
            | some address =>
                dsimp only
                rw [hread]
      · rintro ⟨part, data, hsome, -⟩
        cases hsome
  | some upload =>
      obtain ⟨part, data⟩ := upload
      have hupload := uploads_of_kind hkind hread
      have hhandle := @handle_of_uploads s w r part data hdelivered hupload
      by_cases haddress : r.env.remoteAddress.isSome
      · by_cases hchecks : Checks s part data
        · rw [acksStored_of_checks hdelivered hupload haddress hchecks]
          constructor
          · intro hstored
            exact ⟨part, data, rfl, haddress, fun _ => hstored⟩
          · rintro ⟨part', data', heq, -, hstored⟩
            cases heq
            exact hstored hchecks
        · rw [if_pos haddress, if_neg hchecks] at hhandle
          apply iff_of_true
          · apply acksStored_of_refused (show ErrorCode.hashFailed ≠ .success by decide)
            apply answers_of_eq
            rw [hhandle]
            rfl
          · exact ⟨part, data, rfl, haddress, fun hpassed => absurd hpassed hchecks⟩
      · rw [if_neg haddress] at hhandle
        apply iff_of_false
        · apply not_acksStored_of_nil
          apply answers_of_eq
          rw [hhandle, List.append_nil]
        · rintro ⟨-, -, -, hsome, -⟩
          exact haddress hsome

end Upload

def fullDisk : Env := { steady with written := fun _ _ => none }

def abcUpload (env : Env) : Request :=
  { delivering (Client.upActPacket 1 0 abcHash [97, 98, 99]) with env }

theorem acksStored_steady : AcksStored abcStorage ⟨∅, []⟩ (abcUpload steady) := by
  have hdelivered : Delivered (abcUpload steady).packet := rfl
  apply (acksStored_iff hdelivered rfl).mpr
  exact ⟨_, _, rfl, rfl, fun _ => ⟨rfl, rfl⟩⟩

/-- The part is acknowledged to both, and there is no file. -/
theorem not_acksStored_fullDisk :
    ¬∀ (s : Setup) (w : World) (r : Request), Delivered r.packet → kindOf r.packet = .upAct →
      AcksStored s w r := by
  intro h
  have hdelivered : Delivered (abcUpload fullDisk).packet := rfl
  have hacks := h abcStorage ⟨∅, []⟩ (abcUpload fullDisk) hdelivered rfl
  obtain ⟨part, data, hread, -, hstored⟩ := (acksStored_iff hdelivered rfl).mp hacks
  have hpart : readUpAct (abcUpload fullDisk).packet =
    some (⟨⟨1, 0⟩, abcHash⟩, [97, 98, 99]) := rfl
  rw [hpart] at hread
  cases hread
  have hchecks : Checks abcStorage ⟨⟨1, 0⟩, abcHash⟩ [97, 98, 99] := by
    decide +kernel
  cases (hstored hchecks).2

end Mp2p.Storage
