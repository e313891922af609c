import Mathlib.Order.Interval.Finset.Nat
import Mathlib.Data.Nat.Count
import Mp2p.Client.Upload

/-!
# When an upload tells the truth

A task gets through its range part by part: a success acknowledgement and a session that was closed
both count as progress, an error acknowledgement ends it. Progress starts at one and the futures are
dropped, so the call returns as soon as all parts but one are counted, whatever became of that one.
-/

namespace Mp2p.Client

open Masks Network

/-! ### What a storage delivers -/

/-- The packet that answers the `k`-th part sent on a session, none once the session is closed. -/
def answerAt : Bytes → ℕ → Option Packet
  | stream, 0 => (receivePacket stream).map Prod.fst
  | stream, k + 1 => (receivePacket stream).bind fun r => answerAt r.2 k

/-- `recv_ack` returns: the answer is lost or starts with the code of a success. -/
def Passes (answer : Option Packet) : Prop :=
  ∀ p ∈ answer, readAck p = some ErrorCode.success.toUInt8

instance (answer : Option Packet) : Decidable (Passes answer) :=
  inferInstanceAs (Decidable (∀ p ∈ answer, readAck p = some ErrorCode.success.toUInt8))

/-- The success acknowledgement of a storage. -/
def IsSuccessAck (p : Packet) : Prop :=
  p.whatGet = ackW ∧ readAck p = some ErrorCode.success.toUInt8

theorem answerAt_of_closed {stream : Bytes} (h : receivePacket stream = none) (k : ℕ) :
    answerAt stream k = none := by
  cases k with
  | zero => rw [answerAt, h, Option.map_none]
  | succ k => rw [answerAt, h, Option.bind_none]

theorem recvAck_spec (stream : Bytes) :
    (recvAck stream).1 = (match answerAt stream 0 with
      | none => .lost
      | some p => match readAck p with
        | none => .fault
        | some ackCode =>
            if ackCode ≠ ErrorCode.success.toUInt8 then .threw p else .accepted p) ∧
    ∀ k, answerAt (recvAck stream).2 k = answerAt stream (k + 1) := by
  refine ⟨recvAck_eq stream, fun k => ?_⟩
  cases hreceived : receivePacket stream with
  | none =>
      rw [recvAck, blockingReceive_closed hreceived, answerAt_of_closed hreceived,
        answerAt_of_closed hreceived]
  | some r =>
      have hrest : (recvAck stream).2 = r.2 := by
        rw [recvAck, blockingReceive_no hreceived]
        cases readAck r.1 with
        | none => rfl
        | some ackCode =>
            dsimp only
            split_ifs
            · rfl
            · rfl
      rw [hrest, answerAt, hreceived, Option.bind_some]

/-! ### One task -/

def Unsendable (file : File) (totalParts i : ℕ) : Prop :=
  (UInt64.ofNat totalParts).toUInt32 = 0 ∨
    partBuffer file (UInt64.ofNat totalParts) (UInt64.ofNat i) = none

/-- Part `i` faults on its way out, or its answer, an empty packet, faults on its way in. -/
def FaultsAt (file : File) (totalParts i : ℕ) (answer : Option Packet) : Prop :=
  Unsendable file totalParts i ∨ ∃ p ∈ answer, readAck p = none

section Task

variable {hashBufferHex : Bytes → Sha1Type} {fid : FidType} {file : File} {totalParts : ℕ}

theorem partPacket_eq_none_iff {i : ℕ} :
    partPacket hashBufferHex fid file totalParts i = none ↔ Unsendable file totalParts i := by
  unfold partPacket Unsendable
  split_ifs with hzero
  · exact ⟨fun _ => .inl hzero, fun _ => rfl⟩
  · rw [sendPart, Option.map_eq_none_iff]
    exact ⟨.inr, fun h => h.resolve_left hzero⟩

/-- **One round of the loop.** It faults, it goes on to the next part, or the task ends. -/
theorem sendPartsLoop_succ (n i : ℕ) (stream : Bytes) :
    (FaultsAt file totalParts i (answerAt stream 0) ∧
      sendPartsLoop hashBufferHex fid file totalParts (n + 1) i stream = .fault) ∨
    ¬FaultsAt file totalParts i (answerAt stream 0) ∧
      ∃ toSend, partPacket hashBufferHex fid file totalParts i = some toSend ∧
        ((Passes (answerAt stream 0) ∧
          sendPartsLoop hashBufferHex fid file totalParts (n + 1) i stream =
            .act (.did ⟨i, toSend, answerAt stream 0⟩) (.act .progressed
              (sendPartsLoop hashBufferHex fid file totalParts n (i + 1) (recvAck stream).2))) ∨
        (¬Passes (answerAt stream 0) ∧
          sendPartsLoop hashBufferHex fid file totalParts (n + 1) i stream =
            .act (.did ⟨i, toSend, answerAt stream 0⟩) .ended)) := by
  have hack := (recvAck_spec stream).1
  rw [sendPartsLoop]
  cases hpacket : partPacket hashBufferHex fid file totalParts i with
  | none => exact .inl ⟨.inl (partPacket_eq_none_iff.mp hpacket), rfl⟩
  | some toSend =>
      have hsendable : ¬Unsendable file totalParts i := by
        rw [← @partPacket_eq_none_iff hashBufferHex fid, hpacket]
        nofun
      generalize recvAck stream = result at hack ⊢
      obtain ⟨r, rest⟩ := result
      cases hanswer : answerAt stream 0 with
      | none =>
          rw [hanswer] at hack
          subst hack
          refine .inr ⟨?_, toSend, rfl, .inl ⟨nofun, rfl⟩⟩
          rintro (h | ⟨p, hp, _⟩)
          · exact hsendable h
          · cases hp
      | some p =>
          rw [hanswer] at hack
          simp only at hack
          cases hread : readAck p with
          | none =>
              rw [hread] at hack
              subst hack
              exact .inl ⟨.inr ⟨p, rfl, hread⟩, rfl⟩
          | some ackCode =>
              have hok : ¬FaultsAt file totalParts i (some p) := by
                rintro (h | ⟨q, hq, hnone⟩)
                · exact hsendable h
                · cases hq
                  rw [hread] at hnone
                  cases hnone
              rw [hread] at hack
              simp only at hack
              refine .inr ⟨hok, toSend, rfl, ?_⟩
              by_cases hcode : ackCode ≠ ErrorCode.success.toUInt8
              · rw [if_pos hcode] at hack
                subst hack
                refine .inr ⟨fun hpasses => hcode ?_, rfl⟩
                have := hpasses p rfl
                rwa [hread, Option.some_inj] at this
              · rw [if_neg hcode] at hack
                subst hack
                refine .inl ⟨?_, rfl⟩
                intro q hq
                cases hq
                rw [hread, not_not.mp hcode]

theorem faults_sendPartsLoop {n i : ℕ} {stream : Bytes} :
    (sendPartsLoop hashBufferHex fid file totalParts n i stream).Faults ↔
      ∃ k < n, (∀ j < k, Passes (answerAt stream j)) ∧
        FaultsAt file totalParts (i + k) (answerAt stream k) := by
  induction n generalizing i stream with
  | zero =>
      refine ⟨fun h => h.elim, ?_⟩
      rintro ⟨k, hk, _⟩
      omega
  | succ n ih =>
      have hlater := (recvAck_spec stream).2
      obtain ⟨hfault, hloop⟩ | ⟨hok, toSend, -, ⟨hpasses, hloop⟩ | ⟨hstops, hloop⟩⟩ :=
        @sendPartsLoop_succ hashBufferHex fid file totalParts n i stream
      · rw [hloop]
        exact ⟨fun _ => ⟨0, by omega, fun j hj => by omega, hfault⟩, fun _ => trivial⟩
      · rw [hloop, Course.faults_act, Course.faults_act, ih]
        simp only [hlater]
        constructor
        · rintro ⟨k, hk, hbefore, hat⟩
          refine ⟨k + 1, by omega, fun j hj => ?_, ?_⟩
          · cases j with
            | zero => exact hpasses
            | succ j => exact hbefore j (by omega)
          · rwa [← Nat.add_assoc, Nat.add_right_comm]
        · rintro ⟨k, hk, hbefore, hat⟩
          cases k with
          | zero => exact absurd hat hok
          | succ k =>
              refine ⟨k, by omega, fun j hj => hbefore (j + 1) (by omega), ?_⟩
              rwa [Nat.add_right_comm, Nat.add_assoc]
      · rw [hloop, Course.faults_act]
        refine ⟨fun h => h.elim, ?_⟩
        rintro ⟨k, hk, hbefore, hat⟩
        cases k with
        | zero => exact absurd hat hok
        | succ k => exact absurd (hbefore 0 (by omega)) hstops

/-- A task that does not fault counts the parts up to its first error acknowledgement. -/
theorem countP_sendPartsLoop {n i : ℕ} {stream : Bytes}
    (hok : ¬(sendPartsLoop hashBufferHex fid file totalParts n i stream).Faults) :
    (sendPartsLoop hashBufferHex fid file totalParts n i stream).actions.countP Action.counts =
      Nat.count (fun k => ∀ j ≤ k, Passes (answerAt stream j)) n := by
  induction n generalizing i stream with
  | zero => rfl
  | succ n ih =>
      have hlater := (recvAck_spec stream).2
      rw [Nat.count_succ']
      obtain ⟨-, hloop⟩ | ⟨-, toSend, -, ⟨hpasses, hloop⟩ | ⟨hstops, hloop⟩⟩ :=
        @sendPartsLoop_succ hashBufferHex fid file totalParts n i stream
      · rw [hloop] at hok
        exact absurd trivial hok
      · rw [hloop, Course.faults_act, Course.faults_act] at hok
        have hiff : ∀ k, (∀ j ≤ k, Passes (answerAt (recvAck stream).2 j)) ↔
            ∀ j ≤ k + 1, Passes (answerAt stream j) := by
          intro k
          simp only [hlater]
          refine ⟨fun h j hj => ?_, fun h j hj => h (j + 1) (by omega)⟩
          cases j with
          | zero => exact hpasses
          | succ j => exact h j (by omega)
        rw [hloop, Course.actions_act, Course.actions_act, List.countP_cons_of_neg (by nofun),
          List.countP_cons_of_pos rfl, ih hok, if_pos]
        · simp only [hiff]
        · intro j hj
          rw [Nat.le_zero.mp hj]
          exact hpasses
      · rw [hloop, Course.actions_act, List.countP_cons_of_neg (by nofun), Course.actions_ended,
          List.countP_nil, if_neg fun h => hstops (h 0 le_rfl), Nat.add_zero, eq_comm,
          Nat.count_iff_forall_not]
        intro k _ h
        exact hstops (h 0 (by omega))

theorem did_sendPartsLoop {n i : ℕ} {stream : Bytes} {part : PartSent}
    (hmem : .did part ∈ (sendPartsLoop hashBufferHex fid file totalParts n i stream).actions) :
    ∃ k < n, part.part = i + k ∧ part.received = answerAt stream k ∧
      partPacket hashBufferHex fid file totalParts part.part = some part.toSend := by
  induction n generalizing i stream with
  | zero => cases hmem
  | succ n ih =>
      have hlater := (recvAck_spec stream).2
      obtain ⟨-, hloop⟩ | ⟨-, toSend, hpacket, ⟨-, hloop⟩ | ⟨-, hloop⟩⟩ :=
        @sendPartsLoop_succ hashBufferHex fid file totalParts n i stream
      · rw [hloop] at hmem
        cases hmem
      · rw [hloop, Course.actions_act, Course.actions_act, List.mem_cons, List.mem_cons] at hmem
        rcases hmem with hpart | hprogress | hmem
        · cases hpart
          exact ⟨0, by omega, rfl, rfl, hpacket⟩
        · cases hprogress
        · obtain ⟨k, hk, hpart, hreceived, hsent⟩ := ih hmem
          exact ⟨k + 1, by omega, by omega, by rw [hreceived, hlater], hsent⟩
      · rw [hloop, Course.actions_act, Course.actions_ended, List.mem_singleton] at hmem
        cases hmem
        exact ⟨0, by omega, rfl, rfl, hpacket⟩

theorem exists_did_sendPartsLoop {n i k : ℕ} {stream : Bytes}
    (hok : ¬(sendPartsLoop hashBufferHex fid file totalParts n i stream).Faults) (hk : k < n)
    (hbefore : ∀ j < k, Passes (answerAt stream j)) :
    ∃ toSend, partPacket hashBufferHex fid file totalParts (i + k) = some toSend ∧
      .did ⟨i + k, toSend, answerAt stream k⟩ ∈
        (sendPartsLoop hashBufferHex fid file totalParts n i stream).actions := by
  induction n generalizing i k stream with
  | zero => omega
  | succ n ih =>
      have hlater := (recvAck_spec stream).2
      obtain ⟨-, hloop⟩ | ⟨-, toSend, hpacket, hrest⟩ :=
        @sendPartsLoop_succ hashBufferHex fid file totalParts n i stream
      · rw [hloop] at hok
        exact absurd trivial hok
      · cases k with
        | zero =>
            refine ⟨toSend, hpacket, ?_⟩
            obtain ⟨-, hloop⟩ | ⟨-, hloop⟩ := hrest
            · rw [hloop]
              exact List.mem_cons_self
            · rw [hloop]
              exact List.mem_cons_self
        | succ k =>
            obtain ⟨-, hloop⟩ | ⟨hstops, -⟩ := hrest
            · rw [hloop, Course.faults_act, Course.faults_act] at hok
              obtain ⟨toSend', hpacket', hmem⟩ := ih (k := k) hok (by omega) fun j hj => by
                rw [hlater]
                exact hbefore (j + 1) (by omega)
              rw [Nat.add_right_comm, Nat.add_assoc, hlater] at hmem
              rw [Nat.add_right_comm, Nat.add_assoc] at hpacket'
              refine ⟨toSend', hpacket', ?_⟩
              rw [hloop]
              exact List.mem_cons_of_mem _ (List.mem_cons_of_mem _ hmem)
            · exact absurd (hbefore 0 (by omega)) hstops

end Task

/-! ### The ranges of the tasks -/

theorem totalParts_cons (field : StpField) (rest : List StpField) :
    totalParts (field :: rest) = field.nb.toNat + totalParts rest := by
  rw [totalParts, List.map_cons, List.sum_cons, totalParts]

theorem snd_le_of_mem_partRanges {parts : ℕ} {stplist : List StpField} {range : ℕ × ℕ}
    (hmem : range ∈ partRanges parts stplist) : range.2 ≤ parts := by
  induction stplist generalizing parts with
  | nil => cases hmem
  | cons field rest ih =>
      rcases List.mem_cons.mp hmem with rfl | hmem
      · exact le_rfl
      · exact (ih hmem).trans (Nat.sub_le _ _)

theorem pairwise_partRanges (parts : ℕ) (stplist : List StpField) :
    (partRanges parts stplist).Pairwise fun r r' => r'.2 ≤ r.1 := by
  induction stplist generalizing parts with
  | nil => exact .nil
  | cons field rest ih => exact .cons (fun r' hr' => snd_le_of_mem_partRanges hr') (ih _)

theorem exists_range {stplist : List StpField} {i : ℕ} (hi : i < totalParts stplist) :
    ∃ range ∈ partRanges (totalParts stplist) stplist, range.1 ≤ i ∧ i < range.2 := by
  induction stplist with
  | nil => cases hi
  | cons field rest ih =>
      rw [totalParts_cons] at hi
      rw [partRanges, totalParts_cons, Nat.add_sub_cancel_left]
      by_cases hlow : i < totalParts rest
      · obtain ⟨range, hmem, hrange⟩ := ih hlow
        exact ⟨range, List.mem_cons_of_mem _ hmem, hrange⟩
      · exact ⟨_, List.mem_cons_self, Nat.le_of_not_lt hlow, hi⟩

theorem range_unique {parts : ℕ} {stplist : List StpField} {part : ℕ}
    {i j : Fin (partRanges parts stplist).length}
    (hi : ((partRanges parts stplist).get i).1 ≤ part ∧
      part < ((partRanges parts stplist).get i).2)
    (hj : ((partRanges parts stplist).get j).1 ≤ part ∧
      part < ((partRanges parts stplist).get j).2) : i = j := by
  have hpairwise := List.pairwise_iff_get.mp (pairwise_partRanges parts stplist)
  rcases lt_trichotomy i j with hlt | heq | hgt
  · have := hpairwise i j hlt
    omega
  · exact heq
  · have := hpairwise j i hgt
    omega

/-! ### The call -/

/-- The master answered with piece locations and a storage acknowledged every part. -/
def Uploaded (hashBufferHex : Bytes → Sha1Type) (x : Upload) (log : List (Action PartSent)) :
    Prop :=
  x.rdcy ≠ 0 ∧ ∃ p fid stplist, answerOf x.master x.request = some p ∧
    p.whatGet = MC.upPiecesLocW ∧ readUpPiecesLoc p = some (fid, stplist) ∧
    ∀ i < totalParts stplist, ∃ toSend ack,
      partPacket hashBufferHex fid x.file (totalParts stplist) i = some toSend ∧
        .did ⟨i, toSend, some ack⟩ ∈ log ∧ IsSuccessAck ack

/-- However its tasks interleave, the call returns normally exactly when the file was uploaded. -/
def TruthfulUpload (hashBufferHex : Bytes → Sha1Type) (x : Upload) : Prop :=
  ∀ ending log, (requestUpload hashBufferHex x).Ends ending log →
    (ending = .normal ↔ Uploaded hashBufferHex x log)

def sessions (x : Upload) (stplist : List StpField)
    (i : Fin (partRanges (totalParts stplist) stplist).length) : (ℕ × ℕ) × Option Bytes :=
  ((partRanges (totalParts stplist) stplist).get i, x.storages i)

def AllAcked (x : Upload) (stplist : List StpField) : Prop :=
  ∀ i, ∀ k < (sessions x stplist i).1.2 - (sessions x stplist i).1.1,
    ∃ stream ∈ (sessions x stplist i).2, ∃ ack ∈ answerAt stream k, IsSuccessAck ack

def SomeFault (x : Upload) (stplist : List StpField) : Prop :=
  ∃ i, ∃ stream ∈ (sessions x stplist i).2,
    ∃ k < (sessions x stplist i).1.2 - (sessions x stplist i).1.1,
      (∀ j < k, Passes (answerAt stream j)) ∧
        FaultsAt x.file (totalParts stplist) ((sessions x stplist i).1.1 + k) (answerAt stream k)

def counted : (ℕ × ℕ) × Option Bytes → ℕ
  | (_, none) => 0
  | (range, some stream) =>
      Nat.count (fun k => ∀ j ≤ k, Passes (answerAt stream j)) (range.2 - range.1)

/-- More than one part short of the limit. -/
def StaysShort (x : Upload) (stplist : List StpField) : Prop :=
  1 + ∑ i, counted (sessions x stplist i) < totalParts stplist % 2 ^ 32

section Call

variable {hashBufferHex : Bytes → Sha1Type} {x : Upload} {fid : FidType} {stplist : List StpField}

theorem faults_uploadTasks :
    (∃ i, (uploadTasks hashBufferHex x fid stplist i).Faults) ↔ SomeFault x stplist := by
  unfold SomeFault
  refine exists_congr fun i => ?_
  unfold uploadTasks sendParts sessions
  cases x.storages i with
  | none => exact ⟨fun h => h.elim, by rintro ⟨stream, hstream, _⟩; cases hstream⟩
  | some stream =>
      rw [faults_sendPartsLoop]
      simp only [Option.mem_some_iff, exists_eq_left']

theorem countP_uploadTasks (hok : ¬SomeFault x stplist) (i) :
    (uploadTasks hashBufferHex x fid stplist i).actions.countP Action.counts =
      counted (sessions x stplist i) := by
  rw [← @faults_uploadTasks hashBufferHex x fid] at hok
  have hi := not_exists.mp hok i
  unfold uploadTasks sendParts at hi ⊢
  unfold sessions
  cases hstorage : x.storages i with
  | none => rfl
  | some stream =>
      rw [hstorage] at hi
      exact countP_sendPartsLoop hi

theorem acked_iff (hok : ¬SomeFault x stplist) {log : List (Action PartSent)}
    (hlog : (log : Multiset _) = ForkJoin.remaining (uploadTasks hashBufferHex x fid stplist)) :
    (∀ i < totalParts stplist, ∃ toSend ack,
      partPacket hashBufferHex fid x.file (totalParts stplist) i = some toSend ∧
        .did ⟨i, toSend, some ack⟩ ∈ log ∧ IsSuccessAck ack) ↔ AllAcked x stplist := by
  rw [← @faults_uploadTasks hashBufferHex x fid] at hok
  have hmem : ∀ a, a ∈ log ↔ ∃ i, a ∈ (uploadTasks hashBufferHex x fid stplist i).actions := by
    intro a
    rw [← ForkJoin.mem_remaining, ← hlog, Multiset.mem_coe]
  simp only [hmem]
  constructor
  · intro hall i k hk
    simp only [sessions] at hk ⊢
    have hrange := snd_le_of_mem_partRanges (List.get_mem (partRanges (totalParts stplist) stplist) i)
    obtain ⟨toSend, ack, -, ⟨j, hj⟩, hack⟩ :=
      hall (((partRanges (totalParts stplist) stplist).get i).1 + k) (by omega)
    unfold uploadTasks sendParts at hj
    cases hstorage : x.storages j with
    | none =>
        rw [hstorage] at hj
        cases hj
    | some stream =>
        rw [hstorage] at hj
        obtain ⟨k', hk', hpart, hreceived, -⟩ := did_sendPartsLoop hj
        dsimp only at hpart
        -- The part lies in one range only, so the session it was answered on is the one of `i`.
        have hij : j = i := range_unique ⟨by omega, by omega⟩ ⟨Nat.le_add_right _ k, by omega⟩
        subst hij
        have hkk' : k' = k := by omega
        subst hkk'
        exact ⟨stream, hstorage, ack, hreceived.symm, hack⟩
  · intro hall part hpart
    obtain ⟨range, hrange, hlow, hhigh⟩ := exists_range hpart
    obtain ⟨i, rfl⟩ := List.get_of_mem hrange
    obtain ⟨stream, hstream, -⟩ := hall i (part - _) (Nat.sub_lt_sub_right hlow hhigh)
    have hacked : ∀ k < (sessions x stplist i).1.2 - (sessions x stplist i).1.1,
        ∃ ack ∈ answerAt stream k, IsSuccessAck ack := by
      intro k hk
      obtain ⟨stream', hstream', hack⟩ := hall i k hk
      rwa [Option.mem_unique hstream hstream']
    have hi := not_exists.mp hok i
    unfold uploadTasks sendParts at hi
    simp only [sessions] at hstream hacked
    rw [hstream] at hi
    obtain ⟨toSend, hpacket, hdid⟩ := exists_did_sendPartsLoop hi
      (Nat.sub_lt_sub_right hlow hhigh) fun j hj p hp => by
        obtain ⟨ack, hack, hsuccess⟩ := hacked j (by omega)
        rw [Option.mem_unique hp hack]
        exact hsuccess.2
    obtain ⟨ack, hack, hsuccess⟩ := hacked _ (Nat.sub_lt_sub_right hlow hhigh)
    rw [Nat.add_sub_cancel' hlow] at hpacket hdid
    rw [hack] at hdid
    refine ⟨toSend, ack, hpacket, ⟨i, ?_⟩, hsuccess⟩
    unfold uploadTasks sendParts
    rw [hstream]
    exact hdid

theorem requestUpload_eq (hrdcy : x.rdcy ≠ 0) {deliver : Bytes → Bytes}
    (hmaster : x.master = some deliver) :
    requestUpload hashBufferHex x = match answerOf x.master x.request with
      | none => .returned
      | some p => uploadAnswered hashBufferHex x p := by
  rw [requestUpload, if_neg hrdcy, hmaster]
  exact askMaster_some ..

theorem not_uploaded_of_unanswered {log : List (Action PartSent)}
    (h : answerOf x.master x.request = none) : ¬Uploaded hashBufferHex x log := by
  rintro ⟨_, p, _, _, hp, _⟩
  rw [h] at hp
  cases hp

theorem uploaded_iff {p : Packet} (hrdcy : x.rdcy ≠ 0)
    (hanswer : answerOf x.master x.request = some p)
    (hread : readUpPiecesLoc p = some (fid, stplist)) (hok : ¬SomeFault x stplist)
    {log : List (Action PartSent)}
    (hlog : (log : Multiset _) = ForkJoin.remaining (uploadTasks hashBufferHex x fid stplist)) :
    Uploaded hashBufferHex x log ↔ p.whatGet = MC.upPiecesLocW ∧ AllAcked x stplist := by
  rw [← acked_iff hok hlog]
  constructor
  · rintro ⟨-, p', fid', stplist', hp', hwhat, hread', hacked⟩
    rw [hanswer, Option.some_inj] at hp'
    subst hp'
    rw [hread, Option.some_inj, Prod.mk.injEq] at hread'
    obtain ⟨rfl, rfl⟩ := hread'
    exact ⟨hwhat, hacked⟩
  · rintro ⟨hwhat, hacked⟩
    exact ⟨hrdcy, p, fid, stplist, hanswer, hwhat, hread, hacked⟩

theorem truthful_answered_iff {p : Packet} (hrdcy : x.rdcy ≠ 0)
    (hanswer : answerOf x.master x.request = some p) (hwhat : p.whatGet ≠ 0)
    (hread : readUpPiecesLoc p = some (fid, stplist)) :
    (∀ ending log, (uploadAnswered hashBufferHex x p).Ends ending log →
      (ending = .normal ↔ Uploaded hashBufferHex x log)) ↔
      (p.whatGet = MC.upPiecesLocW ∧ AllAcked x stplist) ∨ SomeFault x stplist ∨
        StaysShort x stplist := by
  rw [uploadAnswered, if_neg hwhat, hread]
  simp only
  by_cases hfault : SomeFault x stplist
  · refine ⟨fun _ => .inr (.inl hfault), fun _ ending log hends => ?_⟩
    obtain ⟨i, hi⟩ := faults_uploadTasks.mpr hfault
    cases hends with
    | joined hruns hphase => exact absurd hi ((ForkJoin.of_returned hruns hphase).2.1 i)
  have hcount := Finset.sum_congr rfl fun i (_ : i ∈ Finset.univ) =>
    @countP_uploadTasks hashBufferHex x fid stplist hfault i
  by_cases hshort : StaysShort x stplist
  · refine ⟨fun _ => .inr (.inr hshort), fun _ ending log hends => ?_⟩
    cases hends with
    | joined hruns hphase =>
        have hlimit := (ForkJoin.of_returned hruns hphase).2.2
        rw [hcount] at hlimit
        exact absurd hshort (Nat.not_lt.mpr hlimit)
  · have hnofault : ∀ i, ¬(uploadTasks hashBufferHex x fid stplist i).Faults := by
      intro i hi
      exact hfault (faults_uploadTasks.mp ⟨i, hi⟩)
    constructor
    · intro htruthful
      have hlimit := Nat.not_lt.mp hshort
      rw [← hcount] at hlimit
      obtain ⟨s, hruns, hphase⟩ := ForkJoin.exists_returned hnofault hlimit
      have hlog := (ForkJoin.of_returned hruns hphase).1
      left
      rw [← uploaded_iff hrdcy hanswer hread hfault hlog]
      exact (htruthful .normal s.log (.joined hruns hphase)).mp rfl
    · rintro (hacked | hfault' | hshort') ending log hends
      · cases hends with
        | joined hruns hphase =>
            have hlog := (ForkJoin.of_returned hruns hphase).1
            rw [uploaded_iff hrdcy hanswer hread hfault hlog]
            exact ⟨fun _ => hacked, fun _ => rfl⟩
      · exact absurd hfault' hfault
      · exact absurd hshort' hshort

end Call

/-- **When an upload tells the truth.** The redundancy is zero or the master refuses the connection,
and the call throws; or the master delivers a whole packet, and that is an error, or one too short to
be read, or piece locations with every part acknowledged, or the call never returns. -/
theorem truthfulUpload_iff (hashBufferHex : Bytes → Sha1Type) (x : Upload) :
    TruthfulUpload hashBufferHex x ↔
      x.rdcy = 0 ∨ x.master = none ∨ ∃ p, answerOf x.master x.request = some p ∧
        (p.whatGet = 0 ∨ readUpPiecesLoc p = none ∨
          ∃ fid stplist, readUpPiecesLoc p = some (fid, stplist) ∧
            ((p.whatGet = MC.upPiecesLocW ∧ AllAcked x stplist) ∨ SomeFault x stplist ∨
              StaysShort x stplist)) := by
  unfold TruthfulUpload
  by_cases hrdcy : x.rdcy = 0
  · refine ⟨fun _ => .inl hrdcy, fun _ ending log hends => ?_⟩
    rw [requestUpload, if_pos hrdcy] at hends
    cases hends
    exact ⟨nofun, fun h => absurd hrdcy h.1⟩
  rw [or_iff_right hrdcy]
  cases hmaster : x.master with
  | none =>
      refine ⟨fun _ => .inl rfl, fun _ ending log hends => ?_⟩
      rw [requestUpload, if_neg hrdcy, hmaster] at hends
      cases hends
      refine ⟨nofun, fun h => absurd h (not_uploaded_of_unanswered ?_)⟩
      rw [hmaster, answerOf, Option.bind_none]
  | some deliver =>
      rw [← hmaster, or_iff_right (by rw [hmaster]; nofun), requestUpload_eq hrdcy hmaster]
      cases hanswer : answerOf x.master x.request with
      | none =>
          refine ⟨fun htruthful => ?_, by rintro ⟨p, hp, _⟩; cases hp⟩
          exact absurd ((htruthful .normal [] .returned).mp rfl)
            (not_uploaded_of_unanswered hanswer)
      | some p =>
          simp only [Option.some_inj, exists_eq_left']
          by_cases hwhat : p.whatGet = 0
          · refine ⟨fun _ => .inl hwhat, fun _ ending log hends => ?_⟩
            rw [uploadAnswered, if_pos hwhat, processError] at hends
            cases hack : readAck p with
            | none =>
                rw [hack] at hends
                cases hends
            | some ackCode =>
                rw [hack] at hends
                cases hends
                refine ⟨nofun, ?_⟩
                rintro ⟨-, p', _, _, hp', hwhat', -⟩
                rw [hanswer, Option.some_inj] at hp'
                subst hp'
                rw [hwhat] at hwhat'
                cases hwhat'
          rw [or_iff_right hwhat]
          cases hread : readUpPiecesLoc p with
          | none =>
              refine ⟨fun _ => .inl rfl, fun _ ending log hends => ?_⟩
              rw [uploadAnswered, if_neg hwhat, hread] at hends
              cases hends
          | some pieces =>
              obtain ⟨fid, stplist⟩ := pieces
              rw [truthful_answered_iff hrdcy hanswer hwhat hread, or_iff_right (Option.some_ne_none _)]
              simp only [Option.some_inj, Prod.mk.injEq]
              constructor
              · intro h
                exact ⟨fid, stplist, ⟨rfl, rfl⟩, h⟩
              · rintro ⟨_, _, ⟨rfl, rfl⟩, h⟩
                exact h

/-- A master that closes the session before it answers is taken for a success. -/
theorem not_truthfulUpload_closed :
    ¬TruthfulUpload (fun _ => .replicate 20 0)
      { file := ⟨[1], by decide⟩, fname := [97], rdcy := 1, master := some fun _ => []
        storages := fun _ => none } := by
  intro htruthful
  have hends : (requestUpload (fun _ => .replicate 20 0)
      { file := ⟨[1], by decide⟩, fname := [97], rdcy := 1, master := some fun _ => []
        storages := fun _ => none }).Ends .normal [] := by
    rw [requestUpload_eq (by decide) rfl]
    exact .returned
  obtain ⟨-, p, _, _, hp, -⟩ := (htruthful .normal [] hends).mp rfl
  cases hp

end Mp2p.Client
