import Mathlib.Data.Fintype.Card
import Mp2p.Client.Download

/-!
# When a download tells the truth

Nothing is compared with the digest a part carries, nor the part number with the one asked for, so a
download is as true as the packets that come back; and as progress starts at one, one part may be
missing without the call noticing.
-/

namespace Mp2p.Client

open Masks Network

def Listing (x : Download) (fsize : FsizeType) (fid : FidType) (stplist : List StpField) : Prop :=
  ∃ p, answerOf x.master x.request = some p ∧ p.whatGet = MC.downPiecesLocW ∧
    readDownPiecesLoc p = some (fsize, fid, stplist)

/-- What was received is a part packet for this part, its data hashes to the digest it carries, and
it was written at the offset of the part. -/
structure IsPart (hashBufferHex : Bytes → Sha1Type) (part : PartId) (partSize : UInt64)
    (received : PartReceived) : Prop where
  what : received.packet.whatGet = SC.upActW
  read : readPartData received.packet = some (received.upload, received.data)
  partid : received.upload.partid = part
  sha1 : hashBufferHex received.data = received.upload.sha1
  offset : received.offset = partOffset partSize part.partnum

/-- A verified packet of every listed part was received and written. -/
def Downloaded (hashBufferHex : Bytes → Sha1Type) (x : Download)
    (log : List (Action DownloadEvent)) : Prop :=
  ∃ fsize fid stplist, Listing x fsize fid stplist ∧ ∀ field ∈ stplist, ∃ received,
    .did (.wrote received) ∈ log ∧
      IsPart hashBufferHex ⟨fid, field.nb⟩ (fsize / UInt64.ofNat stplist.length) received

/-- A success acknowledgement was sent for a verified packet of a listed part, written before. -/
def AckedVerified (hashBufferHex : Bytes → Sha1Type) (x : Download)
    (log : List (Action DownloadEvent)) : Prop :=
  ∀ received ack, .did (.acked received ack) ∈ log → .did (.wrote received) ∈ log ∧
    ∃ fsize fid stplist, Listing x fsize fid stplist ∧ ∃ field ∈ stplist,
      IsPart hashBufferHex ⟨fid, field.nb⟩ (fsize / UInt64.ofNat stplist.length) received

/-- However its tasks interleave, the call returns normally exactly when the file was downloaded,
and at no time has it acknowledged anything but a verified part. -/
def TruthfulDownload (hashBufferHex : Bytes → Sha1Type) (x : Download) : Prop :=
  (∀ ending log, (requestDownload x).Ends ending log →
    (ending = .normal ↔ Downloaded hashBufferHex x log)) ∧
  ∀ log, (requestDownload x).Logs log → AckedVerified hashBufferHex x log

/-! ### One task -/

def Faulty (file : Bytes) (partSize : UInt64) (p : Packet) : Prop :=
  ∀ upload data, readPartData p = some (upload, data) →
    recvPart file partSize upload.partid.partnum data = none ∨ fromtoInverse p.fromtoGet = none

def VerifiedPart (hashBufferHex : Bytes → Sha1Type) (part : PartId) (p : Packet) : Prop :=
  p.whatGet = SC.upActW ∧ ∃ upload data, readPartData p = some (upload, data) ∧
    upload.partid = part ∧ hashBufferHex data = upload.sha1

def receivedOf (partSize : UInt64) (p : Packet) (upload : SC.UpAct) (data : Bytes) :
    PartReceived :=
  ⟨p, upload, data, partOffset partSize upload.partid.partnum⟩

section Task

variable {file : Bytes} {partSize : UInt64} {p : Packet}

/-- **The callback of a task.** It writes the part, acknowledges it and counts it, or it faults. -/
theorem partReceived_cases :
    (Faulty file partSize p ∧ (partReceived file partSize p = .fault ∨
      ∃ upload data, readPartData p = some (upload, data) ∧
        partReceived file partSize p =
          .act (.did (.wrote (receivedOf partSize p upload data))) .fault)) ∨
    ¬Faulty file partSize p ∧ ∃ upload data ack, readPartData p = some (upload, data) ∧
      partReceived file partSize p =
        .act (.did (.wrote (receivedOf partSize p upload data)))
          (.act (.did (.acked (receivedOf partSize p upload data) ack))
            (.act .progressed .ended)) := by
  unfold partReceived
  cases hread : readPartData p with
  | none =>
      refine .inl ⟨fun upload data h => ?_, .inl rfl⟩
      rw [hread] at h
      cases h
  | some r =>
      obtain ⟨upload, data⟩ := r
      have hfaulty : Faulty file partSize p ↔
          recvPart file partSize upload.partid.partnum data = none ∨
            fromtoInverse p.fromtoGet = none := by
        refine ⟨fun h => h upload data hread, fun h upload' data' hread' => ?_⟩
        rw [hread, Option.some_inj, Prod.mk.injEq] at hread'
        obtain ⟨rfl, rfl⟩ := hread'
        exact h
      rw [hfaulty]
      dsimp only
      cases recvPart file partSize upload.partid.partnum data with
      | none => exact .inl ⟨.inl rfl, .inl rfl⟩
      | some out =>
          cases fromtoInverse p.fromtoGet with
          | none => exact .inl ⟨.inr rfl, .inr ⟨upload, data, rfl, rfl⟩⟩
          | some fromtoDst =>
              refine .inr ⟨?_, upload, data, _, rfl, rfl⟩
              rintro (h | h) <;> cases h

theorem faults_partReceived : (partReceived file partSize p).Faults ↔ Faulty file partSize p := by
  obtain ⟨hfaulty, hcourse | ⟨_, _, _, hcourse⟩⟩ | ⟨hok, _, _, _, _, hcourse⟩ :=
    @partReceived_cases file partSize p
  · rw [hcourse]
    exact ⟨fun _ => hfaulty, fun _ => trivial⟩
  · rw [hcourse]
    exact ⟨fun _ => hfaulty, fun _ => trivial⟩
  · rw [hcourse]
    exact ⟨fun h => h.elim, fun h => hok h⟩

theorem countP_partReceived (hok : ¬Faulty file partSize p) :
    (partReceived file partSize p).actions.countP Action.counts = 1 := by
  obtain ⟨hfaulty, _⟩ | ⟨_, _, _, _, _, hcourse⟩ := @partReceived_cases file partSize p
  · exact absurd hfaulty hok
  · rw [hcourse]
    rfl

theorem wrote_partReceived {received : PartReceived}
    (hmem : .did (.wrote received) ∈ (partReceived file partSize p).actions) :
    ∃ upload data, readPartData p = some (upload, data) ∧
      received = receivedOf partSize p upload data := by
  obtain ⟨_, hcourse | ⟨upload, data, hread, hcourse⟩⟩ | ⟨_, upload, data, _, hread, hcourse⟩ :=
    @partReceived_cases file partSize p
  · rw [hcourse] at hmem
    cases hmem
  · rw [hcourse] at hmem
    simp only [Course.actions_act, Course.actions_fault, List.mem_singleton, Action.did.injEq,
      DownloadEvent.wrote.injEq] at hmem
    exact ⟨upload, data, hread, hmem⟩
  · rw [hcourse] at hmem
    simp at hmem
    exact ⟨upload, data, hread, hmem⟩

/-- An acknowledgement among the first actions of a task has its write before it. -/
theorem acked_partReceived {received : PartReceived} {ack : Packet}
    {done rest : List (Action DownloadEvent)}
    (hactions : (partReceived file partSize p).actions = done ++ rest)
    (hmem : .did (.acked received ack) ∈ done) :
    .did (.wrote received) ∈ done ∧ ¬Faulty file partSize p := by
  obtain ⟨_, hcourse | ⟨upload, data, hread, hcourse⟩⟩ | ⟨hok, upload, data, _, hread, hcourse⟩ :=
    @partReceived_cases file partSize p
  · rw [hcourse, Course.actions_fault, List.nil_eq, List.append_eq_nil_iff] at hactions
    rw [hactions.1] at hmem
    cases hmem
  · have hall := List.mem_append_left rest hmem
    rw [← hactions, hcourse] at hall
    simp at hall
  · have hall := List.mem_append_left rest hmem
    rw [← hactions, hcourse] at hall
    simp at hall
    cases done with
    | nil => cases hmem
    | cons first done =>
        rw [hcourse, Course.actions_act, List.cons_append, List.cons.injEq] at hactions
        refine ⟨?_, hok⟩
        rw [← hactions.1, hall.1]
        exact List.mem_cons_self

end Task

/-! ### The call -/

def replyAt (x : Download) (fid : FidType) (stplist : List StpField) (i : Fin stplist.length) :
    Option Packet :=
  answerOf (x.storages i) (downActPacket ⟨fid, (stplist.get i).nb⟩)

def mappedFile (x : Download) (fsize : FsizeType) : Option Bytes :=
  match x.available with
  | none => none
  | some available =>
      if fsize > available then none else x.createEmptyFile (dlName x.filename) fsize

def OnlyVerified (hashBufferHex : Bytes → Sha1Type) (x : Download) (file : Bytes)
    (partSize : UInt64) (p : Packet) (fid : FidType) (stplist : List StpField) : Prop :=
  ∀ i, ∀ q ∈ replyAt x fid stplist i, Faulty file partSize q ∨
    p.whatGet = MC.downPiecesLocW ∧
      ∃ field ∈ stplist, VerifiedPart hashBufferHex ⟨fid, field.nb⟩ q

def AllVerified (hashBufferHex : Bytes → Sha1Type) (x : Download) (p : Packet) (fid : FidType)
    (stplist : List StpField) : Prop :=
  p.whatGet = MC.downPiecesLocW ∧ ∀ field ∈ stplist, ∃ i, ∃ q ∈ replyAt x fid stplist i,
    VerifiedPart hashBufferHex ⟨fid, field.nb⟩ q

/-- Some task faults, more than one task is not counted, or the division by the duration faults. -/
def NeverReturns (x : Download) (file : Bytes) (partSize : UInt64) (fid : FidType)
    (stplist : List StpField) : Prop :=
  (∃ i, ∃ q ∈ replyAt x fid stplist i, Faulty file partSize q) ∨
    1 + (Finset.univ.filter fun i => (replyAt x fid stplist i).isSome).card <
      stplist.length % 2 ^ 32 ∨ x.duration = 0

section Call

variable {hashBufferHex : Bytes → Sha1Type} {x : Download} {file : Bytes} {partSize : UInt64}
  {fsize : FsizeType} {fid : FidType} {stplist : List StpField} {p : Packet}

theorem downloadTasks_eq (i : Fin stplist.length) :
    downloadTasks x file partSize fid stplist i = match replyAt x fid stplist i with
      | none => .ended
      | some q => partReceived file partSize q := by
  unfold downloadTasks recvPartTask replyAt answerOf
  cases x.storages i with
  | none => rfl
  | some deliver => exact blockingReceive_once ..

theorem faults_downloadTasks :
    (∃ i, (downloadTasks x file partSize fid stplist i).Faults) ↔
      ∃ i, ∃ q ∈ replyAt x fid stplist i, Faulty file partSize q := by
  refine exists_congr fun i => ?_
  rw [downloadTasks_eq]
  cases replyAt x fid stplist i with
  | none => exact ⟨fun h => h.elim, by rintro ⟨_, h, _⟩; cases h⟩
  | some q =>
      rw [faults_partReceived]
      simp only [Option.mem_some_iff, exists_eq_left']

theorem countP_downloadTasks
    (hok : ¬∃ i, ∃ q ∈ replyAt x fid stplist i, Faulty file partSize q) :
    ∑ i, (downloadTasks x file partSize fid stplist i).actions.countP Action.counts =
      (Finset.univ.filter fun i => (replyAt x fid stplist i).isSome).card := by
  rw [Finset.card_filter]
  refine Finset.sum_congr rfl fun i _ => ?_
  rw [downloadTasks_eq]
  cases hreply : replyAt x fid stplist i with
  | none => rfl
  | some q =>
      rw [Option.isSome_some, if_pos rfl]
      exact countP_partReceived fun h => hok ⟨i, q, hreply, h⟩

theorem wrote_downloadTasks {i : Fin stplist.length} {received : PartReceived}
    (hmem : .did (.wrote received) ∈ (downloadTasks x file partSize fid stplist i).actions) :
    ∃ q ∈ replyAt x fid stplist i, ∃ upload data, readPartData q = some (upload, data) ∧
      received = receivedOf partSize q upload data := by
  rw [downloadTasks_eq] at hmem
  cases hreply : replyAt x fid stplist i with
  | none =>
      rw [hreply] at hmem
      cases hmem
  | some q =>
      rw [hreply] at hmem
      exact ⟨q, rfl, wrote_partReceived hmem⟩

theorem isPart_iff {q : Packet} {upload : SC.UpAct} {data : Bytes} {part : PartId}
    (hread : readPartData q = some (upload, data)) :
    IsPart hashBufferHex part partSize (receivedOf partSize q upload data) ↔
      VerifiedPart hashBufferHex part q := by
  constructor
  · intro h
    exact ⟨h.what, upload, data, hread, h.partid, h.sha1⟩
  · rintro ⟨hwhat, upload', data', hread', hpartid, hsha1⟩
    rw [hread, Option.some_inj, Prod.mk.injEq] at hread'
    obtain ⟨rfl, rfl⟩ := hread'
    refine ⟨hwhat, hread, hpartid, hsha1, ?_⟩
    rw [← hpartid]
    rfl

theorem listing_iff (hanswer : answerOf x.master x.request = some p)
    (hread : readDownPiecesLoc p = some (fsize, fid, stplist)) {fsize' : FsizeType}
    {fid' : FidType} {stplist' : List StpField} :
    Listing x fsize' fid' stplist' ↔
      p.whatGet = MC.downPiecesLocW ∧ fsize' = fsize ∧ fid' = fid ∧ stplist' = stplist := by
  unfold Listing
  simp only [hanswer, Option.some_inj, exists_eq_left', hread, Prod.mk.injEq]
  exact and_congr_right fun _ => and_congr eq_comm (and_congr eq_comm eq_comm)

theorem downloaded_iff (hanswer : answerOf x.master x.request = some p)
    (hread : readDownPiecesLoc p = some (fsize, fid, stplist))
    (hpartSize : partSize = fsize / UInt64.ofNat stplist.length)
    (hok : ¬∃ i, ∃ q ∈ replyAt x fid stplist i, Faulty file partSize q)
    {log : List (Action DownloadEvent)}
    (hlog : (log : Multiset _) =
      ForkJoin.remaining (downloadTasks x file partSize fid stplist)) :
    Downloaded hashBufferHex x log ↔ AllVerified hashBufferHex x p fid stplist := by
  have hmem : ∀ a, a ∈ log ↔ ∃ i, a ∈ (downloadTasks x file partSize fid stplist i).actions := by
    intro a
    rw [← ForkJoin.mem_remaining, ← hlog, Multiset.mem_coe]
  unfold Downloaded AllVerified
  simp only [listing_iff hanswer hread, hmem]
  constructor
  · rintro ⟨_, _, _, ⟨hwhat, rfl, rfl, rfl⟩, hall⟩
    refine ⟨hwhat, fun field hfield => ?_⟩
    obtain ⟨received, ⟨i, hi⟩, hpart⟩ := hall field hfield
    obtain ⟨q, hq, upload, data, hdata, rfl⟩ := wrote_downloadTasks hi
    rw [← hpartSize, isPart_iff hdata] at hpart
    exact ⟨i, q, hq, hpart⟩
  · rintro ⟨hwhat, hall⟩
    refine ⟨fsize, fid, stplist, ⟨hwhat, rfl, rfl, rfl⟩, fun field hfield => ?_⟩
    obtain ⟨i, q, hq, hverified⟩ := hall field hfield
    have hclean : ¬Faulty file partSize q := fun h => hok ⟨i, q, hq, h⟩
    obtain ⟨hfaulty, _⟩ | ⟨_, upload, data, ack, hdata, hcourse⟩ :=
      @partReceived_cases file partSize q
    · exact absurd hfaulty hclean
    · refine ⟨receivedOf partSize q upload data, ⟨i, ?_⟩, ?_⟩
      · rw [downloadTasks_eq, Option.mem_def.mp hq]
        simp only [hcourse]
        exact List.mem_cons_self
      · rwa [← hpartSize, isPart_iff hdata]

theorem ackedVerified_iff {limit : ℕ} (hanswer : answerOf x.master x.request = some p)
    (hread : readDownPiecesLoc p = some (fsize, fid, stplist))
    (hpartSize : partSize = fsize / UInt64.ofNat stplist.length) :
    (∀ s, Runs (downloadTasks x file partSize fid stplist) limit s →
      AckedVerified hashBufferHex x s.log) ↔
      OnlyVerified hashBufferHex x file partSize p fid stplist := by
  unfold AckedVerified OnlyVerified
  simp only [listing_iff hanswer hread]
  constructor
  · intro hall i q hq
    obtain ⟨hfaulty, _⟩ | ⟨_, upload, data, ack, hdata, hcourse⟩ :=
      @partReceived_cases file partSize q
    · exact .inl hfaulty
    · right
      have hmem : .did (.acked (receivedOf partSize q upload data) ack) ∈
          (downloadTasks x file partSize fid stplist i).actions := by
        rw [downloadTasks_eq, Option.mem_def.mp hq]
        simp only [hcourse]
        exact List.mem_cons_of_mem _ List.mem_cons_self
      obtain ⟨s, hruns, hlogged⟩ := ForkJoin.exists_logged hmem
      obtain ⟨-, _, _, _, ⟨hwhat, rfl, rfl, rfl⟩, field, hfield, hpart⟩ :=
        hall s hruns _ ack hlogged
      rw [← hpartSize, isPart_iff hdata] at hpart
      exact ⟨hwhat, field, hfield, hpart⟩
  · intro hall s hruns received ack hmem
    obtain ⟨done, hcourses, hlog⟩ := ForkJoin.exists_done hruns
    obtain ⟨i, hi⟩ := (hlog _).mp hmem
    have hactions := hcourses i
    rw [downloadTasks_eq] at hactions
    cases hreply : replyAt x fid stplist i with
    | none =>
        rw [hreply, Course.actions_ended, List.nil_eq, List.append_eq_nil_iff] at hactions
        rw [hactions.1] at hi
        cases hi
    | some q =>
        rw [hreply] at hactions
        obtain ⟨hwrote, hclean⟩ := acked_partReceived hactions hi
        have hall' := List.mem_append_left (s.courses i).actions hwrote
        rw [← hactions] at hall'
        obtain ⟨upload, data, hdata, rfl⟩ := wrote_partReceived hall'
        refine ⟨(hlog _).mpr ⟨i, hwrote⟩, ?_⟩
        obtain ⟨hwhat, field, hfield, hverified⟩ := (hall i q hreply).resolve_left hclean
        refine ⟨fsize, fid, stplist, ⟨hwhat, rfl, rfl, rfl⟩, field, hfield, ?_⟩
        rwa [← hpartSize, isPart_iff hdata]

theorem downloadAnswered_eq (hwhat : p.whatGet ≠ 0)
    (hread : readDownPiecesLoc p = some (fsize, fid, stplist)) (hne : stplist ≠ []) :
    downloadAnswered x p = match mappedFile x fsize with
      | none => .threw
      | some file =>
          .spawned (downloadTasks x file (fsize / UInt64.ofNat stplist.length) fid stplist)
            (stplist.length % 2 ^ 32) (x.duration ≠ 0) := by
  rw [downloadAnswered, if_neg hwhat, hread]
  dsimp only
  rw [if_neg fun h => hne (List.length_eq_zero_iff.mp h), mappedFile]
  cases x.available with
  | none => rfl
  | some available =>
      dsimp only
      by_cases hroom : fsize > available
      · rewrite [if_pos hroom, if_pos hroom]
        rfl
      · rewrite [if_neg hroom, if_neg hroom]
        cases x.createEmptyFile (dlName x.filename) fsize with
        | none => rfl
        | some file => rfl

theorem requestDownload_eq (hanswer : answerOf x.master x.request = some p) :
    requestDownload x = downloadAnswered x p := by
  cases hmaster : x.master with
  | none =>
      rw [hmaster] at hanswer
      cases hanswer
  | some deliver =>
      have hasked := askMaster_some deliver x.request (downloadAnswered x)
      rwa [← hmaster, hanswer] at hasked

theorem truthful_of_threw (hcall : requestDownload x = .threw) :
    TruthfulDownload hashBufferHex x ↔ ¬Downloaded hashBufferHex x [] := by
  unfold TruthfulDownload
  rw [hcall]
  constructor
  · rintro ⟨hends, -⟩ hdownloaded
    cases (hends .threw [] .threw).mpr hdownloaded
  · intro hnot
    refine ⟨fun ending log hends => ?_, nofun⟩
    cases hends
    exact ⟨nofun, fun h => absurd h hnot⟩

theorem truthful_of_fault (hcall : requestDownload x = .fault) :
    TruthfulDownload hashBufferHex x := by
  unfold TruthfulDownload
  rw [hcall]
  exact ⟨nofun, nofun⟩

theorem downloaded_nil_iff (hanswer : answerOf x.master x.request = some p)
    (hread : readDownPiecesLoc p = some (fsize, fid, stplist)) :
    Downloaded hashBufferHex x [] ↔ p.whatGet = MC.downPiecesLocW ∧ stplist = [] := by
  unfold Downloaded
  simp only [listing_iff hanswer hread]
  constructor
  · rintro ⟨_, _, _, ⟨hwhat, rfl, rfl, rfl⟩, hall⟩
    refine ⟨hwhat, List.eq_nil_iff_forall_not_mem.mpr fun field hfield => ?_⟩
    obtain ⟨_, hmem, _⟩ := hall field hfield
    cases hmem
  · rintro ⟨hwhat, rfl⟩
    exact ⟨fsize, fid, [], ⟨hwhat, rfl, rfl, rfl⟩, nofun⟩

theorem truthful_mapped_iff (hanswer : answerOf x.master x.request = some p) (hwhat : p.whatGet ≠ 0)
    (hread : readDownPiecesLoc p = some (fsize, fid, stplist)) (hne : stplist ≠ [])
    (hfile : mappedFile x fsize = some file)
    (hpartSize : partSize = fsize / UInt64.ofNat stplist.length) :
    TruthfulDownload hashBufferHex x ↔
      OnlyVerified hashBufferHex x file partSize p fid stplist ∧
        (AllVerified hashBufferHex x p fid stplist ∨
          NeverReturns x file partSize fid stplist) := by
  unfold TruthfulDownload
  rw [requestDownload_eq hanswer, downloadAnswered_eq hwhat hread hne, hfile]
  dsimp only
  rw [← hpartSize, and_comm]
  refine and_congr ?_ ?_
  · rw [← ackedVerified_iff hanswer hread hpartSize]
    constructor
    · intro hlogs s hruns
      exact hlogs s.log (.spawned hruns)
    · rintro hruns log ⟨h⟩
      exact hruns _ h
  by_cases hnever : NeverReturns x file partSize fid stplist
  · refine ⟨fun _ => .inr hnever, fun _ ending log hends => ?_⟩
    obtain ⟨s, hruns, hphase, hduration⟩ : ∃ s, Runs (downloadTasks x file partSize fid stplist)
        (stplist.length % 2 ^ 32) s ∧ s.phase = .returned ∧ x.duration ≠ 0 := by
      generalize hfinishes : decide (x.duration ≠ 0) = finishes at hends
      cases hends with
      | joined hruns hphase => exact ⟨_, hruns, hphase, of_decide_eq_true hfinishes⟩
    obtain ⟨-, hclean, hlimit⟩ := ForkJoin.of_returned hruns hphase
    rcases hnever with hfault | hshort | hzero
    · obtain ⟨i, hi⟩ := (@faults_downloadTasks x file partSize fid stplist).mpr hfault
      exact absurd hi (hclean i)
    · rw [countP_downloadTasks fun h => by
        obtain ⟨i, hi⟩ := (@faults_downloadTasks x file partSize fid stplist).mpr h
        exact hclean i hi] at hlimit
      exact absurd hshort (Nat.not_lt.mpr hlimit)
    · exact absurd hzero hduration
  · rw [or_iff_left hnever]
    obtain ⟨hfault, hshort, hduration⟩ := not_or.mp hnever |>.imp_right not_or.mp
    have hfinishes : decide (x.duration ≠ 0) = true := decide_eq_true hduration
    have hnofault : ∀ i, ¬(downloadTasks x file partSize fid stplist i).Faults := by
      intro i hi
      exact hfault (faults_downloadTasks.mp ⟨i, hi⟩)
    rw [hfinishes]
    constructor
    · intro hends
      have hlimit := Nat.not_lt.mp hshort
      rw [← countP_downloadTasks hfault] at hlimit
      obtain ⟨s, hruns, hphase⟩ := ForkJoin.exists_returned hnofault hlimit
      rw [← downloaded_iff hanswer hread hpartSize hfault (ForkJoin.of_returned hruns hphase).1]
      exact (hends .normal s.log (.joined hruns hphase)).mp rfl
    · intro hall ending log hends
      cases hends with
      | joined hruns hphase =>
          rw [downloaded_iff hanswer hread hpartSize hfault
            (ForkJoin.of_returned hruns hphase).1]
          exact ⟨fun _ => hall, fun _ => rfl⟩

end Call

/-- **When a download tells the truth.** The master refuses the connection, and the call throws; or
the master delivers a whole packet, and that is an error, one too short to be read, or a nonempty list
of piece locations for a file that cannot be created, or one for which only verified parts come back,
and either all of them do or the call never returns. -/
theorem truthfulDownload_iff (hashBufferHex : Bytes → Sha1Type) (x : Download) :
    TruthfulDownload hashBufferHex x ↔
      x.master = none ∨ ∃ p, answerOf x.master x.request = some p ∧
        (p.whatGet = 0 ∨ readDownPiecesLoc p = none ∨ ∃ fsize fid stplist,
          readDownPiecesLoc p = some (fsize, fid, stplist) ∧
            if stplist = [] then p.whatGet ≠ MC.downPiecesLocW
            else ∀ file ∈ mappedFile x fsize,
              OnlyVerified hashBufferHex x file (fsize / UInt64.ofNat stplist.length) p fid
                stplist ∧
              (AllVerified hashBufferHex x p fid stplist ∨
                NeverReturns x file (fsize / UInt64.ofNat stplist.length) fid stplist)) := by
  cases hmaster : x.master with
  | none =>
      refine ⟨fun _ => .inl rfl, fun _ => ?_⟩
      have hcall : requestDownload x = .threw := by rw [requestDownload, hmaster, askMaster]
      rw [truthful_of_threw hcall]
      rintro ⟨_, _, _, ⟨p, hp, _⟩, _⟩
      rw [hmaster] at hp
      cases hp
  | some deliver =>
      rw [← hmaster, or_iff_right (by rw [hmaster]; nofun)]
      cases hanswer : answerOf x.master x.request with
      | none =>
          refine ⟨fun htruthful => ?_, by rintro ⟨p, hp, _⟩; cases hp⟩
          have hasked := askMaster_some deliver x.request (downloadAnswered x)
          rw [← hmaster, hanswer] at hasked
          have hends : (requestDownload x).Ends .normal [] := by
            rw [requestDownload, hasked]
            exact .returned
          obtain ⟨_, _, _, ⟨p, hp, _⟩, _⟩ := (htruthful.1 .normal [] hends).mp rfl
          rw [hanswer] at hp
          cases hp
      | some p =>
          have hcall := requestDownload_eq hanswer
          simp only [Option.some_inj, exists_eq_left']
          by_cases hwhat : p.whatGet = 0
          · refine ⟨fun _ => .inl hwhat, fun _ => ?_⟩
            rw [downloadAnswered, if_pos hwhat, processError] at hcall
            cases hack : readAck p with
            | none =>
                rw [hack] at hcall
                exact truthful_of_fault hcall
            | some ackCode =>
                rw [hack] at hcall
                rw [truthful_of_threw hcall]
                rintro ⟨_, _, _, ⟨p', hp', hwhat', _⟩, _⟩
                rw [hanswer, Option.some_inj] at hp'
                rw [← hp', hwhat] at hwhat'
                cases hwhat'
          rw [or_iff_right hwhat]
          cases hread : readDownPiecesLoc p with
          | none =>
              refine ⟨fun _ => .inl rfl, fun _ => truthful_of_fault ?_⟩
              rw [hcall, downloadAnswered, if_neg hwhat, hread]
          | some list =>
              obtain ⟨fsize, fid, stplist⟩ := list
              rw [or_iff_right (Option.some_ne_none _)]
              simp only [Option.some_inj, Prod.mk.injEq]
              have hlist : ∀ P : FsizeType → FidType → List StpField → Prop,
                  (∃ fsize' fid' stplist', (fsize = fsize' ∧ fid = fid' ∧ stplist = stplist') ∧
                    P fsize' fid' stplist') ↔ P fsize fid stplist := by
                intro P
                constructor
                · rintro ⟨_, _, _, ⟨rfl, rfl, rfl⟩, h⟩
                  exact h
                · intro h
                  exact ⟨_, _, _, ⟨rfl, rfl, rfl⟩, h⟩
              rw [hlist]
              by_cases hempty : stplist = []
              · rw [if_pos hempty]
                have hthrew : requestDownload x = .threw := by
                  rw [hcall, downloadAnswered, if_neg hwhat, hread]
                  dsimp only
                  rw [if_pos (List.length_eq_zero_iff.mpr hempty)]
                rw [truthful_of_threw hthrew, downloaded_nil_iff hanswer hread,
                  and_iff_left hempty]
              · rw [if_neg hempty]
                cases hfile : mappedFile x fsize with
                | none =>
                    have hthrew : requestDownload x = .threw := by
                      rw [hcall, downloadAnswered_eq hwhat hread hempty, hfile]
                    rw [truthful_of_threw hthrew, downloaded_nil_iff hanswer hread]
                    exact ⟨fun _ => nofun, fun _ h => hempty h.2⟩
                | some file =>
                    rw [truthful_mapped_iff hanswer hwhat hread hempty hfile rfl]
                    simp only [Option.mem_some_iff, forall_eq']

def corruptDownload : Download where
  filename := [0x61]
  master := some fun _ =>
    blockingSend (Master.downPiecesLocPacket 1 0 [⟨⟨List.Vector.replicate 16 0, 1⟩, 0⟩])
  available := some 1
  createEmptyFile _ size := some (createEmptyFile size)
  storages _ := some fun _ =>
    blockingSend (Storage.partDataPacket ⟨0, 0⟩ (List.Vector.replicate 20 0) [1])
  duration := 1

/-- A part that does not match its digest is written, acknowledged and counted. -/
theorem not_truthfulDownload_corrupt :
    ¬TruthfulDownload (fun _ => List.Vector.replicate 20 1) corruptDownload := by
  intro htruthful
  obtain ⟨p, hanswer, hwhat, hread⟩ : ∃ p,
      answerOf corruptDownload.master corruptDownload.request = some p ∧ p.whatGet ≠ 0 ∧
        readDownPiecesLoc p = some (1, 0, [⟨⟨List.Vector.replicate 16 0, 1⟩, 0⟩]) :=
    ⟨_, rfl, by decide, rfl⟩
  obtain ⟨q, hreply, hfromto, hpart⟩ : ∃ q,
      replyAt corruptDownload 0 [⟨⟨List.Vector.replicate 16 0, 1⟩, 0⟩] 0 = some q ∧
        q.fromtoGet = SC.fromto ∧
        readPartData q = some (⟨⟨0, 0⟩, List.Vector.replicate 20 0⟩, [1]) :=
    ⟨_, rfl, rfl, rfl⟩
  rw [truthful_mapped_iff hanswer hwhat hread nofun rfl rfl] at htruthful
  rcases htruthful.1 0 q hreply with hfaulty | ⟨-, field, hfield, -, upload, data, hpart', -, hsha1⟩
  · rcases hfaulty _ _ hpart with hwrite | hinverse
    · revert hwrite
      decide
    · rw [hfromto] at hinverse
      revert hinverse
      decide
  · rw [hpart, Option.some_inj, Prod.mk.injEq] at hpart'
    obtain ⟨rfl, rfl⟩ := hpart'
    revert hsha1
    decide

end Mp2p.Client
