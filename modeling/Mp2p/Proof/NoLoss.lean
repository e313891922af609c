import Mp2p.Proof.Sessions

/-!
# No acknowledged part is lost

Every step of clients, storages and master keeps what the sessions are at. The numbers the master
gives out are what keeps uploads apart, so all of it holds until the count of the files comes round.
-/

namespace Mp2p.System

open Masks Network

section NoLoss

variable {S : Type} {setup : S → Storage.Setup} {st : State DB.Record S}

theorem fidOf_upPiecesLocPacket (fid : FidType) (fields : List StpField) :
    fidOf (Master.upPiecesLocPacket fid fields) = some fid := by
  have h := Layout.overlay_image_append (MC.UpPiecesLoc.mk fid)
    ((Layout.imageList fields).take ((Layout.imageList fields).length % 2 ^ 32))
  rw [← payload_upPiecesLocPacket] at h
  obtain ⟨fid', hfid, heq⟩ := Option.map_eq_some_iff.mp h
  cases heq
  exact hfid

/-! ### The master -/

/-- **The master handles a packet.** -/
theorem Sound.master (h : Sound setup st) (r : Master.Request) {partAcks : List Packet}
    {answers : List (Client.File × Packet)}
    (hgiven : ∀ a ∈ answers,
      Given { st with master := Master.handle st.master r, partAcks, answers } a.2)
    (hdistinct : (answers.map fun a => fidOf a.2).Nodup)
    (htold : ∀ s partid, partid.fid.toNat < Master.uploads st.master → Told setup st s partid →
      Told setup { st with master := Master.handle st.master r, partAcks, answers } s partid) :
    Sound setup { st with master := Master.handle st.master r, partAcks, answers } := by
  have heffect := Master.effect_handle st.master r
  have hle := (Master.uploads_le_of_effect heffect).1
  obtain ⟨mof, hledger⟩ := h.ledger
  refine ⟨hledger.effect heffect, Master.valid_handle h.valid r, hgiven, hdistinct, ?_, h.apart, ?_,
    h.streams, ?_, h.consumed⟩
  · intro j task hj
    obtain ⟨hlt, hbounds⟩ := h.bounded j task hj
    exact ⟨hlt.trans_le hle, hbounds⟩
  · intro j task hj
    exact (h.phase j task hj).mono (fun _ _ hheld => hheld)
      (htold _ _ (h.bounded j task hj).1)
  · intro s p hp
    obtain ⟨j, task, part, hj, hstorage, hrange, hstored, htold'⟩ := h.acked s p hp
    exact ⟨j, task, part, hj, hstorage, hrange, hstored.mono fun _ hheld => hheld,
      htold _ _ (h.bounded j task hj).1 htold'⟩

theorem Sound.request (h : Sound setup st) (r : Master.Request) :
    Sound setup { st with master := Master.handle st.master r } := by
  have heffect := Master.effect_handle st.master r
  have hle := (Master.uploads_le_of_effect heffect).1
  refine h.master r ?_ h.distinct fun s partid _ htold => htold.imp_right fun hrecorded =>
    hrecorded.effect heffect
  intro a ha
  obtain ⟨fid, fields, hanswer, hlt, hparts, hfresh⟩ := h.given a ha
  exact ⟨fid, fields, hanswer, hlt.trans_le hle, hparts, hfresh⟩

theorem Sound.upload (h : Sound setup st) {r : Master.Request} {file : Client.File}
    {rdcy : RdcyType} {fname : Bytes} {answer : Packet}
    (hrequest : arrival (Client.upReqPacket file.size rdcy fname) = some r.packet)
    (hanswer : (Master.handle st.master r).sent = st.master.sent ++ [answer])
    (hwhat : answer.whatGet = MC.upPiecesLocW)
    (hfew : Master.uploads (Master.handle st.master r) ≤ 2 ^ 64) :
    Sound setup { st with
      master := Master.handle st.master r
      answers := (file, answer) :: st.answers } := by
  obtain ⟨huploads, mof, fields, hfiles, hparts, rfl⟩ :=
    exists_fields_of_answer h.valid hrequest hanswer hwhat
  obtain ⟨mof', hledger⟩ := h.ledger
  obtain rfl : mof' = mof := by
    have hsame := hledger.files
    rw [hfiles, Option.some_inj] at hsame
    cases hsame
    rfl
  have hcount : mof'.count.toNat = Master.uploads st.master := by
    rw [hledger.count, UInt64.toNat_ofNat', Nat.mod_eq_of_lt (by omega)]
  have hfresh {fid : FidType} (hlt : fid.toNat < Master.uploads st.master) : fid ≠ mof'.count := by
    rintro rfl
    omega
  have hle : Master.uploads st.master ≤ Master.uploads (Master.handle st.master r) := by omega
  refine h.master r ?_ ?_ fun s partid _ htold => htold.imp_right fun hrecorded =>
    hrecorded.effect (Master.effect_handle st.master r)
  · intro a ha
    obtain rfl | ha := List.mem_cons.mp ha
    · refine ⟨mof'.count, fields, rfl, ?_, hparts, fun task htask => ?_⟩
      · change _ < Master.uploads (Master.handle st.master r)
        omega
      obtain ⟨j, hj⟩ := List.mem_iff_getElem?.mp htask
      exact hfresh (h.bounded j task hj).1
    · obtain ⟨fid, fields', hanswer', hlt, hparts', htasks⟩ := h.given a ha
      exact ⟨fid, fields', hanswer', hlt.trans_le hle, hparts', htasks⟩
  · rw [List.map_cons, List.nodup_cons]
    refine ⟨fun hmem => ?_, h.distinct⟩
    obtain ⟨a, ha, heq⟩ := List.mem_map.mp hmem
    obtain ⟨fid, fields', hanswer', hlt, -⟩ := h.given a ha
    rw [hanswer', fidOf_upPiecesLocPacket, fidOf_upPiecesLocPacket, Option.some_inj] at heq
    exact hfresh hlt heq

theorem Sound.deliver (h : Sound setup st) {packet : Packet} {rest : List Packet}
    {r : Master.Request} (hpartAcks : st.partAcks.Perm (packet :: rest))
    (harrival : arrival packet = some r.packet) :
    Sound setup { st with master := Master.handle st.master r, partAcks := rest } := by
  have heffect := Master.effect_handle st.master r
  have hle := (Master.uploads_le_of_effect heffect).1
  obtain ⟨mof, hledger⟩ := h.ledger
  refine h.master r ?_ h.distinct ?_
  · intro a ha
    obtain ⟨fid, fields, hanswer, hlt, hparts, hfresh⟩ := h.given a ha
    exact ⟨fid, fields, hanswer, hlt.trans_le hle, hparts, hfresh⟩
  · intro s partid hlt htold
    obtain hmem | hrecorded := htold
    · obtain rfl | hmem := List.mem_cons.mp (hpartAcks.mem_iff.mp hmem)
      · exact .inr (recorded_of_partAck hledger hlt harrival)
      · exact .inl hmem
    · exact .inr (hrecorded.effect heffect)

/-! ### New tasks -/

section Starting

variable {listener : ℕ → S} {file : Client.File} {fid : FidType} {stplist : List StpField}
  {tasks : List (Task S)} {k : ℕ} {task : Task S}

theorem getElem?_startTasks (h : (startTasks listener file fid stplist)[k]? = some task) :
    ∃ range, (Client.partRanges (Client.totalParts stplist) stplist)[k]? = some range ∧
      task = Task.begin (listener k) fid file (Client.totalParts stplist) range := by
  rw [startTasks, List.getElem?_mapIdx] at h
  obtain ⟨range, hrange, rfl⟩ := Option.map_eq_some_iff.mp h
  exact ⟨range, hrange, rfl⟩

theorem exists_begin (h : task ∈ startTasks listener file fid stplist) :
    ∃ s, ∃ range ∈ Client.partRanges (Client.totalParts stplist) stplist,
      task = Task.begin s fid file (Client.totalParts stplist) range := by
  obtain ⟨k, hk⟩ := List.mem_iff_getElem?.mp h
  obtain ⟨range, hrange, rfl⟩ := getElem?_startTasks hk
  exact ⟨listener k, range, List.mem_of_getElem? hrange, rfl⟩

/-- A task was there before, or is one of the upload. -/
theorem getElem?_append_startTasks
    (h : (tasks ++ startTasks listener file fid stplist)[k]? = some task) :
    tasks[k]? = some task ∨ tasks.length ≤ k ∧ ∃ range,
      (Client.partRanges (Client.totalParts stplist) stplist)[k - tasks.length]? = some range ∧
        task = Task.begin (listener (k - tasks.length)) fid file (Client.totalParts stplist)
          range := by
  obtain hlt | hge := Nat.lt_or_ge k tasks.length
  · rw [List.getElem?_append_left hlt] at h
    exact .inl h
  · rw [List.getElem?_append_right hge] at h
    exact .inr ⟨hge, getElem?_startTasks h⟩

theorem Holds.start {answers : List (Client.File × Packet)} {s : S} {partid : PartId} {data : Bytes}
    (h : Holds setup st s partid data) :
    Holds setup { st with answers, tasks := st.tasks ++ startTasks listener file fid stplist } s
      partid data := by
  refine h.append rfl rfl fun task htask => ?_
  obtain ⟨_, _, -, rfl⟩ := exists_begin htask
  rfl

end Starting

theorem phase_begin (s : S) (fid : FidType) (file : Client.File) (totalParts : ℕ)
    (range : ℕ × ℕ) : Phase setup st (Task.begin s fid file totalParts range) := by
  refine .resting rfl ⟨rfl, rfl⟩ ⟨?_, fun _ => rfl, fun _ => rfl⟩
  intro p program hsome
  cases hsome

/-- The ranges of two tasks of one upload. -/
theorem apart_of_partRanges {parts : ℕ} {stplist : List StpField} {j k : ℕ} {range range' : ℕ × ℕ}
    (hj : (Client.partRanges parts stplist)[j]? = some range)
    (hk : (Client.partRanges parts stplist)[k]? = some range') (hne : j ≠ k) :
    range.2 ≤ range'.1 ∨ range'.2 ≤ range.1 := by
  have hpairwise := List.pairwise_iff_getElem.mp (Client.pairwise_partRanges parts stplist)
  obtain ⟨hjlt, rfl⟩ := List.getElem?_eq_some_iff.mp hj
  obtain ⟨hklt, rfl⟩ := List.getElem?_eq_some_iff.mp hk
  obtain hlt | hgt := Nat.lt_or_gt_of_ne hne
  · exact .inr (hpairwise j k hjlt hklt hlt)
  · exact .inl (hpairwise k j hklt hjlt hgt)

/-- **An upload starts.** Its number is of no other task. -/
theorem Sound.start (h : Sound setup st) {file : Client.File} {answer p : Packet}
    {answers : List (Client.File × Packet)} (listener : ℕ → S) {fid : FidType}
    {stplist : List StpField} (hanswers : st.answers.Perm ((file, answer) :: answers))
    (harrival : arrival answer = some p)
    (hread : Client.readUpPiecesLoc p = some (fid, stplist)) :
    Sound setup { st with
      answers
      tasks := st.tasks ++ startTasks listener file fid stplist } := by
  have hsub {a : Client.File × Packet} (ha : a ∈ answers) : a ∈ st.answers :=
    hanswers.mem_iff.mpr (List.mem_cons_of_mem _ ha)
  have hdistinct := (hanswers.map fun a => fidOf a.2).nodup_iff.mp h.distinct
  rw [List.map_cons, List.nodup_cons] at hdistinct
  obtain ⟨fid', fields, hanswer, hlt, hparts, hfresh⟩ :=
    h.given _ (hanswers.mem_iff.mpr List.mem_cons_self)
  subst hanswer
  obtain ⟨rfl, hprefix⟩ := upPiecesLoc_of_arrival harrival hread
  have htotal := (totalParts_le_of_isPrefix hprefix).trans_lt hparts
  have hold {k : ℕ} {task : Task S} (hk : st.tasks[k]? = some task) :
      (st.tasks ++ startTasks listener file fid stplist)[k]? = some task := by
    rw [List.getElem?_append_left (List.getElem?_eq_some_iff.mp hk).1, hk]
  refine ⟨h.ledger, h.valid, ?_, hdistinct.2, ?_, ?_, ?_, ?_, ?_, h.consumed⟩
  · intro a ha
    obtain ⟨fid', fields', hanswer', hlt', hparts', hfresh'⟩ := h.given a (hsub ha)
    refine ⟨fid', fields', hanswer', hlt', hparts', fun task htask => ?_⟩
    obtain htask | htask := List.mem_append.mp htask
    · exact hfresh' task htask
    · obtain ⟨_, _, -, rfl⟩ := exists_begin htask
      change fid ≠ fid'
      rintro rfl
      apply hdistinct.1
      refine List.mem_map.mpr ⟨a, ha, ?_⟩
      rw [hanswer', fidOf_upPiecesLocPacket, fidOf_upPiecesLocPacket]
  · intro k task hk
    obtain hk | ⟨-, range, hrange, rfl⟩ := getElem?_append_startTasks hk
    · exact h.bounded k task hk
    · have hle := Client.snd_le_of_mem_partRanges (List.mem_of_getElem? hrange)
      exact ⟨hlt, le_rfl, hle.trans_lt htotal⟩
  · intro j k task task' hj hk hne hfid
    obtain hj | ⟨hjge, range, hrange, rfl⟩ := getElem?_append_startTasks hj
    · obtain hk | ⟨-, range', -, rfl⟩ := getElem?_append_startTasks hk
      · exact h.apart j k task task' hj hk hne hfid
      · exact absurd hfid (hfresh task (List.mem_of_getElem? hj))
    · obtain hk | ⟨hkge, range', hrange', rfl⟩ := getElem?_append_startTasks hk
      · exact absurd hfid.symm (hfresh task' (List.mem_of_getElem? hk))
      · exact apart_of_partRanges hrange hrange' (by omega)
  · intro k task hk
    obtain hk | ⟨-, range, -, rfl⟩ := getElem?_append_startTasks hk
    · exact (h.phase k task hk).mono (fun _ _ hheld => hheld.start) id
    · exact phase_begin ..
  · intro k task stream hk hopen
    obtain hk | ⟨-, range, -, rfl⟩ := getElem?_append_startTasks hk
    · exact h.streams k task stream hk hopen
    · cases hopen
  · intro s p hp
    obtain ⟨j, task, part, hj, hstorage, hrange, hstored, htold⟩ := h.acked s p hp
    exact ⟨j, task, part, hold hj, hstorage, hrange, hstored.mono fun _ hheld => hheld.start, htold⟩

/-! ### Any step and any run -/

theorem sound_start (directory : S → Storage.Directory) :
    Sound setup (State.start directory) where
  ledger := ⟨_, ledger_initial⟩
  valid := fun hcached => nomatch hcached
  given := fun _ ha => nomatch ha
  distinct := List.nodup_nil
  bounded := fun _ _ hj => nomatch hj
  apart := fun _ _ _ _ hj => nomatch hj
  phase := fun _ _ hj => nomatch hj
  streams := fun _ _ _ hj => nomatch hj
  acked := fun _ _ hp => nomatch hp
  consumed := fun _ _ hanswered => nomatch hanswered

/-- The master is told of what was acknowledged, or has recorded it. -/
theorem Sound.told (h : Sound setup st) {s : S} {p : Packet} (hp : (s, p) ∈ st.acked) :
    ∃ part data, Storage.readUpAct p = some (part, data) ∧ Told setup st s part.partid := by
  obtain ⟨-, task, part, -, -, -, ⟨upload, data, hread, hpartid, -⟩, htold⟩ := h.acked s p hp
  exact ⟨upload, data, hread, hpartid ▸ htold⟩

/-- The file of what was acknowledged has all of it, nothing is left in a stream. -/
def Durable (setup : S → Storage.Setup) (st : State DB.Record S) : Prop :=
  ∀ s p, (s, p) ∈ st.acked → ∃ part data, Storage.readUpAct p = some (part, data) ∧
    Storage.Checks (setup s) part data ∧
    (st.directory s).lookup (Storage.uploadPath (setup s) part.partid) = some data

theorem Sound.kept (h : Sound setup st) (hdurable : Durable setup st) : Kept setup st where
  held := hdurable
  told := fun _ _ hp => h.told hp
  answers := h.consumed

/-! ### What is in the files -/

section Durable

variable {st' : State DB.Record S} {j : ℕ} {task : Task S} {p : Packet}

theorem Durable.of_lookup (h : Durable setup st)
    (hacked : ∀ s p, (s, p) ∈ st'.acked → (s, p) ∈ st.acked)
    (hlookup : ∀ s p part data, (s, p) ∈ st.acked → Storage.readUpAct p = some (part, data) →
      (st.directory s).lookup (Storage.uploadPath (setup s) part.partid) = some data →
      (st'.directory s).lookup (Storage.uploadPath (setup s) part.partid) = some data) :
    Durable setup st' := by
  intro s p hp
  obtain ⟨part, data, hread, hchecks, hdata⟩ := h s p (hacked s p hp)
  exact ⟨part, data, hread, hchecks, hlookup s p part data (hacked s p hp) hread hdata⟩

/-- The part a task is at is not acknowledged while nothing of the task is on its way back. -/
theorem Sound.partid_ne_of_acked (h : Sound setup st) (hfound : st.tasks[j]? = some task)
    (hlt : task.i < task.endId) (hserved : task.served = task.i) {s : S}
    (hp : (s, p) ∈ st.acked) {part : CS.UpAct} {data : Bytes}
    (hread : Storage.readUpAct p = some (part, data)) : part.partid ≠ task.partid task.i := by
  obtain ⟨k, owner, n, hk, -, ⟨hlow, hhigh, hbehind⟩, ⟨upload, data', hread', hpartid, -⟩, -⟩ :=
    h.acked s p hp
  rw [hread, Option.some_inj, Prod.mk.injEq] at hread'
  rw [hread'.1, hpartid]
  have hbounded := h.bounded j task hfound
  intro heq
  by_cases hkj : k = j
  · subst hkj
    rw [hfound, Option.some_inj] at hk
    subst hk
    have := partid_injective task (by omega) (by omega) heq
    omega
  · exact h.partid_ne hk hfound hkj ⟨hlow, hhigh⟩ ⟨hbounded.2.1, hlt⟩ heq

variable [DecidableEq S]

/-- A handler that ends writes no more than what was to be in the file. -/
theorem Durable.leave (h : Durable setup st) (hsound : Sound setup st)
    (hfound : st.tasks[j]? = some task) (closed : Bool) :
    Durable setup (st.leave j task closed) := by
  refine h.of_lookup (fun _ _ => id) fun s p part data hp hread hdata => ?_
  rw [State.leave]
  cases hstream : task.stream with
  | none => exact hdata
  | some stream =>
      change AList.lookup _ (Function.update st.directory task.storage _ s) = _
      by_cases hs : task.storage = s
      · subst hs
        rw [Function.update_self]
        by_cases hpath : Storage.uploadPath (setup task.storage) part.partid = stream.path
        · obtain ⟨k, owner, n, hk, howner, ⟨hlow, hhigh, -⟩, ⟨upload, data', hread', hpartid, -,
            contents, hcontents, hheld⟩, -⟩ := hsound.acked task.storage p hp
          rw [hread, Option.some_inj, Prod.mk.injEq] at hread'
          obtain ⟨rfl, rfl⟩ := hread'
          rw [← hpartid, hpath] at hcontents hheld
          have hwrites : Writes st task.storage stream.path stream :=
            ⟨j, task, hfound, rfl, hstream, rfl⟩
          obtain ⟨hnone, -⟩ | ⟨stream', hwrites', hoffset, hrest⟩ := hheld
          · exact absurd hwrites (hnone stream)
          · have hopen {stream' : Stream} (hw : Writes st task.storage stream.path stream') :
                owner.stream = some stream' := by
              rw [← hpath, hpartid, ← howner] at hw
              exact hsound.stream_of_writes hk ⟨hlow, hhigh⟩ hw
            obtain rfl := Option.some_inj.mp ((hopen hwrites).symm.trans (hopen hwrites'))
            rw [hpath]
            exact lookup_close hcontents hoffset hrest
        · rwa [lookup_close_ne hpath]
      · rwa [Function.update_of_ne (Ne.symm hs)]

/-- A command: the part a task is at is written, or acknowledged with nothing left in the stream. -/
theorem Durable.perform (h : Durable setup st) (hsound : Sound setup st) (flushed : ℕ)
    {command : Storage.Command} {next : command.Answer → Storage.Handler KeepAlive}
    (hfound : st.tasks[j]? = some task) (hhandling : task.handling = some (p, .op command next))
    (hprompt : ∀ message, command = .send .client message →
      ∀ stream, task.stream = some stream → stream.rest = []) :
    Durable setup (st.perform j task p flushed command next) := by
  obtain ⟨last, hat⟩ := (hsound.phase j task hfound).of_op hfound hhandling
  have hstage := hat.stage
  generalize hprogram : Program.op command next = program at hstage
  generalize task.stream = stream at hstage
  cases hstage with
  | threw _ e => cases hprogram
  | refused _ code hcode =>
      cases hprogram
      refine h.of_lookup (fun s p' hp => ?_) fun _ _ _ _ _ _ hdata => hdata
      rwa [State.perform, if_neg fun hack => hcode ((isSuccess_ackPacket _ _).mp hack)] at hp
  | checked env part data hread hpartid hchecks =>
      cases hprogram
      refine h.of_lookup (fun _ _ => id) fun s p' part' data' hp hread' hdata => ?_
      have hne := hsound.partid_ne_of_acked hfound hat.awaits.lt hat.served_eq hp hread'
      change AList.lookup _ (Function.update st.directory task.storage _ s) = _
      by_cases hs : s = task.storage
      · subst hs
        rwa [Function.update_self,
          AList.lookup_insert_ne fun hpath => hne (Storage.uploadPath_injective _ hpath)]
      · rwa [Function.update_of_ne hs]
  | stored _ env hstored =>
      rw [telling] at hprogram
      split_ifs at hprogram
      cases hprogram
      exact h.of_lookup (fun _ _ => id) fun _ _ _ _ _ _ hdata => hdata
  | told _ hstored htold =>
      cases hprogram
      intro s p' hp
      rw [State.perform, if_pos ((isSuccess_ackPacket _ _).mpr rfl)] at hp
      obtain heq | hp := List.mem_cons.mp hp
      · cases heq
        obtain ⟨part, data, hread, hpartid, hchecks, contents, hcontents, hheld⟩ := hstored
        refine ⟨part, data, hread, hchecks, ?_⟩
        rw [hpartid]
        obtain ⟨-, rfl⟩ | ⟨stream', hwrites, -, hrest⟩ := hheld
        · exact hcontents
        · have hlow := (hsound.bounded j task hfound).2.1
          have hopen := hsound.stream_of_writes hfound ⟨hlow, hat.awaits.lt⟩ hwrites
          rw [hprompt _ rfl stream' hopen, List.append_nil] at hrest
          rwa [← hrest]
      · exact h s p' hp

end Durable

variable [DecidableEq S] {hashBufferHex : Bytes → Sha1Type} {terms : Terms}

theorem uploads_le_of_step {st' : State DB.Record S}
    (hstep : Step hashBufferHex setup terms st st') :
    Master.uploads st.master ≤ Master.uploads st'.master := by
  have hhandle (r : Master.Request) :
      Master.uploads st.master ≤ Master.uploads (Master.handle st.master r) :=
    (Master.uploads_le_of_effect (Master.effect_handle st.master r)).1
  cases hstep with
  | request r => exact hhandle r
  | upload r => exact hhandle r
  | deliver _ _ r => exact hhandle r
  | perform j task p flushed command next => cases command with
    | read path => exact le_rfl
    | write path data => exact le_rfl
    | send peer message => cases peer <;> exact le_rfl
  | _ => exact le_rfl

/-- **One step.** -/
theorem Sound.step (h : Sound setup st) {st' : State DB.Record S}
    (hstep : Step hashBufferHex setup terms st st')
    (hfew : Master.uploads st'.master ≤ 2 ^ 64) : Sound setup st' := by
  cases hstep with
  | request r => exact h.request r
  | upload r file rdcy fname answer hterms hrequest hanswer hwhat =>
      exact h.upload hrequest hanswer hwhat hfew
  | start file answer p answers listener fid stplist hanswers harrival hread =>
      exact h.start listener hanswers harrival hread
  | send j task toSend htask hready hlt hpacket =>
      have hphase := (h.phase j task htask).send hready.1 hlt hpacket
      exact h.advance
        (advances_of_phase htask hphase ⟨rfl, rfl, rfl, rfl⟩ rfl le_rfl le_rfl fun _ _ => .inl)
  | receive j task packet p rest env htask hidle hpacket harrival henv =>
      have hphase := (h.phase j task htask).receive hidle hpacket harrival henv
      exact h.advance
        (advances_of_phase htask hphase ⟨rfl, rfl, rfl, rfl⟩ rfl le_rfl le_rfl fun _ _ => .inl)
  | perform j task p flushed command next htask hhandling =>
      obtain ⟨last, hcommand⟩ := (h.phase j task htask).of_op htask hhandling
      obtain ⟨task', hadvances⟩ := hcommand.perform flushed
      exact h.advance hadvances
  | finish j task p keepAlive htask hhandling =>
      exact h.advance (h.advances_leave htask ((h.phase j task htask).finish hhandling))
  | fail j task p e htask hhandling =>
      exact h.advance (h.advances_leave htask ((h.phase j task htask).fail hhandling))
  | deliver packet rest r hterms hpartAcks harrival => exact h.deliver hpartAcks harrival
  | consume j task ack answered p last rest htask hwaiting hlast hack haccepted =>
      have hphase := h.phase j task htask
      exact h.advance (hphase.consume htask hlast hack)
  | refuse j task ack answered p rest htask hwaiting hack hthrew =>
      have hphase := h.phase j task htask
      exact h.advance (hphase.refuse htask hack hthrew)
  | lose j task htask hwaiting hclosed =>
      have hphase := (h.phase j task htask).lose hwaiting hclosed
      refine h.advance
        (advances_of_phase htask hphase ⟨rfl, rfl, rfl, rfl⟩ rfl (Nat.le_succ _) ?_
          fun _ _ => .inl)
      exact Nat.add_le_add_right (Nat.le_succ _) _

/-- In a run in which nothing is left in a stream when its part is acknowledged. -/
theorem Durable.step (h : Durable setup st) (hsound : Sound setup st) (hprompt : terms.prompt)
    {st' : State DB.Record S} (hstep : Step hashBufferHex setup terms st st') :
    Durable setup st' := by
  cases hstep with
  | perform j task p flushed command next htask hhandling hflushed =>
      exact h.perform hsound flushed htask hhandling (hflushed hprompt)
  | finish j task p keepAlive htask => exact h.leave hsound htask _
  | fail j task p e htask => exact h.leave hsound htask _
  | _ => exact h

/-- **Any run.** -/
theorem sound_of_reachable {directory : S → Storage.Directory}
    (h : Reachable hashBufferHex setup terms directory st)
    (hfew : Master.uploads st.master ≤ 2 ^ 64) : Sound setup st := by
  induction h with
  | refl => exact sound_start directory
  | tail _ hstep ih => exact (ih ((uploads_le_of_step hstep).trans hfew)).step hstep hfew

theorem durable_of_reachable {directory : S → Storage.Directory}
    (h : Reachable hashBufferHex setup terms directory st) (hprompt : terms.prompt)
    (hfew : Master.uploads st.master ≤ 2 ^ 64) : Durable setup st := by
  induction h with
  | refl => exact fun _ _ hp => nomatch hp
  | tail hrun hstep ih =>
      have hfew' := (uploads_le_of_step hstep).trans hfew
      exact (ih hfew').step (sound_of_reachable hrun hfew') hprompt hstep

end NoLoss

end Mp2p.System
