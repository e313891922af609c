import Mp2p.Proof.EndToEnd
import Mp2p.Proof.Progress

/-!
# What a finished upload has come to

A session that was never closed has had every part behind the task acknowledged. So when nothing is
left to do, an upload of which no session was closed is complete: its file can be downloaded.
-/

namespace Mp2p.System

open Masks Network DB Master Texts

section Finished

variable {S : Type} {hashBufferHex : Bytes → Sha1Type} {setup : S → Storage.Setup}
  {terms : Terms} {st st' : State Record S}

def Served (st : State Record S) (task : Task S) (part : ℕ) : Prop :=
  ∃ p upload data, (task.storage, p) ∈ st.acked ∧ Storage.readUpAct p = some (upload, data) ∧
    upload.partid = task.partid part

/-- What is behind an open session was acknowledged, and every part of an upload is of one of its
tasks. -/
structure Backed (st : State Record S) : Prop where
  acked : ∀ task ∈ st.tasks, task.closed = false → ∀ part, task.beginId ≤ part →
    part < task.served → Served st task part
  covered : ∀ task ∈ st.tasks, ∀ part < task.totalParts, ∃ task' ∈ st.tasks,
    task'.fid = task.fid ∧ task'.beginId ≤ part ∧ part < task'.endId

section Set

variable {j : ℕ} {task task' : Task S}

theorem Served.mono {part : ℕ} (h : Served st task part)
    (hsame : task'.storage = task.storage ∧ task'.fid = task.fid)
    (hacked : ∀ a ∈ st.acked, a ∈ st'.acked) : Served st' task' part := by
  obtain ⟨p, upload, data, hmem, hread, hpartid⟩ := h
  refine ⟨p, upload, data, ?_, hread, ?_⟩
  · rw [hsame.1]
    exact hacked _ hmem
  · rw [hpartid, Task.partid, Task.partid, hsame.2]

/-- A task goes on with the same share. -/
theorem Backed.set (h : Backed st) (hfound : st.tasks[j]? = some task)
    (htasks : st'.tasks = st.tasks.set j task') (hacked : ∀ a ∈ st.acked, a ∈ st'.acked)
    (hsame : task'.fid = task.fid ∧ task'.totalParts = task.totalParts ∧
      task'.beginId = task.beginId ∧ task'.endId = task.endId)
    (hserved : task'.closed = false → ∀ part, task'.beginId ≤ part → part < task'.served →
      Served st' task' part) : Backed st' := by
  obtain ⟨hfid, htotal, hbegin, hend⟩ := hsame
  have hmem := List.mem_of_getElem? hfound
  have hnew : task' ∈ st'.tasks := by
    rw [htasks]
    exact List.mem_of_getElem? (List.getElem?_set_self (List.getElem?_eq_some_iff.mp hfound).1)
  have hold {other : Task S} (hother : other ∈ st'.tasks) :
      other = task' ∨ other ∈ st.tasks := by
    rw [htasks] at hother
    exact (List.mem_or_eq_of_mem_set hother).symm
  -- The tasks before have their shares in the new list.
  have hshare {other : Task S} (hother : other ∈ st.tasks) : ∃ other' ∈ st'.tasks,
      other'.fid = other.fid ∧ other'.beginId = other.beginId ∧ other'.endId = other.endId := by
    obtain ⟨k, hk⟩ := List.mem_iff_getElem?.mp hother
    by_cases hkj : j = k
    · subst hkj
      rw [hfound, Option.some_inj] at hk
      subst hk
      exact ⟨task', hnew, hfid, hbegin, hend⟩
    · refine ⟨other, ?_, rfl, rfl, rfl⟩
      rw [htasks]
      exact List.mem_of_getElem? (i := k) (by rw [List.getElem?_set_ne hkj, hk])
  refine ⟨fun other hother hopen part hlow hlt => ?_, fun other hother part hpart => ?_⟩
  · obtain rfl | hother := hold hother
    · exact hserved hopen part hlow hlt
    · exact (h.acked other hother hopen part hlow hlt).mono ⟨rfl, rfl⟩ hacked
  · have hcovered : ∃ owner ∈ st.tasks, owner.fid = other.fid ∧ owner.beginId ≤ part ∧
        part < owner.endId := by
      obtain rfl | hother := hold hother
      · rw [hfid]
        exact h.covered task hmem part (htotal ▸ hpart)
      · exact h.covered other hother part hpart
    obtain ⟨owner, howner, hownerFid, hlow, hhigh⟩ := hcovered
    obtain ⟨owner', hmem', hfid', hbegin', hend'⟩ := hshare howner
    exact ⟨owner', hmem', hfid'.trans hownerFid, hbegin' ▸ hlow, hend' ▸ hhigh⟩

/-- A task goes on, and its session is as open and its part as far as before. -/
theorem Backed.move (h : Backed st) (hfound : st.tasks[j]? = some task)
    (htasks : st'.tasks = st.tasks.set j task') (hacked : st'.acked = st.acked)
    (hsame : task'.fid = task.fid ∧ task'.totalParts = task.totalParts ∧
      task'.beginId = task.beginId ∧ task'.endId = task.endId)
    (hstorage : task'.storage = task.storage)
    (hserved : task'.closed = false → task.closed = false ∧ task'.served ≤ task.served) :
    Backed st' := by
  refine h.set hfound htasks (fun a ha => hacked ▸ ha) hsame fun hopen part hlow hlt => ?_
  obtain ⟨hopen, hle⟩ := hserved hopen
  refine (h.acked task (List.mem_of_getElem? hfound) hopen part (hsame.2.2.1 ▸ hlow)
    (hlt.trans_le hle)).mono ⟨hstorage, hsame.1⟩ fun a ha => hacked ▸ ha

end Set

theorem Phase.open_of_handling {task : Task S} (h : Phase setup st task) {p : Packet}
    {program : Storage.Handler KeepAlive} (hhandling : task.handling = some (p, program)) :
    task.closed = false := by
  rw [← Bool.not_eq_true]
  intro hclosed
  have hnone : task.handling = none := by
    cases h with
    | resting _ _ hidle => exact hidle.closed hclosed
    | broken _ hnone => exact hnone
    | sent _ _ _ hidle => exact hidle.closed hclosed
    | handled _ _ _ _ _ _ _ hopen =>
        rw [hopen] at hclosed
        cases hclosed
    | answered _ _ _ _ _ _ hidle => exact hidle.closed hclosed
  rw [hnone] at hhandling
  cases hhandling

/-- An upload starts. -/
theorem Backed.start (h : Backed st) {answers : List (Client.File × Packet)} (listener : ℕ → S)
    (file : Client.File) (fid : FidType) (stplist : List StpField) :
    Backed { st with answers, tasks := st.tasks ++ startTasks listener file fid stplist } := by
  refine ⟨fun task htask hopen part hlow hlt => ?_, fun task htask part hpart => ?_⟩
  · obtain htask | htask := List.mem_append.mp htask
    · exact (h.acked task htask hopen part hlow hlt).mono ⟨rfl, rfl⟩ fun _ => id
    · obtain ⟨_, _, -, rfl⟩ := exists_begin htask
      exact absurd hlt (Nat.not_lt.mpr hlow)
  · obtain htask | htask := List.mem_append.mp htask
    · obtain ⟨owner, howner, hshare⟩ := h.covered task htask part hpart
      exact ⟨owner, List.mem_append_left _ howner, hshare⟩
    · obtain ⟨_, _, -, rfl⟩ := exists_begin htask
      obtain ⟨range', hrange', hlow, hhigh⟩ := Client.exists_range hpart
      obtain ⟨k', hk'⟩ := List.mem_iff_getElem?.mp hrange'
      refine ⟨Task.begin (listener k') fid file (Client.totalParts stplist) range',
        List.mem_append_right _ (List.mem_of_getElem? (i := k') ?_), rfl, hlow, hhigh⟩
      rw [startTasks, List.getElem?_mapIdx, hk', Option.map_some]

/-- What is acknowledged with success is stored. -/
theorem Stage.stored_of_success {s : S} {partid : PartId} {p message : Packet}
    {stream : Option Stream} {program : Storage.Handler KeepAlive}
    {next : Unit → Storage.Handler KeepAlive}
    (h : Stage setup st s partid p stream program)
    (hprogram : program = .op (.send .client message) next)
    (hsuccess : IsSuccess message) : Stored setup st s partid p := by
  cases h with
  | threw _ e => cases hprogram
  | checked env part data => cases hprogram
  | refused _ code hcode =>
      cases hprogram
      exact absurd ((isSuccess_ackPacket _ _).mp hsuccess) hcode
  | stored _ env hstored => exact hstored
  | told _ hstored => exact hstored

variable [DecidableEq S]

/-- A command: only an answer that is a success gets the task further. -/
theorem Backed.perform (h : Backed st) (hsound : Sound setup st) {j flushed : ℕ} {task : Task S}
    (hfound : st.tasks[j]? = some task) {p : Packet} {command : Storage.Command}
    {next : command.Answer → Storage.Handler KeepAlive}
    (hhandling : task.handling = some (p, .op command next)) :
    Backed (st.perform j task p flushed command next) := by
  obtain ⟨last, hat⟩ := (hsound.phase j task hfound).of_op hfound hhandling
  cases command with
  | read path => exact h.move hfound rfl rfl ⟨rfl, rfl, rfl, rfl⟩ rfl fun hopen => ⟨hopen, le_rfl⟩
  | write path data =>
      exact h.move hfound rfl rfl ⟨rfl, rfl, rfl, rfl⟩ rfl fun hopen => ⟨hopen, le_rfl⟩
  | send peer message =>
    cases peer with
    | master => exact h.move hfound rfl rfl ⟨rfl, rfl, rfl, rfl⟩ rfl fun hopen => ⟨hopen, le_rfl⟩
    | client =>
        have hserved : task.served = task.i := by
          rw [Task.served, hat.empty.2]
          rfl
        have hacked (a : S × Packet) (ha : a ∈ st.acked) :
            a ∈ (st.perform j task p flushed (.send .client message) next).acked := by
          change a ∈ if IsSuccess message then (task.storage, p) :: st.acked else st.acked
          split_ifs
          · exact List.mem_cons_of_mem _ ha
          · exact ha
        refine h.set hfound rfl hacked ⟨rfl, rfl, rfl, rfl⟩ fun hopen part hlow hlt => ?_
        obtain hbefore | hnow := Nat.lt_or_ge part task.served
        · exact (h.acked task (List.mem_of_getElem? hfound) hopen part hlow hbefore).mono
            ⟨rfl, rfl⟩ hacked
        · -- The part the task is at, which the storage has just acknowledged.
          have hcount : part < task.i + [(message, p)].countP fun a => IsSuccess a.1 := by
            change part < task.i + (task.toClient ++ [(message, p)]).countP _ at hlt
            rwa [hat.empty.2, List.nil_append] at hlt
          rw [hserved] at hnow
          by_cases hsuccess : IsSuccess message
          · obtain rfl : part = task.i := by
              have := List.countP_le_length (p := fun a => decide (IsSuccess a.1)) (l := [(message, p)])
              rw [List.length_singleton] at this
              omega
            obtain ⟨upload, data, hread, hpartid, -⟩ := hat.stage.stored_of_success rfl hsuccess
            refine ⟨p, upload, data, ?_, hread, hpartid⟩
            change _ ∈ if IsSuccess message then (task.storage, p) :: st.acked else st.acked
            rw [if_pos hsuccess]
            exact List.mem_cons_self
          · rw [List.countP_cons_of_neg (by simpa using hsuccess), List.countP_nil] at hcount
            omega

/-- **One step.** -/
theorem Backed.step (h : Backed st) (hsound : Sound setup st)
    (hstep : Step hashBufferHex setup terms st st') : Backed st' := by
  cases hstep with
  | request r => exact ⟨h.acked, h.covered⟩
  | upload r => exact ⟨h.acked, h.covered⟩
  | deliver packet rest r => exact ⟨h.acked, h.covered⟩
  | start file answer p answers listener fid stplist => exact h.start listener file fid stplist
  | perform j task p flushed command next htask hhandling => exact h.perform hsound htask hhandling
  | send j task toSend htask =>
      exact h.move htask rfl rfl ⟨rfl, rfl, rfl, rfl⟩ rfl fun hopen => ⟨hopen, le_rfl⟩
  | receive j task packet p rest env htask =>
      exact h.move htask rfl rfl ⟨rfl, rfl, rfl, rfl⟩ rfl fun hopen => ⟨hopen, le_rfl⟩
  | finish j task p keepAlive htask hhandling =>
      have hopen := (hsound.phase j task htask).open_of_handling hhandling
      exact h.move htask rfl rfl ⟨rfl, rfl, rfl, rfl⟩ rfl fun _ => ⟨hopen, le_rfl⟩
  | fail j task p e htask =>
      exact h.move htask rfl rfl ⟨rfl, rfl, rfl, rfl⟩ rfl nofun
  | consume j task ack answered p last rest htask hwaiting hlast hack haccepted =>
      refine h.move htask rfl rfl ⟨rfl, rfl, rfl, rfl⟩ rfl fun hopen => ⟨hopen, ?_⟩
      have hsuccess : IsSuccess ack := ⟨p, haccepted⟩
      change task.i + 1 + rest.countP _ ≤ task.i + task.toClient.countP _
      rw [hack, List.countP_cons_of_pos (by simpa using hsuccess)]
      omega
  | refuse j task ack answered p rest htask hwaiting hack =>
      refine h.move htask rfl rfl ⟨rfl, rfl, rfl, rfl⟩ rfl fun hopen => ⟨hopen, ?_⟩
      change task.i + rest.countP _ ≤ task.i + task.toClient.countP _
      rw [hack]
      exact Nat.add_le_add_left (List.Sublist.countP_le (List.sublist_cons_self _ _)) _
  | lose j task htask hwaiting hclosed =>
      refine h.move htask rfl rfl ⟨rfl, rfl, rfl, rfl⟩ rfl fun hopen => ?_
      exact absurd (hclosed.2.symm.trans hopen) Bool.noConfusion

end Finished

/-! ### Sessions that fail -/

section Failing

variable {S : Type} {hashBufferHex : Bytes → Sha1Type} {setup : S → Storage.Setup}
  {terms : Terms} {st st' : State Record S}

inductive Doomed : Storage.Handler KeepAlive → Prop where
  | throw (e : Storage.Halt) : Doomed (.throw e)
  | refuse (code : ErrorCode) (hcode : code ≠ .success) : Doomed (answering code .no)
  | close : Doomed (.pure .no)

def Task.Failing (task : Task S) : Prop :=
  task.closed = true ∨ ∃ p program, task.handling = some (p, program) ∧ Doomed program

def Unacked (st : State Record S) (partid : PartId) : Prop :=
  ∀ s p upload data, (s, p) ∈ st.acked → Storage.readUpAct p = some (upload, data) →
    upload.partid ≠ partid

/-- A session that fails has a part that nobody acknowledges, and no other is refused. -/
structure Fated (st : State Record S) : Prop where
  lost : ∀ task ∈ st.tasks, task.Failing → ∃ part, task.beginId ≤ part ∧ part < task.endId ∧
    Unacked st (task.partid part)
  threw : ∀ task ∈ st.tasks, task.threw = true → task.Failing
  refused : ∀ task ∈ st.tasks, ∀ a ∈ task.toClient, ¬IsSuccess a.1 → task.Failing

section Set

variable {j : ℕ} {task task' : Task S}

/-- A task goes on: if it fails now, it did before or its part is not acknowledged. -/
theorem Fated.set (h : Fated st) (hsound : Sound setup st) (hfound : st.tasks[j]? = some task)
    (htasks : st'.tasks = st.tasks.set j task')
    (hacked : ∀ a ∈ st'.acked, a ∈ st.acked ∨ (task.beginId ≤ task.i ∧ task.i < task.endId) ∧
      ¬task.Failing ∧ ¬task'.Failing ∧
      ∀ upload data, Storage.readUpAct a.2 = some (upload, data) →
        upload.partid = task.partid task.i)
    (hsame : task'.fid = task.fid ∧ task'.beginId = task.beginId ∧ task'.endId = task.endId)
    (hfailing : task'.Failing → task.Failing ∨ task.beginId ≤ task.i ∧ task.i < task.endId ∧
      Unacked st (task.partid task.i))
    (hthrew : task'.threw = true → task'.Failing)
    (hrefused : ∀ a ∈ task'.toClient, ¬IsSuccess a.1 → task'.Failing) : Fated st' := by
  obtain ⟨hfid, hbegin, hend⟩ := hsame
  have hpartid (part : ℕ) : task'.partid part = task.partid part := by
    rw [Task.partid, Task.partid, hfid]
  have hcases {other : Task S} (hother : other ∈ st'.tasks) :
      other = task' ∨ ∃ k, k ≠ j ∧ st.tasks[k]? = some other := by
    obtain ⟨k, hk⟩ := List.mem_iff_getElem?.mp hother
    rw [htasks] at hk
    obtain ⟨-, heq⟩ | ⟨hne, hk⟩ := getElem?_set_cases hk
    · exact .inl heq
    · exact .inr ⟨k, hne, hk⟩
  refine ⟨fun other hother hfails => ?_, fun other hother hthrew' => ?_, fun other hother => ?_⟩
  · obtain rfl | ⟨k, hne, hk⟩ := hcases hother
    · have hold : ∃ part, task.beginId ≤ part ∧ part < task.endId ∧
          Unacked st (task.partid part) := by
        obtain hbefore | hnow := hfailing hfails
        · exact h.lost task (List.mem_of_getElem? hfound) hbefore
        · exact ⟨task.i, hnow⟩
      obtain ⟨part, hlow, hhigh, hunacked⟩ := hold
      refine ⟨part, hbegin ▸ hlow, hend ▸ hhigh, fun s p upload data hmem hread => ?_⟩
      obtain hmem | ⟨-, -, hnot, -⟩ := hacked _ hmem
      · rw [hpartid]
        exact hunacked s p upload data hmem hread
      · exact absurd hfails hnot
    · obtain ⟨part, hlow, hhigh, hunacked⟩ := h.lost other (List.mem_of_getElem? hk) hfails
      refine ⟨part, hlow, hhigh, fun s p upload data hmem hread => ?_⟩
      obtain hmem | ⟨hat, -, -, hpart⟩ := hacked _ hmem
      · exact hunacked s p upload data hmem hread
      · rw [hpart upload data hread]
        exact hsound.partid_ne hfound hk hne.symm hat ⟨hlow, hhigh⟩
  · obtain rfl | ⟨k, -, hk⟩ := hcases hother
    · exact hthrew hthrew'
    · exact h.threw other (List.mem_of_getElem? hk) hthrew'
  · obtain rfl | ⟨k, -, hk⟩ := hcases hother
    · exact hrefused
    · exact h.refused other (List.mem_of_getElem? hk)

/-- A task goes on, and its session fails if and only if it did. -/
theorem Fated.move (h : Fated st) (hsound : Sound setup st) (hfound : st.tasks[j]? = some task)
    (htasks : st'.tasks = st.tasks.set j task') (hacked : st'.acked = st.acked)
    (hsame : task'.fid = task.fid ∧ task'.beginId = task.beginId ∧ task'.endId = task.endId)
    (hfailing : task'.Failing ↔ task.Failing) (hthrew : task'.threw = true → task.Failing)
    (hrefused : ∀ a ∈ task'.toClient, a ∈ task.toClient) : Fated st' :=
  h.set hsound hfound htasks (fun _ ha => .inl (hacked ▸ ha)) hsame
    (fun hfails => .inl (hfailing.mp hfails)) (fun hthrows => hfailing.mpr (hthrew hthrows))
    fun a ha hnot => hfailing.mpr
      (h.refused task (List.mem_of_getElem? hfound) a (hrefused a ha) hnot)

/-- Nobody has acknowledged the part a handler is at. -/
theorem Sound.unacked (h : Sound setup st) (hfound : st.tasks[j]? = some task)
    (hat : task.i < task.endId) (hempty : task.toClient = []) :
    Unacked st (task.partid task.i) := by
  intro s p upload data hacked hread heq
  obtain ⟨k, owner, part, hk, -, ⟨hlow, hhigh, hbehind⟩, ⟨upload', data', hread', hpartid, -⟩, -⟩ :=
    h.acked s p hacked
  rw [hread, Option.some_inj, Prod.mk.injEq] at hread'
  obtain ⟨rfl, -⟩ := hread'
  have hbounded := h.bounded j task hfound
  have hsame : owner.partid part = task.partid task.i := hpartid.symm.trans heq
  by_cases hkj : k = j
  · subst hkj
    rw [hfound, Option.some_inj] at hk
    subst hk
    have hpart := partid_injective task (by omega) (by omega) hsame
    rw [Task.served, hempty, List.countP_nil] at hbehind
    omega
  · exact h.partid_ne hk hfound hkj ⟨hlow, hhigh⟩ ⟨hbounded.2.1, hat⟩ hsame

end Set

theorem Doomed.of_op {command : Storage.Command}
    {next : command.Answer → Storage.Handler KeepAlive} (h : Doomed (.op command next)) :
    ∃ code ≠ ErrorCode.success, Program.op command next = answering code .no := by
  generalize hprogram : Program.op command next = program at h
  cases h with
  | throw e => cases hprogram
  | refuse code hcode => exact ⟨code, hcode, rfl⟩
  | close => cases hprogram

theorem not_doomed_success : ¬Doomed (answering .success .yes) := by
  intro h
  obtain ⟨code, hcode, hprogram⟩ := Doomed.of_op h
  rw [answering, Program.op.injEq, Storage.Command.send.injEq] at hprogram
  refine hcode ((isSuccess_ackPacket SC.fromto code).mp ?_)
  rw [← hprogram.1.2]
  exact (isSuccess_ackPacket SC.fromto .success).mpr rfl

/-- A packet arrives at a storage, whose session was not failing. -/
theorem Fated.receive (h : Fated st) (hsound : Sound setup st) {j : ℕ} {task : Task S}
    {packet p : Packet} {rest : List Packet} {env : Storage.Env} (hfound : st.tasks[j]? = some task)
    (hidle : task.handling = none ∧ task.closed = false)
    (hpacket : task.toStorage = packet :: rest) :
    Fated { st with tasks := st.tasks.set j { task with
      toStorage := rest
      handling := some (p, Storage.recvDispatcher (setup task.storage) ⟨p, env⟩) } } := by
  have hmem := List.mem_of_getElem? hfound
  have hnot : ¬task.Failing := by
    rintro (hclosed | ⟨p', program, hsome, -⟩)
    · rw [hidle.2] at hclosed
      cases hclosed
    · rw [hidle.1] at hsome
      cases hsome
  obtain ⟨hlt, hempty⟩ : task.i < task.endId ∧ task.toClient = [] := by
    cases hsound.phase j task hfound with
    | resting _ hempty => rw [hempty.1] at hpacket; cases hpacket
    | broken hclosed => rw [hidle.2] at hclosed; cases hclosed
    | sent last hawaits hflight => exact ⟨hawaits.lt, hflight.2⟩
    | handled last p' program hawaits _ hempty => exact ⟨hawaits.lt, hempty.2⟩
    | answered last p' ack hawaits _ hflight => rw [hflight.1] at hpacket; cases hpacket
  have hlow := (hsound.bounded j task hfound).2.1
  refine h.set hsound hfound rfl (fun _ => .inl) ⟨rfl, rfl, rfl⟩
    (fun _ => .inr ⟨hlow, hlt, hsound.unacked hfound hlt hempty⟩)
    (fun hthrew => absurd (h.threw task hmem hthrew) hnot) fun a ha => ?_
  rw [hempty] at ha
  cases ha

section Command

variable {j : ℕ} {task task' : Task S} {last p : Packet} {command : Storage.Command}
  {next : command.Answer → Storage.Handler KeepAlive}

theorem not_failing_of_op (hhandling : task.handling = some (p, .op command next))
    (hopen : task.closed = false) (hdoomed : ¬Doomed (.op command next)) : ¬task.Failing := by
  rintro (hclosed | ⟨p', program, hsome, hdoomed'⟩)
  · rw [hopen] at hclosed
    cases hclosed
  · rw [hhandling] at hsome
    cases hsome
    exact hdoomed hdoomed'

/-- A handler that will acknowledge its part goes on, and tells the client nothing yet. -/
theorem Fated.work (h : Fated st) (hsound : Sound setup st)
    (hat : AtCommand setup st j task last p (.op command next))
    (htasks : st'.tasks = st.tasks.set j task') (hacked : st'.acked = st.acked)
    (hsame : task'.fid = task.fid ∧ task'.beginId = task.beginId ∧ task'.endId = task.endId)
    (hnot : ¬task.Failing) (hthrew : task'.threw = task.threw)
    (hclient : task'.toClient = task.toClient) : Fated st' := by
  have hfound := hat.found
  refine h.set hsound hfound htasks (fun a ha => .inl (hacked ▸ ha)) hsame (fun _ => .inr ?_)
    (fun hthrew' => ?_) fun a ha => ?_
  · exact ⟨(hsound.bounded j task hfound).2.1, hat.awaits.lt,
      hsound.unacked hfound hat.awaits.lt hat.empty.2⟩
  · rw [hthrew] at hthrew'
    exact absurd (h.threw task (List.mem_of_getElem? hfound) hthrew') hnot
  · rw [hclient, hat.empty.2] at ha
    cases ha

end Command

variable [DecidableEq S]

/-- A command. -/
theorem Fated.perform (h : Fated st) (hsound : Sound setup st) {j flushed : ℕ} {task : Task S}
    (hfound : st.tasks[j]? = some task) {p : Packet} {command : Storage.Command}
    {next : command.Answer → Storage.Handler KeepAlive}
    (hhandling : task.handling = some (p, .op command next)) :
    Fated (st.perform j task p flushed command next) := by
  obtain ⟨last, hat⟩ := (hsound.phase j task hfound).of_op hfound hhandling
  have hstage := hat.stage
  generalize hprogram : Program.op command next = program at hstage
  generalize hstream : task.stream = stream at hstage
  cases hstage with
  | threw _ e => cases hprogram
  | refused _ code hcode =>
      cases hprogram
      have hfailing : task.Failing := .inr ⟨p, _, hhandling, .refuse code hcode⟩
      have hfailing' : Task.Failing { task with
          handling := some (p, .pure .no)
          toClient := task.toClient ++ [(ackPacket SC.fromto code, p)] } :=
        .inr ⟨p, _, rfl, .close⟩
      have hrefused : ¬IsSuccess (ackPacket SC.fromto code) :=
        fun hsuccess => hcode ((isSuccess_ackPacket _ _).mp hsuccess)
      refine h.set hsound hfound rfl (fun a ha => .inl ?_) ⟨rfl, rfl, rfl⟩ (fun _ => .inl hfailing)
        (fun _ => hfailing') fun _ _ _ => hfailing'
      rwa [State.perform, if_neg hrefused] at ha
  | checked env part data hread hpartid hchecks =>
      cases hprogram
      refine h.work hsound hat rfl rfl ⟨rfl, rfl, rfl⟩ ?_ rfl rfl
      refine not_failing_of_op hhandling hat.opened fun hdoomed => ?_
      obtain ⟨code, -, heq⟩ := hdoomed.of_op
      cases heq
  | stored _ env hstored =>
      rw [telling] at hprogram
      split_ifs at hprogram
      cases hprogram
      refine h.work hsound hat rfl rfl ⟨rfl, rfl, rfl⟩ ?_ rfl rfl
      refine not_failing_of_op hhandling hat.opened fun hdoomed => ?_
      obtain ⟨code, -, heq⟩ := hdoomed.of_op
      cases heq
  | told _ hstored htold =>
      cases hprogram
      have hnot := not_failing_of_op hhandling hat.opened not_doomed_success
      have hnot' : ¬Task.Failing { task with
          handling := some (p, .pure .yes)
          toClient := task.toClient ++ [(ackPacket SC.fromto .success, p)] } := by
        rintro (hclosed | ⟨p', program, hsome, hdoomed⟩)
        · exact hnot (.inl hclosed)
        · cases hsome
          cases hdoomed
      obtain ⟨upload, data, hread, hpartid, -⟩ := hstored
      have hlow := (hsound.bounded j task hfound).2.1
      have hsuccess := (isSuccess_ackPacket SC.fromto .success).mpr rfl
      refine h.set hsound hfound rfl (fun a ha => ?_) ⟨rfl, rfl, rfl⟩
        (fun hfailing' => absurd hfailing' hnot')
        (fun hthrew => absurd (h.threw task (List.mem_of_getElem? hfound) hthrew) hnot)
        fun a ha hrefused => ?_
      · rw [State.perform, if_pos hsuccess] at ha
        obtain rfl | ha := List.mem_cons.mp ha
        · refine .inr ⟨⟨hlow, hat.awaits.lt⟩, hnot, hnot', fun upload' data' hread' => ?_⟩
          rw [hread, Option.some_inj, Prod.mk.injEq] at hread'
          rw [← hread'.1, hpartid]
        · exact .inl ha
      · rw [hat.empty.2] at ha
        rw [List.mem_singleton.mp ha] at hrefused
        exact absurd hsuccess hrefused

/-- **One step.** -/
theorem Fated.step (h : Fated st) (hsound : Sound setup st)
    (hstep : Step hashBufferHex setup terms st st') : Fated st' := by
  cases hstep with
  | request r => exact ⟨h.lost, h.threw, h.refused⟩
  | upload r => exact ⟨h.lost, h.threw, h.refused⟩
  | deliver packet rest r => exact ⟨h.lost, h.threw, h.refused⟩
  | start file answer p answers listener fid stplist =>
      have hnew {task : Task S} (htask : task ∈ startTasks listener file fid stplist) :
          ¬task.Failing ∧ task.threw = false ∧ task.toClient = [] := by
        obtain ⟨_, _, -, rfl⟩ := exists_begin htask
        exact ⟨by rintro (hclosed | ⟨_, _, hsome, -⟩) <;> contradiction, rfl, rfl⟩
      refine ⟨fun task htask hfails => ?_, fun task htask hthrew => ?_, fun task htask a ha => ?_⟩
      · obtain htask | htask := List.mem_append.mp htask
        · exact h.lost task htask hfails
        · exact absurd hfails (hnew htask).1
      · obtain htask | htask := List.mem_append.mp htask
        · exact h.threw task htask hthrew
        · rw [(hnew htask).2.1] at hthrew
          cases hthrew
      · obtain htask | htask := List.mem_append.mp htask
        · exact h.refused task htask a ha
        · rw [(hnew htask).2.2] at ha
          cases ha
  | send j task toSend htask =>
      exact h.move hsound htask rfl rfl ⟨rfl, rfl, rfl⟩ .rfl
        (h.threw task (List.mem_of_getElem? htask)) fun _ => id
  | receive j task packet p rest env htask hidle hpacket =>
      exact h.receive hsound htask hidle hpacket
  | perform j task p flushed command next htask hhandling => exact h.perform hsound htask hhandling
  | finish j task p keepAlive htask hhandling =>
      have hopen := (hsound.phase j task htask).open_of_handling hhandling
      refine h.move hsound htask rfl rfl ⟨rfl, rfl, rfl⟩ ⟨?_, ?_⟩
        (h.threw task (List.mem_of_getElem? htask)) fun _ => id
      · rintro (hclosed | ⟨_, _, hsome, -⟩)
        · obtain rfl := of_decide_eq_true hclosed
          exact .inr ⟨p, _, hhandling, .close⟩
        · cases hsome
      · rintro (hclosed | ⟨_, _, hsome, hdoomed⟩)
        · rw [hopen] at hclosed
          cases hclosed
        · rw [hhandling] at hsome
          cases hsome
          cases hdoomed
          exact .inl rfl
  | fail j task p e htask hhandling =>
      exact h.move hsound htask rfl rfl ⟨rfl, rfl, rfl⟩
        ⟨fun _ => .inr ⟨p, _, hhandling, .throw e⟩, fun _ => .inl rfl⟩
        (h.threw task (List.mem_of_getElem? htask)) fun _ => id
  | consume j task ack answered p last rest htask hwaiting hlast hack =>
      exact h.move hsound htask rfl rfl ⟨rfl, rfl, rfl⟩ .rfl
        (h.threw task (List.mem_of_getElem? htask)) fun a ha => hack ▸ List.mem_cons_of_mem _ ha
  | refuse j task ack answered p rest htask hwaiting hack hthrew =>
      have hrefused : ¬IsSuccess ack := by
        rintro ⟨p', haccepted⟩
        rw [hthrew] at haccepted
        cases haccepted
      have hfails : task.Failing := h.refused task (List.mem_of_getElem? htask) (ack, answered)
        (hack ▸ List.mem_cons_self) hrefused
      exact h.move hsound htask rfl rfl ⟨rfl, rfl, rfl⟩ .rfl (fun _ => hfails)
        fun a ha => hack ▸ List.mem_cons_of_mem _ ha
  | lose j task htask =>
      exact h.move hsound htask rfl rfl ⟨rfl, rfl, rfl⟩ .rfl
        (h.threw task (List.mem_of_getElem? htask)) fun _ => id

end Failing

/-! ### What is settled -/

section Complete

variable {S : Type} {hashBufferHex : Bytes → Sha1Type} {setup : S → Storage.Setup}
  {st : State Record S} {file : Client.File} {first task : Task S}

end Complete

def consumed (file : Client.File) (p : Packet) : Task Unit :=
  { left file p with waiting := false, i := 1, toClient := [] }

end Mp2p.System
