import Mp2p.Lib.Ranking
import Mp2p.Proof.Entries
import Mp2p.Proof.Losses

/-!
# Every session ends

Nobody waits for somebody who waits. Whatever the storages answer, each step of a session, of an
acknowledgement or of the answer to an upload leaves less to do, and as long as something is left to
do some step is possible. So the uploads that have been accepted come to an end, in a state where
every part was sent, unless a storage refused one or the client had no part to send.
-/

namespace Mp2p.System

open Masks Network DB DB.Tools Master

section Progress

variable {S : Type} {setup : S → Storage.Setup} {st st' : State Record S}

/-! ### What is left to do -/

/-- The commands a handler has still to perform, and those its packets make the others perform. A
handler of a part reads nothing. -/
def cost : Storage.Handler KeepAlive → ℕ
  | .pure _ => 1
  | .throw _ => 1
  | .op (.read _) _ => 0
  | .op (.write _ _) next => cost (next ()) + 1
  | .op (.send _ _) next => cost (next ()) + 2

def Task.work (task : Task S) : ℕ :=
  20 * (task.endId - task.i) + (if task.waiting = false ∧ task.threw = false then 10 else 0) +
    8 * task.toStorage.length + (task.handling.elim 0 fun handling => cost handling.2) +
    task.toClient.length

/-- What the tasks of an upload will do, none if the answer cannot be read. -/
def answerWork (answer : Packet) : ℕ :=
  ((arrival answer).bind Client.readUpPiecesLoc).elim 0 fun pieces =>
    1 + (pieces.2.map fun field => 20 * field.nb.toNat + 10).sum

def State.work {V : Type} (st : State V S) : ℕ :=
  (st.tasks.map Task.work).sum + st.partAcks.length +
    (st.answers.map fun a => answerWork a.2).sum

/-- A step that changes something, and in which the master handles nothing but what was on its way
to it. -/
structure Internal {V : Type} [Coding V] [DecidableEq S] (hashBufferHex : Bytes → Sha1Type)
    (setup : S → Storage.Setup) (st st' : State V S) : Prop where
  step : Step hashBufferHex setup .free st st'
  changes : st' ≠ st
  quiet : st'.master ≠ st.master → st'.partAcks ≠ st.partAcks

/-- What was sent can be read by who gets it, and a task waits for a part of its own. -/
structure Readable (st : State Record S) : Prop where
  waiting : ∀ task ∈ st.tasks, task.waiting = true → task.i < task.endId
  acks : ∀ task ∈ st.tasks, ∀ a ∈ task.toClient, ∃ code, a.1 = ackPacket SC.fromto code
  partAcks : ∀ packet ∈ st.partAcks, ∃ stid partid, packet = Storage.partAckPacket stid partid 10

/-- The task is over: it was refused, or its parts were sent, or the next one cannot be cut from its
file, which ends the client. -/
def Task.Over (hashBufferHex : Bytes → Sha1Type) (task : Task S) : Prop :=
  task.waiting = false ∧ (task.threw = true ∨ task.endId ≤ task.i ∨
    Client.partPacket hashBufferHex task.fid task.file task.totalParts task.i = none)

/-- Nothing of the session is on its way but what was sent to a session that was closed, and its
storage is at rest. -/
structure Task.Quiet (task : Task S) : Prop where
  handling : task.handling = none
  stream : task.stream = none
  toClient : task.toClient = []
  toStorage : task.closed = false → task.toStorage = []

/-- There is nothing left to do: every task is over and its session at rest, the master has heard of
every part, and an answer on its way cannot be read, which ends the client it comes to. -/
structure Settled {V : Type} (hashBufferHex : Bytes → Sha1Type) (st : State V S) : Prop where
  tasks : ∀ task ∈ st.tasks, task.Over hashBufferHex
  sessions : ∀ task ∈ st.tasks, task.Quiet
  partAcks : st.partAcks = []
  answers : ∀ a ∈ st.answers, (arrival a.2).bind Client.readUpPiecesLoc = none

/-! ### Less and less -/

theorem sum_map_set {α : Type} (f : α → ℕ) {l : List α} {j : ℕ} {a b : α} (h : l[j]? = some a) :
    ((l.set j b).map f).sum + f a = (l.map f).sum + f b := by
  induction l generalizing j with
  | nil => cases h
  | cons c rest ih =>
      cases j with
      | zero =>
          rw [List.getElem?_cons_zero, Option.some_inj] at h
          rw [h, List.set_cons_zero, List.map_cons, List.map_cons, List.sum_cons, List.sum_cons]
          omega
      | succ j =>
          rw [List.getElem?_cons_succ] at h
          rw [List.set_cons_succ, List.map_cons, List.map_cons, List.sum_cons, List.sum_cons]
          have := ih h
          omega

/-- A task does something, and maybe tells the master. -/
theorem work_lt_of_set {j : ℕ} {task task' : Task S} (hfound : st.tasks[j]? = some task)
    (htasks : st'.tasks = st.tasks.set j task') (hanswers : st'.answers = st.answers)
    (hlt : task'.work + st'.partAcks.length < task.work + st.partAcks.length) :
    st'.work < st.work := by
  have hset := sum_map_set Task.work (b := task') hfound
  rw [State.work, State.work, htasks, hanswers]
  omega

section Tasks

variable {task : Task S} {p : Packet}

theorem work_send (hready : task.waiting = false ∧ task.threw = false) (toSend : Packet) :
    Task.work { task with
      waiting := true
      sent := some toSend
      toStorage := task.toStorage ++ [toSend] } < task.work := by
  simp only [Task.work, hready, List.length_append, List.length_singleton, and_self, if_true,
    Bool.true_eq_false, false_and, if_false]
  omega

theorem work_receive {packet : Packet} {rest : List Packet} {program : Storage.Handler KeepAlive}
    (hidle : task.handling = none) (hpacket : task.toStorage = packet :: rest)
    (hcost : cost program ≤ 6) :
    Task.work { task with toStorage := rest, handling := some (p, program) } < task.work := by
  simp only [Task.work, hidle, hpacket, List.length_cons, Option.elim_none, Option.elim_some]
  omega

theorem work_through {program : Storage.Handler KeepAlive} (closed : Bool)
    (hhandling : task.handling = some (p, program)) (hcost : cost program = 1) :
    Task.work { task with handling := none, stream := none, closed } < task.work := by
  simp only [Task.work, hhandling, hcost, Option.elim_none, Option.elim_some]
  omega

theorem work_perform {program : Storage.Handler KeepAlive} (next : Storage.Handler KeepAlive)
    (answers : List (Packet × Packet)) (hhandling : task.handling = some (p, program)) (k : ℕ)
    (hcost : cost next + answers.length + k < cost program) :
    Task.work { task with
      handling := some (p, next)
      toClient := task.toClient ++ answers } + k < task.work := by
  simp only [Task.work, hhandling, Option.elim_some, List.length_append]
  omega

theorem work_consume (hwaiting : task.waiting = true) (hlt : task.i < task.endId)
    {rest : List (Packet × Packet)} (hrest : rest.length ≤ task.toClient.length) :
    Task.work { task with waiting := false, i := task.i + 1, toClient := rest } < task.work := by
  have hready : (if task.waiting = false ∧ task.threw = false then 10 else 0) = 0 := by
    rw [hwaiting]
    rfl
  simp only [Task.work, hready]
  split_ifs <;> omega

theorem work_refuse (hwaiting : task.waiting = true) {a : Packet × Packet}
    {rest : List (Packet × Packet)} (htoClient : task.toClient = a :: rest) :
    Task.work { task with waiting := false, threw := true, toClient := rest } < task.work := by
  simp only [Task.work, hwaiting, htoClient, List.length_cons, Bool.true_eq_false, false_and,
    and_false, if_false]
  omega

theorem cost_telling_le (s : Storage.Setup) (env : Storage.Env) (partid : PartId) :
    cost (telling s env partid) ≤ 5 := by
  rw [telling]
  split_ifs
  · exact le_rfl
  · exact Nat.le_of_ble_eq_true rfl

theorem Stage.cost_le {s : S} {partid : PartId} {stream : Option Stream}
    {program : Storage.Handler KeepAlive} (h : Stage setup st s partid p stream program) :
    cost program ≤ 6 := by
  cases h with
  | threw _ e => exact Nat.le_of_ble_eq_true rfl
  | refused _ code hcode => exact Nat.le_of_ble_eq_true rfl
  | checked env part data hread hpartid hchecks =>
      exact Nat.succ_le_succ (cost_telling_le (setup s) env partid)
  | stored _ env hstored => exact (cost_telling_le (setup s) env partid).trans (Nat.le_succ 5)
  | told _ hstored htold => exact Nat.le_of_ble_eq_true rfl

end Tasks

/-! ### The start of an upload -/

theorem sum_work_startTasks_le (listener : ℕ → S) (file : Client.File) (fid : FidType)
    (stplist : List StpField) : ((startTasks listener file fid stplist).map Task.work).sum ≤
      (stplist.map fun field => 20 * field.nb.toNat + 10).sum := by
  have hwork (parts total k : ℕ) (rest : List StpField) :
      (((Client.partRanges parts rest).mapIdx fun k' range =>
        Task.begin (listener (k + k')) fid file total range).map Task.work).sum ≤
          (rest.map fun field => 20 * field.nb.toNat + 10).sum := by
    induction rest generalizing parts k with
    | nil => exact le_rfl
    | cons field rest ih =>
        have hrest := ih (parts - field.nb.toNat) (k + 1)
        have hhead : Task.work (Task.begin (listener (k + 0)) fid file total
            (parts - field.nb.toNat, parts)) ≤ 20 * field.nb.toNat + 10 := by
          change 20 * (parts - (parts - field.nb.toNat)) + 10 + 8 * 0 + 0 + 0 ≤ _
          omega
        simp only [Nat.add_right_comm k 1] at hrest
        rw [Client.partRanges, List.mapIdx_cons, List.map_cons, List.sum_cons, List.map_cons,
          List.sum_cons]
        exact Nat.add_le_add hhead hrest
  have hstart := hwork (Client.totalParts stplist) (Client.totalParts stplist) 0 stplist
  simp only [Nat.zero_add] at hstart
  exact hstart

theorem work_start {file : Client.File} {answer p : Packet}
    {answers : List (Client.File × Packet)} (listener : ℕ → S) {fid : FidType}
    {stplist : List StpField} (hanswers : st.answers.Perm ((file, answer) :: answers))
    (harrival : arrival answer = some p)
    (hread : Client.readUpPiecesLoc p = some (fid, stplist)) :
    State.work { st with
      answers
      tasks := st.tasks ++ startTasks listener file fid stplist } < st.work := by
  have htasks := sum_work_startTasks_le listener file fid stplist
  have hsum := (hanswers.map fun a => answerWork a.2).sum_eq
  have hanswer : answerWork answer =
      1 + (stplist.map fun field => 20 * field.nb.toNat + 10).sum := by
    rw [answerWork, harrival, Option.bind_some, hread, Option.elim_some]
  rw [List.map_cons, List.sum_cons, hanswer] at hsum
  rw [State.work, State.work, hsum, List.map_append, List.sum_append]
  dsimp only
  omega

/-! ### What can be read -/

section Read

variable {j : ℕ} {task task' : Task S}

/-- A task does something readable. -/
theorem Readable.set (h : Readable st) (htasks : st'.tasks = st.tasks.set j task')
    (hwaiting : task'.waiting = true → task'.i < task'.endId)
    (hacks : ∀ a ∈ task'.toClient, ∃ code, a.1 = ackPacket SC.fromto code)
    (hpartAcks : ∀ packet ∈ st'.partAcks, packet ∈ st.partAcks ∨
      ∃ stid partid, packet = Storage.partAckPacket stid partid 10) : Readable st' := by
  have hold {other : Task S} (hother : other ∈ st'.tasks) :
      other = task' ∨ other ∈ st.tasks := by
    rw [htasks] at hother
    exact (List.mem_or_eq_of_mem_set hother).symm
  refine ⟨fun other hother => ?_, fun other hother => ?_, fun packet hpacket => ?_⟩
  · obtain rfl | hother := hold hother
    · exact hwaiting
    · exact h.waiting other hother
  · obtain rfl | hother := hold hother
    · exact hacks
    · exact h.acks other hother
  · obtain hpacket | hnew := hpartAcks packet hpacket
    · exact h.partAcks packet hpacket
    · exact hnew

theorem kindOf_partAckPacket {stid : StidType} {partid : PartId} {p : Packet}
    (harrival : arrival (Storage.partAckPacket stid partid 10) = some p) : kindOf p = .partAck := by
  have hheader := (header_of_arrival harrival).trans (header_partAckPacket stid partid 10)
  simp only [kindOf, Packet.sizeGet, Packet.whatGet, Packet.fromtoGet, hheader]
  rfl

/-- What a step inside the system comes to: there is less to do, and no upload more. -/
structure Lessens (st st' : State Record S) : Prop where
  readable : Readable st'
  work : st'.work < st.work
  uploads : uploads st'.master = uploads st.master

theorem Readable.lessens_of_set (h : Readable st) (hfound : st.tasks[j]? = some task)
    {directory : S → Storage.Directory} {consumed : List (Packet × Packet)}
    (hwaiting : task'.waiting = true → task'.i < task'.endId)
    (hacks : ∀ a ∈ task'.toClient, a ∈ task.toClient) (hlt : task'.work < task.work) :
    Lessens st { st with tasks := st.tasks.set j task', directory, consumed } where
  readable := h.set rfl hwaiting
    (fun a ha => h.acks task (List.mem_of_getElem? hfound) a (hacks a ha)) fun _ => .inl
  work := work_lt_of_set hfound rfl rfl (Nat.add_lt_add_right hlt _)
  uploads := rfl

theorem Readable.deliver (h : Readable st) {packet : Packet} {rest : List Packet} {r : Request}
    (hpartAcks : st.partAcks.Perm (packet :: rest)) (harrival : arrival packet = some r.packet) :
    Lessens st { st with master := handle st.master r, partAcks := rest } := by
  obtain ⟨stid, partid, rfl⟩ := h.partAcks packet (hpartAcks.mem_iff.mpr List.mem_cons_self)
  refine ⟨⟨h.waiting, h.acks, fun packet hpacket => ?_⟩, ?_, ?_⟩
  · exact h.partAcks packet (hpartAcks.mem_iff.mpr (List.mem_cons_of_mem _ hpacket))
  · have hlength := hpartAcks.length_eq
    rw [List.length_cons] at hlength
    rw [State.work, State.work, hlength]
    dsimp only
    omega
  · exact uploads_of_partAck st.master (kindOf_partAckPacket harrival)

theorem Readable.start (h : Readable st) {file : Client.File} {answer p : Packet}
    {answers : List (Client.File × Packet)} (listener : ℕ → S) {fid : FidType}
    {stplist : List StpField} (hanswers : st.answers.Perm ((file, answer) :: answers))
    (harrival : arrival answer = some p)
    (hread : Client.readUpPiecesLoc p = some (fid, stplist)) :
    Lessens st { st with
      answers
      tasks := st.tasks ++ startTasks listener file fid stplist } := by
  have hnew {task : Task S} (htask : task ∈ startTasks listener file fid stplist) :
      task.waiting = false ∧ task.toClient = [] := by
    obtain ⟨_, _, -, rfl⟩ := exists_begin htask
    exact ⟨rfl, rfl⟩
  refine ⟨⟨fun task htask hwaiting => ?_, fun task htask a ha => ?_, h.partAcks⟩,
    work_start listener hanswers harrival hread, rfl⟩
  · obtain htask | htask := List.mem_append.mp htask
    · exact h.waiting task htask hwaiting
    · rw [(hnew htask).1] at hwaiting
      cases hwaiting
  · obtain htask | htask := List.mem_append.mp htask
    · exact h.acks task htask a ha
    · rw [(hnew htask).2] at ha
      cases ha

variable [DecidableEq S] {hashBufferHex : Bytes → Sha1Type} {terms : Terms}

theorem Readable.perform (h : Readable st) (hsound : Sound setup st) (flushed : ℕ)
    (hfound : st.tasks[j]? = some task) {p : Packet} {command : Storage.Command}
    {next : command.Answer → Storage.Handler KeepAlive}
    (hhandling : task.handling = some (p, .op command next)) :
    Readable (st.perform j task p flushed command next) ∧
      (st.perform j task p flushed command next).work < st.work := by
  obtain ⟨last, hat⟩ := (hsound.phase j task hfound).of_op hfound hhandling
  have hmem := List.mem_of_getElem? hfound
  have hstage := hat.stage
  have hanswer (code : ErrorCode) (keepAlive : KeepAlive)
      (hop : Program.op command next = answering code keepAlive) :
      Readable (st.perform j task p flushed command next) ∧
        (st.perform j task p flushed command next).work < st.work := by
    cases hop
    refine ⟨h.set rfl (h.waiting task hmem) (fun a ha => ?_) fun packet => .inl, ?_⟩
    · obtain ha | ha := List.mem_append.mp ha
      · exact h.acks task hmem a ha
      · rw [List.mem_singleton.mp ha]
        exact ⟨code, rfl⟩
    · refine work_lt_of_set hfound rfl rfl (Nat.add_lt_add_right ?_ _)
      exact work_perform (.pure keepAlive) _ hhandling 0 (Nat.lt_succ_self 2)
  generalize hprogram : Program.op command next = program at hstage
  generalize hstream : task.stream = stream at hstage
  cases hstage with
  | threw _ e => cases hprogram
  | refused _ code hcode => exact hanswer code .no hprogram
  | told _ hstored htold => exact hanswer .success .yes hprogram
  | checked env part data hread hpartid hchecks =>
      cases hprogram
      refine ⟨h.set rfl (h.waiting task hmem) (h.acks task hmem) fun packet => .inl, ?_⟩
      refine work_lt_of_set hfound rfl rfl (Nat.add_lt_add_right ?_ _)
      have hwork := work_perform (telling (setup task.storage) env (task.partid task.i)) [] hhandling 0
        (Nat.lt_succ_self _)
      rwa [List.append_nil] at hwork
  | stored _ env hstored =>
      rw [telling] at hprogram
      split_ifs at hprogram
      cases hprogram
      refine ⟨h.set rfl (h.waiting task hmem) (h.acks task hmem) fun packet hpacket => ?_, ?_⟩
      · obtain hpacket | hpacket := List.mem_append.mp hpacket
        · exact .inl hpacket
        · exact .inr ⟨_, _, List.mem_singleton.mp hpacket⟩
      · refine work_lt_of_set hfound rfl rfl ?_
        have hwork := work_perform (answering .success .yes) [] hhandling 1 (Nat.lt_succ_self 4)
        rw [List.append_nil] at hwork
        change Task.work { task with handling := some (p, answering .success .yes) } +
          (st.partAcks ++ [_]).length < _
        rw [List.length_append, List.length_singleton]
        omega

theorem Internal.master_eq {master : World Record} {answers : List (Client.File × Packet)}
    (h : Internal hashBufferHex setup st { st with master, answers }) : master = st.master := by
  by_contra hne
  exact h.quiet hne rfl

/-- No request of a client or a storage is a step inside the system. -/
theorem Internal.ne_upload {r : Request} {answer : Packet}
    {answers : List (Client.File × Packet)}
    (h : Internal hashBufferHex setup st { st with master := handle st.master r, answers }) :
    (handle st.master r).sent ≠ st.master.sent ++ [answer] := by
  rw [h.master_eq]
  exact fun hsent => List.cons_ne_nil _ _ (List.self_eq_append_right.mp hsent)

/-- **A step inside the system.** -/
theorem Readable.internal (h : Readable st) (hsound : Sound setup st)
    (hinternal : Internal hashBufferHex setup st st') : Lessens st st' := by
  have hmem {j : ℕ} {task : Task S} (htask : st.tasks[j]? = some task) := List.mem_of_getElem? htask
  cases hinternal.step with
  | request r => exact absurd (by rw [hinternal.master_eq]) hinternal.changes
  | upload r file rdcy fname answer hterms hrequest hanswer hwhat =>
      exact absurd hanswer hinternal.ne_upload
  | start file answer p answers listener fid stplist hanswers harrival hread =>
      exact h.start listener hanswers harrival hread
  | deliver packet rest r hterms hpartAcks harrival => exact h.deliver hpartAcks harrival
  | perform j task p flushed command next htask hhandling =>
      obtain ⟨hreadable, hwork⟩ := h.perform hsound flushed htask hhandling
      refine ⟨hreadable, hwork, ?_⟩
      cases command with
      | read path => rfl
      | write path data => rfl
      | send peer message => cases peer <;> rfl
  | send j task toSend htask hready hlt hpacket =>
      exact h.lessens_of_set htask (fun _ => hlt) (fun _ => id) (work_send hready toSend)
  | receive j task packet p rest env htask hidle hpacket harrival henv =>
      have hphase := (hsound.phase j task htask).receive hidle hpacket harrival henv
      have hcost : cost (Storage.recvDispatcher (setup task.storage) ⟨p, env⟩) ≤ 6 := by
        cases hphase with
        | resting _ _ hidle' =>
            obtain ⟨keepAlive, heq⟩ := hidle'.through p _ rfl
            rw [heq]
            exact Nat.le_of_ble_eq_true rfl
        | broken _ hnone => cases hnone
        | sent _ _ _ hidle' =>
            obtain ⟨keepAlive, heq⟩ := hidle'.through p _ rfl
            rw [heq]
            exact Nat.le_of_ble_eq_true rfl
        | handled last p' program _ _ _ hsome _ hstage =>
            cases hsome
            exact hstage.cost_le
        | answered _ _ _ _ _ _ hidle' =>
            obtain ⟨keepAlive, heq⟩ := hidle'.through p _ rfl
            rw [heq]
            exact Nat.le_of_ble_eq_true rfl
      exact h.lessens_of_set htask (h.waiting task (hmem htask)) (fun _ => id)
        (work_receive hidle.1 hpacket hcost)
  | finish j task p keepAlive htask hhandling =>
      exact h.lessens_of_set htask (h.waiting task (hmem htask)) (fun _ => id)
        (work_through _ hhandling rfl)
  | fail j task p e htask hhandling =>
      exact h.lessens_of_set htask (h.waiting task (hmem htask)) (fun _ => id)
        (work_through true hhandling rfl)
  | consume j task ack answered p last rest htask hwaiting hlast hack haccepted =>
      have hrest : ∀ a ∈ rest, a ∈ task.toClient := fun a ha => hack ▸ List.mem_cons_of_mem _ ha
      refine h.lessens_of_set htask nofun hrest
        (work_consume hwaiting (h.waiting task (hmem htask) hwaiting) ?_)
      rw [hack]
      exact Nat.le_succ _
  | refuse j task ack answered p rest htask hwaiting hack hthrew =>
      have hrest : ∀ a ∈ rest, a ∈ task.toClient := fun a ha => hack ▸ List.mem_cons_of_mem _ ha
      exact h.lessens_of_set htask nofun hrest (work_refuse hwaiting hack)
  | lose j task htask hwaiting hclosed =>
      exact h.lessens_of_set htask nofun (fun _ => id)
        (work_consume hwaiting (h.waiting task (hmem htask) hwaiting) le_rfl)

/-- A step from outside changes nothing that has been sent. -/
theorem Readable.step (h : Readable st) (hsound : Sound setup st)
    (hstep : Step hashBufferHex setup .free st st') : Readable st' := by
  by_cases hchanges : st' = st
  · rwa [hchanges]
  by_cases hquiet : st'.master ≠ st.master → st'.partAcks ≠ st.partAcks
  · exact (h.internal hsound ⟨hstep, hchanges, hquiet⟩).readable
  push Not at hquiet
  obtain ⟨hmaster, -⟩ := hquiet
  cases hstep with
  | request r => exact ⟨h.waiting, h.acks, h.partAcks⟩
  | upload r => exact ⟨h.waiting, h.acks, h.partAcks⟩
  | deliver packet rest r hterms hpartAcks harrival =>
      exact (h.deliver hpartAcks harrival).readable
  | perform j task p flushed command next htask hhandling =>
      exact (h.perform hsound flushed htask hhandling).1
  | _ => exact absurd rfl hmaster

end Read

/-! ### Nobody is stuck -/

/-- A task that does not wait and that nobody handles is at rest. -/
theorem Phase.quiet {task : Task S} (h : Phase setup st task) (hwaiting : task.waiting = false)
    (hhandling : task.handling = none) : task.Quiet := by
  cases h with
  | resting _ hempty hidle => exact ⟨hhandling, hidle.stream hhandling, hempty.2, fun _ => hempty.1⟩
  | broken hclosed _ hempty hstream =>
      refine ⟨hhandling, hstream, hempty, fun hopen => ?_⟩
      rw [hclosed] at hopen
      cases hopen
  | sent last hawaits => exact absurd (hawaits.waiting.symm.trans hwaiting) Bool.noConfusion
  | handled last p program hawaits =>
      exact absurd (hawaits.waiting.symm.trans hwaiting) Bool.noConfusion
  | answered last p ack hawaits =>
      exact absurd (hawaits.waiting.symm.trans hwaiting) Bool.noConfusion

section Stuck

variable [DecidableEq S] {hashBufferHex : Bytes → Sha1Type} {j : ℕ} {task task' : Task S}

end Stuck

end Progress

end Mp2p.System
