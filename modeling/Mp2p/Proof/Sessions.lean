import Mp2p.Proof.Ledger
import Mp2p.Proof.Safety

/-!
# What every session is at

A session of a task carries one part at a time: on its way, handled by the storage, or answered. What
a handler has done so far is in the directory, or in the stream it has open, and with the master by
the time it goes on. Different tasks have different parts, so what one storage handler writes is of no
other task.
-/

namespace Mp2p.System

open Masks Network

section Sessions

variable {S : Type} (setup : S → Storage.Setup)

/-! ### The part a task is at -/

def Task.partid (task : Task S) (part : ℕ) : PartId := ⟨task.fid, (UInt64.ofNat part).toUInt32⟩

/-- The parts of a task that were acknowledged are below this. -/
def Task.served (task : Task S) : ℕ := task.i + task.toClient.countP fun answer => IsSuccess answer.1

/-- The task waits for the answer to this packet, which is the part it is at. -/
structure Awaits (task : Task S) (last : Packet) : Prop where
  waiting : task.waiting = true
  sent : task.sent = some last
  lt : task.i < task.endId
  part : ∃ hash partBuffer, last =
    Client.upActPacket task.fid (UInt64.ofNat task.i).toUInt32 hash partBuffer

structure Idle (task : Task S) : Prop where
  through : ∀ p program, task.handling = some (p, program) → ∃ keepAlive, program = .pure keepAlive
  closed : task.closed = true → task.handling = none
  stream : task.handling = none → task.stream = none

def Writes {V : Type} (st : State V S) (s : S) (path : Bytes) (stream : Stream) : Prop :=
  ∃ (j : ℕ) (task : Task S), st.tasks[j]? = some task ∧ task.storage = s ∧
    task.stream = some stream ∧ stream.path = path

/-- The file of the part has the data, or has them when the stream that has it open is closed. -/
def Holds {V : Type} (st : State V S) (s : S) (partid : PartId) (data : Bytes) : Prop :=
  ∃ contents, (st.directory s).lookup (Storage.uploadPath (setup s) partid) = some contents ∧
    ((∀ stream, ¬Writes st s (Storage.uploadPath (setup s) partid) stream) ∧ contents = data ∨
      ∃ stream, Writes st s (Storage.uploadPath (setup s) partid) stream ∧
        contents.length = stream.offset ∧ contents ++ stream.rest = data)

/-- The storage holds the payload of the packet, which has the hash it came with. -/
def Stored (st : State DB.Record S) (s : S) (partid : PartId) (p : Packet) : Prop :=
  ∃ part data, Storage.readUpAct p = some (part, data) ∧ part.partid = partid ∧
    Storage.Checks (setup s) part data ∧ Holds setup st s partid data

def Told (st : State DB.Record S) (s : S) (partid : PartId) : Prop :=
  Storage.partAckPacket (setup s).id partid 10 ∈ st.partAcks ∨
    Recorded st.master partid (setup s).id

/-- What the handler of a part has still to do, and what it has done before. -/
inductive Stage (st : State DB.Record S) (s : S) (partid : PartId) (p : Packet) :
    Option Stream → Storage.Handler KeepAlive → Prop where
  | threw (stream : Option Stream) (e : Storage.Halt) : Stage st s partid p stream (.throw e)
  | refused (stream : Option Stream) (code : ErrorCode) (hcode : code ≠ .success) :
      Stage st s partid p stream (answering code .no)
  | checked (env : Storage.Env) (part : CS.UpAct) (data : Bytes)
      (hread : Storage.readUpAct p = some (part, data)) (hpartid : part.partid = partid)
      (hchecks : Storage.Checks (setup s) part data) :
      Stage st s partid p none (storing (setup s) env partid data)
  | stored (stream : Option Stream) (env : Storage.Env) (hstored : Stored setup st s partid p) :
      Stage st s partid p stream (telling (setup s) env partid)
  | told (stream : Option Stream) (hstored : Stored setup st s partid p)
      (htold : Told setup st s partid) : Stage st s partid p stream (answering .success .yes)

inductive Phase (st : State DB.Record S) (task : Task S) : Prop where
  | resting (hwaiting : task.waiting = false) (hempty : task.toStorage = [] ∧ task.toClient = [])
      (hidle : Idle task)
  | broken (hclosed : task.closed = true) (hhandling : task.handling = none)
      (hempty : task.toClient = []) (hstream : task.stream = none)
  | sent (last : Packet) (hawaits : Awaits task last)
      (hflight : task.toStorage = [last] ∧ task.toClient = []) (hidle : Idle task)
  | handled (last p : Packet) (program : Storage.Handler KeepAlive) (hawaits : Awaits task last)
      (harrival : arrival last = some p) (hempty : task.toStorage = [] ∧ task.toClient = [])
      (hhandling : task.handling = some (p, program)) (hopen : task.closed = false)
      (hstage : Stage setup st task.storage (task.partid task.i) p task.stream program)
  | answered (last p ack : Packet) (hawaits : Awaits task last) (harrival : arrival last = some p)
      (hflight : task.toStorage = [] ∧ task.toClient = [(ack, p)]) (hidle : Idle task)

variable {setup} {st st' : State DB.Record S} {s : S} {partid : PartId} {p : Packet}
  {program : Storage.Handler KeepAlive} {stream : Option Stream} {task : Task S}

/-! ### What other steps leave alone -/

theorem Stored.mono (h : Stored setup st s partid p)
    (hholds : ∀ data, Holds setup st s partid data → Holds setup st' s partid data) :
    Stored setup st' s partid p := by
  obtain ⟨part, data, hread, hpartid, hchecks, hheld⟩ := h
  exact ⟨part, data, hread, hpartid, hchecks, hholds data hheld⟩

theorem Stage.mono (h : Stage setup st s partid p stream program)
    (hholds : ∀ data, Holds setup st s partid data → Holds setup st' s partid data)
    (htold : Told setup st s partid → Told setup st' s partid) :
    Stage setup st' s partid p stream program := by
  cases h with
  | threw _ e => exact .threw _ e
  | refused _ code hcode => exact .refused _ code hcode
  | checked env part data hread hpartid hchecks => exact .checked env part data hread hpartid hchecks
  | stored _ env hstored => exact .stored _ env (hstored.mono hholds)
  | told _ hstored htold' => exact .told _ (hstored.mono hholds) (htold htold')

theorem Phase.mono (h : Phase setup st task)
    (hholds : ∀ data, task.i < task.endId →
      Holds setup st task.storage (task.partid task.i) data →
      Holds setup st' task.storage (task.partid task.i) data)
    (htold : Told setup st task.storage (task.partid task.i) →
      Told setup st' task.storage (task.partid task.i)) : Phase setup st' task := by
  cases h with
  | resting hwaiting hempty hidle => exact .resting hwaiting hempty hidle
  | broken hclosed hhandling hempty hstream => exact .broken hclosed hhandling hempty hstream
  | sent last hawaits hflight hidle => exact .sent last hawaits hflight hidle
  | handled last p program hawaits harrival hempty hhandling hopen hstage =>
      refine .handled last p program hawaits harrival hempty hhandling hopen ?_
      exact hstage.mono (fun data => hholds data hawaits.lt) htold
  | answered last p ack hawaits harrival hflight hidle =>
      exact .answered last p ack hawaits harrival hflight hidle

/-! ### What a part comes to -/

theorem stage_recvDispatcher {last : Packet} {env : Storage.Env} (henv : Reliable env)
    (hawaits : Awaits task last) (harrival : arrival last = some p) :
    Stage setup st task.storage (task.partid task.i) p none
      (Storage.recvDispatcher (setup task.storage) ⟨p, env⟩) := by
  obtain ⟨hash, partBuffer, rfl⟩ := hawaits.part
  have htype : p.header.type = ⟨CS.fromto, CS.upActW⟩ :=
    congrArg PacketHeader.type (header_of_arrival harrival)
  have hfromto : p.fromtoGet = CS.fromto := congrArg PacketType.fromto htype
  have hwhat : p.whatGet = CS.upActW := congrArg PacketType.what htype
  obtain ⟨e, hthrew⟩ | ⟨code, hcode, hrefused⟩ | ⟨part, data, hread, hchecks, hstoring⟩ :=
    recvDispatcher_cases (s := setup task.storage) henv (delivered_of_arrival harrival) hfromto hwhat
  · rw [hthrew]
    exact .threw _ e
  · rw [hrefused]
    exact .refused _ code hcode
  · have hpartid : part.partid = task.partid task.i := partid_of_arrival harrival hread
    rw [hstoring, hpartid]
    exact .checked env part data hread hpartid hchecks

/-! ### The invariant -/

def Given (st : State DB.Record S) (answer : Packet) : Prop :=
  ∃ fid fields, answer = Master.upPiecesLocPacket fid fields ∧
    fid.toNat < Master.uploads st.master ∧ Client.totalParts fields < 2 ^ 32 ∧
    ∀ task ∈ st.tasks, task.fid ≠ fid

def fidOf (answer : Packet) : Option FidType := Layout.overlay answer.payload 0

/-- The packet was acknowledged for a part of a task that is behind it. -/
def Attributed (setup : S → Storage.Setup) (st : State DB.Record S) (s : S) (p : Packet) : Prop :=
  ∃ (j : ℕ) (task : Task S) (part : ℕ), st.tasks[j]? = some task ∧ task.storage = s ∧
    (task.beginId ≤ part ∧ part < task.endId ∧ part < task.served) ∧
    Stored setup st s (task.partid part) p ∧ Told setup st s (task.partid part)

structure Sound (setup : S → Storage.Setup) (st : State DB.Record S) : Prop where
  ledger : ∃ mof, Ledger st.master mof
  valid : DB.Tools.Statics.Valid st.master.statics
  given : ∀ a ∈ st.answers, Given st a.2
  distinct : (st.answers.map fun a => fidOf a.2).Nodup
  bounded : ∀ (j : ℕ) (task : Task S), st.tasks[j]? = some task →
    task.fid.toNat < Master.uploads st.master ∧ task.beginId ≤ task.i ∧ task.endId < 2 ^ 32
  apart : ∀ (j k : ℕ) (task task' : Task S), st.tasks[j]? = some task →
    st.tasks[k]? = some task' → j ≠ k → task.fid = task'.fid →
      task.endId ≤ task'.beginId ∨ task'.endId ≤ task.beginId
  phase : ∀ (j : ℕ) (task : Task S), st.tasks[j]? = some task → Phase setup st task
  streams : ∀ (j : ℕ) (task : Task S) (stream : Stream), st.tasks[j]? = some task →
    task.stream = some stream → ∃ part, (task.beginId ≤ part ∧ part < task.endId) ∧
      stream.path = Storage.uploadPath (setup task.storage) (task.partid part)
  acked : ∀ s p, (s, p) ∈ st.acked → Attributed setup st s p
  consumed : ∀ last answered, (last, answered) ∈ st.consumed → arrival last = some answered

/-! ### The step of a task -/

/-- One task goes on: what its storage holds changes at most for the part it is at, and nothing that
was told is lost. -/
structure Advances (setup : S → Storage.Setup) (st st' : State DB.Record S) (j : ℕ)
    (task task' : Task S) : Prop where
  found : st.tasks[j]? = some task
  tasks : st'.tasks = st.tasks.set j task'
  master : st'.master = st.master
  answers : st'.answers = st.answers
  same : task'.storage = task.storage ∧ task'.fid = task.fid ∧ task'.beginId = task.beginId ∧
    task'.endId = task.endId
  le : task.i ≤ task'.i
  served : task.served ≤ task'.served
  holds : ∀ s partid data, Holds setup st s partid data → Holds setup st' s partid data ∨
    partid = task.partid task.i ∧ task.i < task.endId ∧ task.served = task.i
  told : ∀ s partid, Told setup st s partid → Told setup st' s partid
  phase : Phase setup st' task'
  stream : ∀ stream, task'.stream = some stream → task.stream = some stream ∨
    task.i < task.endId ∧ stream.path = Storage.uploadPath (setup task.storage) (task.partid task.i)
  acked : ∀ s p, (s, p) ∈ st'.acked → (s, p) ∈ st.acked ∨ s = task.storage ∧
    (task.i < task.endId ∧ task.i < task'.served) ∧
    Stored setup st' s (task.partid task.i) p ∧ Told setup st' s (task.partid task.i)
  consumed : ∀ last answered, (last, answered) ∈ st'.consumed →
    (last, answered) ∈ st.consumed ∨ arrival last = some answered

theorem partid_injective (task : Task S) {part part' : ℕ} (hlt : part < 2 ^ 32)
    (hlt' : part' < 2 ^ 32) (h : task.partid part = task.partid part') : part = part' := by
  have hnum := congrArg (fun partid => partid.partnum.toNat) h
  dsimp only [Task.partid] at hnum
  rw [UInt64.toNat_toUInt32, UInt64.toNat_toUInt32, UInt64.toNat_ofNat', UInt64.toNat_ofNat'] at hnum
  omega

/-- Tasks at different positions have different parts. -/
theorem Sound.partid_ne (h : Sound setup st) {j k : ℕ} {task' : Task S}
    (hj : st.tasks[j]? = some task) (hk : st.tasks[k]? = some task') (hne : j ≠ k) {part part' : ℕ}
    (hpart : task.beginId ≤ part ∧ part < task.endId)
    (hpart' : task'.beginId ≤ part' ∧ part' < task'.endId) :
    task.partid part ≠ task'.partid part' := by
  intro heq
  have hfid : task.fid = task'.fid := congrArg PartId.fid heq
  have hapart := h.apart j k task task' hj hk hne hfid
  have hbound := (h.bounded j task hj).2.2
  have hbound' := (h.bounded k task' hk).2.2
  have hsame : task.partid part = task.partid part' := by
    rw [heq, Task.partid, Task.partid, hfid]
  have := partid_injective task (by omega) (by omega) hsame
  omega

theorem getElem?_set_cases {tasks : List (Task S)} {j k : ℕ} {task' other : Task S}
    (hk : (tasks.set j task')[k]? = some other) :
    k = j ∧ other = task' ∨ k ≠ j ∧ tasks[k]? = some other := by
  rw [List.getElem?_set] at hk
  by_cases hkj : j = k
  · rw [if_pos hkj] at hk
    split_ifs at hk with hlt
    · exact .inl ⟨hkj.symm, (Option.some_inj.mp hk).symm⟩
  · rw [if_neg hkj] at hk
    exact .inr ⟨Ne.symm hkj, hk⟩

/-! ### The files that are open -/

section Files

variable {j : ℕ} {task' : Task S} {path : Bytes}

/-- A file is open in one task at most. -/
theorem Sound.writer_unique (h : Sound setup st) {k : ℕ} {stream stream' : Stream}
    (hj : st.tasks[j]? = some task) (hk : st.tasks[k]? = some task')
    (hstorage : task'.storage = task.storage) (hstream : task.stream = some stream)
    (hstream' : task'.stream = some stream') (hpath : stream'.path = stream.path) : k = j := by
  by_contra hne
  obtain ⟨part, hpart, heq⟩ := h.streams j task stream hj hstream
  obtain ⟨part', hpart', heq'⟩ := h.streams k task' stream' hk hstream'
  rw [heq, heq', hstorage] at hpath
  exact h.partid_ne hk hj hne hpart' hpart (Storage.uploadPath_injective _ hpath)

theorem writes_set_iff (hfound : st.tasks[j]? = some task)
    (htasks : st'.tasks = st.tasks.set j task') (hstorage : task'.storage = task.storage)
    (hstream : s = task.storage → ∀ stream : Stream, stream.path = path →
      (task'.stream = some stream ↔ task.stream = some stream)) (stream : Stream) :
    Writes st' s path stream ↔ Writes st s path stream := by
  constructor
  · rintro ⟨k, other, hk, rfl, hopen, hpath⟩
    obtain ⟨rfl, rfl⟩ | ⟨-, hk⟩ := getElem?_set_cases (htasks ▸ hk)
    · exact ⟨k, task, hfound, hstorage.symm, (hstream hstorage stream hpath).mp hopen, hpath⟩
    · exact ⟨k, other, hk, rfl, hopen, hpath⟩
  · rintro ⟨k, other, hk, rfl, hopen, hpath⟩
    by_cases hkj : k = j
    · subst hkj
      rw [hfound, Option.some_inj] at hk
      subst hk
      refine ⟨k, task', ?_, hstorage, (hstream rfl stream hpath).mpr hopen, hpath⟩
      rw [htasks, List.getElem?_set_self (List.getElem?_eq_some_iff.mp hfound).1]
    · refine ⟨k, other, ?_, rfl, hopen, hpath⟩
      rw [htasks, List.getElem?_set_ne (Ne.symm hkj), hk]

theorem Holds.congr {data : Bytes} (h : Holds setup st s partid data)
    (hlookup : (st'.directory s).lookup (Storage.uploadPath (setup s) partid) =
      (st.directory s).lookup (Storage.uploadPath (setup s) partid))
    (hwrites : ∀ stream, Writes st' s (Storage.uploadPath (setup s) partid) stream ↔
      Writes st s (Storage.uploadPath (setup s) partid) stream) :
    Holds setup st' s partid data := by
  obtain ⟨contents, hcontents, hdata⟩ := h
  refine ⟨contents, hlookup.trans hcontents, ?_⟩
  simp only [hwrites]
  exact hdata

/-- A step that leaves the directories and the open files of every task as they are. -/
theorem Holds.set {data : Bytes} (h : Holds setup st s partid data)
    (hfound : st.tasks[j]? = some task) (htasks : st'.tasks = st.tasks.set j task')
    (hdirectory : st'.directory = st.directory) (hstorage : task'.storage = task.storage)
    (hstream : task'.stream = task.stream) : Holds setup st' s partid data :=
  h.congr (by rw [hdirectory])
    (writes_set_iff hfound htasks hstorage fun _ _ _ => by rw [hstream])

/-- New tasks have no file open. -/
theorem Holds.append {data : Bytes} {tasks : List (Task S)} (h : Holds setup st s partid data)
    (htasks : st'.tasks = st.tasks ++ tasks) (hdirectory : st'.directory = st.directory)
    (hclosed : ∀ task ∈ tasks, task.stream = none) : Holds setup st' s partid data := by
  refine h.congr (by rw [hdirectory]) fun stream => ⟨?_, ?_⟩
  · rintro ⟨k, other, hk, hstorage, hopen, hpath⟩
    rw [htasks] at hk
    obtain hlt | hge := Nat.lt_or_ge k st.tasks.length
    · rw [List.getElem?_append_left hlt] at hk
      exact ⟨k, other, hk, hstorage, hopen, hpath⟩
    · rw [List.getElem?_append_right hge] at hk
      rw [hclosed other (List.mem_of_getElem? hk)] at hopen
      cases hopen
  · rintro ⟨k, other, hk, hstorage, hopen, hpath⟩
    refine ⟨k, other, ?_, hstorage, hopen, hpath⟩
    rw [htasks, List.getElem?_append_left (List.getElem?_eq_some_iff.mp hk).1, hk]

/-- The file of a part is open in the task of the part at most. -/
theorem Sound.stream_of_writes (h : Sound setup st) (hj : st.tasks[j]? = some task) {part : ℕ}
    (hpart : task.beginId ≤ part ∧ part < task.endId) {stream : Stream}
    (hwrites : Writes st task.storage
      (Storage.uploadPath (setup task.storage) (task.partid part)) stream) :
    task.stream = some stream := by
  obtain ⟨k, other, hk, hstorage, hopen, hpath⟩ := hwrites
  by_cases hkj : k = j
  · subst hkj
    rw [hj, Option.some_inj] at hk
    rwa [hk]
  · obtain ⟨part', hpart', heq⟩ := h.streams k other stream hk hopen
    rw [heq, hstorage] at hpath
    exact absurd (Storage.uploadPath_injective _ hpath) (h.partid_ne hk hj hkj hpart' hpart)

theorem writeAt_length (contents bytes : Bytes) :
    writeAt contents contents.length bytes = contents ++ bytes := by
  simp [writeAt]

theorem lookup_close_ne {stream : Stream} (hpath : path ≠ stream.path)
    (directory : Storage.Directory) :
    (stream.close directory).lookup path = directory.lookup path := by
  rw [Stream.close]
  split_ifs
  · rfl
  · exact AList.lookup_insert_ne hpath

/-- A file that is closed has what its stream had still to write. -/
theorem lookup_close {stream : Stream} {directory : Storage.Directory} {contents data : Bytes}
    (hcontents : directory.lookup stream.path = some contents)
    (hoffset : contents.length = stream.offset) (hdata : contents ++ stream.rest = data) :
    (stream.close directory).lookup stream.path = some data := by
  rw [Stream.close]
  split_ifs with hrest
  · rw [hcontents, ← hdata, hrest, List.append_nil]
  · rw [AList.lookup_insert, hcontents, Option.getD_some, ← hoffset, writeAt_length, hdata]

/-- A handler that ends loses nothing of what it has written. -/
theorem Sound.holds_leave [DecidableEq S] (h : Sound setup st) (hfound : st.tasks[j]? = some task)
    (closed : Bool) {data : Bytes} (hheld : Holds setup st s partid data) :
    Holds setup (st.leave j task closed) s partid data := by
  cases hstream : task.stream with
  | none =>
      have hdirectory : (st.leave j task closed).directory = st.directory := by
        rw [State.leave, hstream, Option.elim_none]
      exact hheld.set hfound rfl hdirectory rfl hstream.symm
  | some stream =>
      have hdirectory : (st.leave j task closed).directory = Function.update st.directory
          task.storage (stream.close (st.directory task.storage)) := by
        rw [State.leave, hstream, Option.elim_some]
      by_cases hs : s = task.storage
      · subst hs
        by_cases hpath : Storage.uploadPath (setup task.storage) partid = stream.path
        · obtain ⟨contents, hcontents, ⟨hnone, -⟩ | ⟨stream', hwrites, hoffset, hdata⟩⟩ := hheld
          · exact absurd ⟨j, task, hfound, rfl, hstream, hpath.symm⟩ (hnone stream)
          obtain ⟨k, other, hk, hstorage, hopen, hpath'⟩ := hwrites
          obtain rfl := h.writer_unique hfound hk hstorage hstream hopen (hpath'.trans hpath)
          rw [hfound, Option.some_inj] at hk
          subst hk
          rw [hstream, Option.some_inj] at hopen
          subst hopen
          refine ⟨data, ?_, .inl ⟨?_, rfl⟩⟩
          · rw [hdirectory, Function.update_self, hpath]
            exact lookup_close (hpath ▸ hcontents) hoffset hdata
          · rintro stream' ⟨i, other, hi, hstorage, hopen, hpath''⟩
            obtain ⟨-, rfl⟩ | ⟨hne, hi⟩ := getElem?_set_cases hi
            · cases hopen
            · exact hne (h.writer_unique hfound hi hstorage hstream hopen
                (hpath''.trans hpath))
        · refine hheld.congr ?_ (writes_set_iff hfound rfl rfl fun _ stream' hpath' => ?_)
          · rw [hdirectory, Function.update_self, lookup_close_ne hpath]
          · rw [hstream, Option.some_inj]
            refine iff_of_false nofun ?_
            rintro rfl
            exact hpath hpath'.symm
      · refine hheld.congr ?_ (writes_set_iff hfound rfl rfl fun hs' => absurd hs' hs)
        rw [hdirectory, Function.update_of_ne hs]

end Files

section Advance

variable {j : ℕ} {task' : Task S}

theorem Advances.getElem?_self (hstep : Advances setup st st' j task task') :
    st'.tasks[j]? = some task' := by
  rw [hstep.tasks, List.getElem?_set_self (List.getElem?_eq_some_iff.mp hstep.found).1]

theorem Advances.partid_eq (hstep : Advances setup st st' j task task') (part : ℕ) :
    task'.partid part = task.partid part := by
  rw [Task.partid, Task.partid, hstep.same.2.1]

/-- What was acknowledged stays stored: the one file that changes is of a part not acknowledged
yet. -/
theorem Sound.attributed (h : Sound setup st) (hstep : Advances setup st st' j task task')
    (hold : Attributed setup st s p) : Attributed setup st' s p := by
  obtain ⟨k, owner, part, hk, howner, ⟨hlow, hhigh, hbehind⟩, hstored, htold⟩ := hold
  have hbounded := h.bounded j task hstep.found
  have hstored' : Stored setup st' s (owner.partid part) p := by
    refine hstored.mono fun data hheld => ?_
    obtain hheld' | ⟨heq, hlt, hserved⟩ := hstep.holds _ _ data hheld
    · exact hheld'
    by_cases hkj : k = j
    · subst hkj
      rw [hstep.found, Option.some_inj] at hk
      subst hk
      have := partid_injective task (by omega) (by omega) heq
      omega
    · exact absurd heq (h.partid_ne hk hstep.found hkj ⟨hlow, hhigh⟩ ⟨hbounded.2.1, hlt⟩)
  by_cases hkj : k = j
  · subst hkj
    rw [hstep.found, Option.some_inj] at hk
    subst hk
    obtain ⟨hstorage, -, hbegin, hend⟩ := hstep.same
    refine ⟨k, task', part, hstep.getElem?_self, hstorage.trans howner, ?_, ?_, ?_⟩
    · rw [hbegin, hend]
      exact ⟨hlow, hhigh, hbehind.trans_le hstep.served⟩
    · rwa [hstep.partid_eq]
    · rw [hstep.partid_eq]
      exact hstep.told _ _ htold
  · refine ⟨k, owner, part, ?_, howner, ⟨hlow, hhigh, hbehind⟩, hstored', hstep.told _ _ htold⟩
    rw [hstep.tasks, List.getElem?_set_ne (Ne.symm hkj), hk]

/-- **One task goes on.** -/
theorem Sound.advance (h : Sound setup st) (hstep : Advances setup st st' j task task') :
    Sound setup st' := by
  obtain ⟨hstorage, hfid, hbegin, hend⟩ := hstep.same
  have hcases {k : ℕ} {other : Task S} (hk : st'.tasks[k]? = some other) :=
    getElem?_set_cases (hstep.tasks ▸ hk)
  -- Every task of the new state is one of the old, as far as its share is concerned.
  have hold {k : ℕ} {other : Task S} (hk : st'.tasks[k]? = some other) :
      ∃ old, st.tasks[k]? = some old ∧ other.fid = old.fid ∧ other.beginId = old.beginId ∧
        other.endId = old.endId := by
    obtain ⟨rfl, rfl⟩ | ⟨-, hk⟩ := hcases hk
    · exact ⟨task, hstep.found, hfid, hbegin, hend⟩
    · exact ⟨other, hk, rfl, rfl, rfl⟩
  have hbounded := h.bounded j task hstep.found
  refine ⟨?_, ?_, ?_, ?_, ?_, ?_, ?_, ?_, ?_, ?_⟩
  · rw [hstep.master]
    exact h.ledger
  · rw [hstep.master]
    exact h.valid
  · intro a ha
    rw [hstep.answers] at ha
    obtain ⟨fid, fields, hanswer, hlt, hparts, hfresh⟩ := h.given a ha
    refine ⟨fid, fields, hanswer, by rwa [hstep.master], hparts, fun other hother => ?_⟩
    obtain ⟨k, hk⟩ := List.mem_iff_getElem?.mp hother
    obtain ⟨old, hkold, hfidold, -⟩ := hold hk
    rw [hfidold]
    exact hfresh old (List.mem_of_getElem? hkold)
  · rw [hstep.answers]
    exact h.distinct
  · intro k other hk
    rw [hstep.master]
    obtain ⟨rfl, rfl⟩ | ⟨-, hk⟩ := hcases hk
    · rw [hfid, hbegin, hend]
      exact ⟨hbounded.1, hbounded.2.1.trans hstep.le, hbounded.2.2⟩
    · exact h.bounded k other hk
  · intro k k' other other' hk hk' hne hfid'
    obtain ⟨old, hkold, hf, hb, he⟩ := hold hk
    obtain ⟨old', hkold', hf', hb', he'⟩ := hold hk'
    rw [hb, he, hb', he']
    exact h.apart k k' old old' hkold hkold' hne (by rw [← hf, ← hf', hfid'])
  · intro k other hk
    obtain ⟨rfl, rfl⟩ | ⟨hne, hk⟩ := hcases hk
    · exact hstep.phase
    · refine (h.phase k other hk).mono (fun data hlt hheld => ?_) (hstep.told _ _)
      obtain hheld' | ⟨heq, hlt', -⟩ := hstep.holds _ _ data hheld
      · exact hheld'
      · exact absurd heq (h.partid_ne hk hstep.found hne ⟨(h.bounded k other hk).2.1, hlt⟩
          ⟨hbounded.2.1, hlt'⟩)
  · intro k other stream hk hopen
    obtain ⟨rfl, rfl⟩ | ⟨-, hk⟩ := hcases hk
    · have hpart : ∃ part, (task.beginId ≤ part ∧ part < task.endId) ∧
          stream.path = Storage.uploadPath (setup task.storage) (task.partid part) := by
        obtain hopen | ⟨hlt, hpath⟩ := hstep.stream stream hopen
        · exact h.streams k task stream hstep.found hopen
        · exact ⟨task.i, ⟨hbounded.2.1, hlt⟩, hpath⟩
      obtain ⟨part, hrange, hpath⟩ := hpart
      refine ⟨part, ?_, ?_⟩
      · rwa [hbegin, hend]
      · rwa [hstorage, hstep.partid_eq]
    · exact h.streams k other stream hk hopen
  · intro s p hp
    obtain hp | ⟨rfl, ⟨hlt, hserved⟩, hstored, htold⟩ := hstep.acked s p hp
    · exact h.attributed hstep (h.acked s p hp)
    · refine ⟨j, task', task.i, hstep.getElem?_self, hstorage, ?_, ?_, ?_⟩
      · rw [hbegin, hend]
        exact ⟨hbounded.2.1, hlt, hserved⟩
      · rwa [hstep.partid_eq]
      · rwa [hstep.partid_eq]
  · intro last answered hanswered
    obtain hanswered | harrival := hstep.consumed last answered hanswered
    · exact h.consumed last answered hanswered
    · exact harrival

/-- Steps of a task that touch no file, no acknowledgement on its way and no record. -/
theorem advances_of_phase (hfound : st.tasks[j]? = some task) (hphase : Phase setup st task')
    (hsame : task'.storage = task.storage ∧ task'.fid = task.fid ∧ task'.beginId = task.beginId ∧
      task'.endId = task.endId) (hstream : task'.stream = task.stream) (hle : task.i ≤ task'.i)
    (hserved : task.served ≤ task'.served)
    {consumed : List (Packet × Packet)}
    (hconsumed : ∀ last answered, (last, answered) ∈ consumed →
      (last, answered) ∈ st.consumed ∨ arrival last = some answered) :
    Advances setup st { st with tasks := st.tasks.set j task', consumed } j task task' where
  found := hfound
  tasks := rfl
  master := rfl
  answers := rfl
  same := hsame
  le := hle
  served := hserved
  holds := fun _ _ _ hheld => .inl (hheld.set hfound rfl rfl hsame.1 hstream)
  told := fun _ _ htold => htold
  phase := hphase.mono (fun _ _ hheld => hheld.set hfound rfl rfl hsame.1 hstream) id
  stream := fun _ hopen => .inl (hstream ▸ hopen)
  acked := fun _ _ hacked => .inl hacked
  consumed := hconsumed

end Advance

/-! ### Each step of a task -/

section Steps

variable {hashBufferHex : Bytes → Sha1Type} {j : ℕ} {last : Packet} {keepAlive : KeepAlive}

theorem Awaits.ne_ready (h : Awaits task last) (hwaiting : task.waiting = false) : False := by
  rw [h.waiting] at hwaiting
  cases hwaiting

theorem Idle.ne_throw (h : Idle task) {e : Storage.Halt}
    (hhandling : task.handling = some (p, .throw e)) : False := by
  obtain ⟨keepAlive, hpure⟩ := h.through p _ hhandling
  cases hpure

theorem Idle.ne_op (h : Idle task) {command : Storage.Command}
    {next : command.Answer → Storage.Handler KeepAlive}
    (hhandling : task.handling = some (p, .op command next)) : False := by
  obtain ⟨keepAlive, hpure⟩ := h.through p _ hhandling
  cases hpure

theorem Stage.ne_pure (h : Stage setup st s partid p stream program) :
    program ≠ .pure keepAlive := by
  intro heq
  cases h with
  | threw _ e => cases heq
  | refused _ code hcode => cases heq
  | checked env part data hread hpartid hchecks => cases heq
  | told _ hstored htold => cases heq
  | stored _ env hstored =>
      rw [telling] at heq
      split_ifs at heq

theorem exists_upActPacket {fid : FidType} {file : Client.File} {totalParts i : ℕ} {toSend : Packet}
    (h : Client.partPacket hashBufferHex fid file totalParts i = some toSend) :
    ∃ hash partBuffer, toSend =
      Client.upActPacket fid (UInt64.ofNat i).toUInt32 hash partBuffer := by
  rw [Client.partPacket] at h
  split_ifs at h
  obtain ⟨buffer, -, rfl⟩ := Option.map_eq_some_iff.mp h
  exact ⟨_, buffer, rfl⟩

theorem Phase.send (h : Phase setup st task) (hwaiting : task.waiting = false)
    (hlt : task.i < task.endId) {toSend : Packet}
    (hpacket : Client.partPacket hashBufferHex task.fid task.file task.totalParts task.i =
      some toSend) :
    Phase setup st { task with
      waiting := true
      sent := some toSend
      toStorage := task.toStorage ++ [toSend] } := by
  cases h with
  | resting _ hempty hidle =>
      refine .sent toSend ⟨rfl, rfl, hlt, exists_upActPacket hpacket⟩ ⟨?_, hempty.2⟩
        ⟨hidle.through, hidle.closed, hidle.stream⟩
      rw [hempty.1, List.nil_append]
  | broken hclosed hhandling hempty hstream => exact .broken hclosed hhandling hempty hstream
  | sent last hawaits => exact (hawaits.ne_ready hwaiting).elim
  | handled last p program hawaits => exact (hawaits.ne_ready hwaiting).elim
  | answered last p ack hawaits => exact (hawaits.ne_ready hwaiting).elim

theorem Phase.receive (h : Phase setup st task) {packet : Packet} {rest : List Packet}
    {env : Storage.Env} (hopen : task.handling = none ∧ task.closed = false)
    (hpacket : task.toStorage = packet :: rest) (harrival : arrival packet = some p)
    (henv : Reliable env) :
    Phase setup st { task with
      toStorage := rest
      handling := some (p, Storage.recvDispatcher (setup task.storage) ⟨p, env⟩) } := by
  cases h with
  | resting _ hempty =>
      rw [hempty.1] at hpacket
      cases hpacket
  | broken hclosed =>
      rw [hopen.2] at hclosed
      cases hclosed
  | sent last hawaits hflight hidle =>
      rw [hflight.1] at hpacket
      cases hpacket
      have hstage : Stage setup st task.storage (task.partid task.i) p none _ :=
        stage_recvDispatcher henv hawaits harrival
      rw [← hidle.stream hopen.1] at hstage
      exact .handled packet p _ ⟨hawaits.waiting, hawaits.sent, hawaits.lt, hawaits.part⟩ harrival
        ⟨rfl, hflight.2⟩ rfl hopen.2 hstage
  | handled last p' program hawaits _ _ hhandling =>
      rw [hopen.1] at hhandling
      cases hhandling
  | answered last p' ack hawaits _ hflight =>
      rw [hflight.1] at hpacket
      cases hpacket

theorem Phase.finish (h : Phase setup st task)
    (hhandling : task.handling = some (p, .pure keepAlive)) :
    Phase setup st { task with
      handling := none
      stream := none
      closed := decide (keepAlive = .no) } := by
  have hidle : Idle { task with
      handling := none
      stream := none
      closed := decide (keepAlive = .no) } := by
    refine ⟨?_, fun _ => rfl, fun _ => rfl⟩
    intro p program hsome
    cases hsome
  cases h with
  | resting hwaiting hempty => exact .resting hwaiting hempty hidle
  | broken _ hnone =>
      rw [hnone] at hhandling
      cases hhandling
  | sent last hawaits hflight =>
      exact .sent last ⟨hawaits.waiting, hawaits.sent, hawaits.lt, hawaits.part⟩ hflight hidle
  | handled last p' program _ _ _ hprogram _ hstage =>
      rw [hprogram, Option.some_inj, Prod.mk.injEq] at hhandling
      exact absurd hhandling.2 hstage.ne_pure
  | answered last p' ack hawaits harrival hflight =>
      exact .answered last p' ack ⟨hawaits.waiting, hawaits.sent, hawaits.lt, hawaits.part⟩
        harrival hflight hidle

theorem Phase.fail (h : Phase setup st task) {e : Storage.Halt}
    (hhandling : task.handling = some (p, .throw e)) :
    Phase setup st { task with handling := none, stream := none, closed := true } := by
  cases h with
  | resting _ _ hidle => exact (hidle.ne_throw hhandling).elim
  | broken _ hnone =>
      rw [hnone] at hhandling
      cases hhandling
  | sent _ _ _ hidle => exact (hidle.ne_throw hhandling).elim
  | handled last p' program _ _ hempty => exact .broken rfl rfl hempty.2 rfl
  | answered _ _ _ _ _ _ hidle => exact (hidle.ne_throw hhandling).elim

/-- The one answer on its way is to what was sent last. -/
theorem Phase.of_toClient (h : Phase setup st task) {ack answered : Packet}
    {rest : List (Packet × Packet)} (htoClient : task.toClient = (ack, answered) :: rest) :
    rest = [] ∧ task.toStorage = [] ∧ Idle task ∧
      ∃ last, task.sent = some last ∧ arrival last = some answered := by
  cases h with
  | resting _ hempty =>
      rw [hempty.2] at htoClient
      cases htoClient
  | broken _ _ hempty _ =>
      rw [hempty] at htoClient
      cases htoClient
  | sent last hawaits hflight =>
      rw [hflight.2] at htoClient
      cases htoClient
  | handled last p program hawaits _ hempty =>
      rw [hempty.2] at htoClient
      cases htoClient
  | answered last p ack' hawaits harrival hflight hidle =>
      rw [hflight.2] at htoClient
      cases htoClient
      exact ⟨rfl, hflight.1, hidle, last, hawaits.sent, harrival⟩

theorem Phase.consume (h : Phase setup st task) (hfound : st.tasks[j]? = some task)
    {ack answered : Packet} {rest : List (Packet × Packet)} (hlast : task.sent = some last)
    (htoClient : task.toClient = (ack, answered) :: rest) :
    Advances setup st { st with
      consumed := (last, answered) :: st.consumed
      tasks := st.tasks.set j { task with
        waiting := false
        i := task.i + 1
        toClient := rest } } j task { task with
          waiting := false
          i := task.i + 1
          toClient := rest } := by
  obtain ⟨rfl, hempty, hidle, last', hsent, harrival⟩ := h.of_toClient htoClient
  have hphase : Phase setup st { task with waiting := false, i := task.i + 1, toClient := [] } :=
    .resting rfl ⟨hempty, rfl⟩ ⟨hidle.through, hidle.closed, hidle.stream⟩
  refine advances_of_phase hfound hphase ⟨rfl, rfl, rfl, rfl⟩ rfl (Nat.le_succ _) ?_ ?_
  · rw [Task.served, htoClient]
    exact Nat.add_le_add_left List.countP_le_length _
  · intro last₁ answered₁ hmem
    obtain heq | hmem := List.mem_cons.mp hmem
    · cases heq
      rw [hlast, Option.some_inj] at hsent
      exact .inr (hsent ▸ harrival)
    · exact .inl hmem

theorem Phase.refuse (h : Phase setup st task) (hfound : st.tasks[j]? = some task)
    {ack answered : Packet} {rest : List (Packet × Packet)}
    (htoClient : task.toClient = (ack, answered) :: rest)
    (hthrew : (recvAck (blockingSend ack)).1 = .threw p) :
    Advances setup st { st with tasks := st.tasks.set j { task with
      waiting := false
      threw := true
      toClient := rest } } j task { task with
        waiting := false
        threw := true
        toClient := rest } := by
  obtain ⟨rfl, hempty, hidle, -⟩ := h.of_toClient htoClient
  have hphase : Phase setup st { task with waiting := false, threw := true, toClient := [] } :=
    .resting rfl ⟨hempty, rfl⟩ ⟨hidle.through, hidle.closed, hidle.stream⟩
  refine advances_of_phase hfound hphase ⟨rfl, rfl, rfl, rfl⟩ rfl le_rfl ?_ fun _ _ => .inl
  have hack : ¬IsSuccess ack := by
    rintro ⟨p', haccepted⟩
    rw [hthrew] at haccepted
    cases haccepted
  rw [Task.served, htoClient, List.countP_cons_of_neg (by simpa using hack)]
  exact le_rfl

theorem Phase.lose (h : Phase setup st task) (hwaiting : task.waiting = true)
    (hclosed : task.toClient = [] ∧ task.closed = true) :
    Phase setup st { task with waiting := false, i := task.i + 1 } := by
  cases h with
  | resting hready =>
      rw [hwaiting] at hready
      cases hready
  | broken _ hhandling hempty hstream => exact .broken hclosed.2 hhandling hempty hstream
  | sent last hawaits hflight hidle =>
      have hhandling := hidle.closed hclosed.2
      exact .broken hclosed.2 hhandling hclosed.1 (hidle.stream hhandling)
  | handled last p program hawaits _ _ _ hopen =>
      rw [hclosed.2] at hopen
      cases hopen
  | answered last p ack hawaits _ hflight =>
      rw [hclosed.1] at hflight
      cases hflight.2

/-- The handler of a task ends. -/
theorem Sound.advances_leave [DecidableEq S] (h : Sound setup st)
    (hfound : st.tasks[j]? = some task)
    {closed : Bool}
    (hphase : Phase setup st { task with handling := none, stream := none, closed }) :
    Advances setup st (st.leave j task closed) j task
      { task with handling := none, stream := none, closed } where
  found := hfound
  tasks := rfl
  master := rfl
  answers := rfl
  same := ⟨rfl, rfl, rfl, rfl⟩
  le := le_rfl
  served := le_rfl
  holds := fun _ _ _ hheld => .inl (h.holds_leave hfound closed hheld)
  told := fun _ _ htold => htold
  phase := hphase.mono (fun _ _ hheld => h.holds_leave hfound closed hheld) id
  stream := nofun
  acked := fun _ _ hacked => .inl hacked
  consumed := fun _ _ hconsumed => .inl hconsumed

structure AtCommand (setup : S → Storage.Setup) (st : State DB.Record S) (j : ℕ) (task : Task S)
    (last p : Packet) (program : Storage.Handler KeepAlive) : Prop where
  found : st.tasks[j]? = some task
  awaits : Awaits task last
  arrival : arrival last = some p
  empty : task.toStorage = [] ∧ task.toClient = []
  opened : task.closed = false
  stage : Stage setup st task.storage (task.partid task.i) p task.stream program

theorem Phase.of_op (h : Phase setup st task) (hfound : st.tasks[j]? = some task)
    {command : Storage.Command} {next : command.Answer → Storage.Handler KeepAlive}
    (hhandling : task.handling = some (p, .op command next)) :
    ∃ last, AtCommand setup st j task last p (.op command next) := by
  cases h with
  | resting _ _ hidle => exact (hidle.ne_op hhandling).elim
  | broken _ hnone =>
      rw [hnone] at hhandling
      cases hhandling
  | sent _ _ _ hidle => exact (hidle.ne_op hhandling).elim
  | handled last p' program hawaits harrival hempty hprogram hopen hstage =>
      rw [hprogram, Option.some_inj, Prod.mk.injEq] at hhandling
      obtain ⟨rfl, rfl⟩ := hhandling
      exact ⟨last, hfound, hawaits, harrival, hempty, hopen, hstage⟩
  | answered _ _ _ _ _ _ hidle => exact (hidle.ne_op hhandling).elim

theorem AtCommand.served_eq (h : AtCommand setup st j task last p program) :
    task.served = task.i := by
  rw [Task.served, h.empty.2]
  rfl

section Commands

variable [DecidableEq S]

/-- A file that is written is the file of no other part. -/
theorem Holds.write {data contents : Bytes} (h : Holds setup st s partid data)
    (hfound : st.tasks[j]? = some task) (hstream : task.stream = none) (flushed : ℕ)
    (next : Unit → Storage.Handler KeepAlive) {partid' : PartId}
    (hne : ¬(s = task.storage ∧ partid = partid')) :
    Holds setup (st.perform j task p flushed
      (.write (Storage.uploadPath (setup task.storage) partid') contents) next) s partid data := by
  set path := Storage.uploadPath (setup task.storage) partid' with hpath
  have hother (hs : s = task.storage) : Storage.uploadPath (setup s) partid ≠ path := by
    subst hs
    exact fun heq => hne ⟨rfl, Storage.uploadPath_injective _ heq⟩
  refine h.congr ?_ (writes_set_iff hfound rfl rfl fun hs stream' hpath' => ?_)
  · change AList.lookup _ (Function.update st.directory task.storage _ s) = _
    by_cases hs : s = task.storage
    · subst hs
      rw [Function.update_self, AList.lookup_insert_ne (hother rfl)]
    · rw [Function.update_of_ne hs]
  · rw [hstream]
    refine iff_of_false (fun hopen => ?_) nofun
    obtain rfl := Option.some_inj.mp hopen
    exact hother hs hpath'.symm

/-- What was written is in the file or in the stream. -/
theorem AtCommand.write (h : AtCommand setup st j task last p program) (flushed : ℕ)
    (env : Storage.Env) {part : CS.UpAct} {data : Bytes}
    (hread : Storage.readUpAct p = some (part, data)) (hpartid : part.partid = task.partid task.i)
    (hchecks : Storage.Checks (setup task.storage) part data) (hstream : task.stream = none) :
    ∃ task', Advances setup st (st.perform j task p flushed
      (.write (Storage.uploadPath (setup task.storage) (task.partid task.i)) data)
      fun _ => telling (setup task.storage) env (task.partid task.i)) j task task' := by
  set path := Storage.uploadPath (setup task.storage) (task.partid task.i) with hpath
  set st' := st.perform j task p flushed (.write path data)
    fun _ => telling (setup task.storage) env (task.partid task.i) with hst'
  let stream : Stream := ⟨path, (data.take flushed).length, data.drop flushed⟩
  let task' : Task S :=
    { task with
      handling := some (p, telling (setup task.storage) env (task.partid task.i))
      stream := some stream }
  have htasks : st'.tasks = st.tasks.set j task' := rfl
  have hdirectory : st'.directory = Function.update st.directory task.storage
    ((st.directory task.storage).insert path (data.take flushed)) := rfl
  have hholds : Holds setup st' task.storage (task.partid task.i) data := by
    refine ⟨data.take flushed, ?_, .inr ⟨stream, ⟨j, task', ?_, rfl, rfl, rfl⟩, rfl, ?_⟩⟩
    · rw [hdirectory, Function.update_self]
      exact AList.lookup_insert _
    · rw [htasks, List.getElem?_set_self (List.getElem?_eq_some_iff.mp h.found).1]
    · exact List.take_append_drop flushed data
  refine ⟨task', h.found, htasks, rfl, rfl, ⟨rfl, rfl, rfl, rfl⟩, le_rfl, le_rfl, ?_,
    fun _ _ htold => htold, ?_, ?_, fun _ _ hacked => .inl hacked,
    fun _ _ hconsumed => .inl hconsumed⟩
  · intro s partid data' hheld
    by_cases hsame : s = task.storage ∧ partid = task.partid task.i
    · exact .inr ⟨hsame.2, h.awaits.lt, h.served_eq⟩
    · exact .inl (hheld.write h.found hstream flushed _ hsame)
  · exact .handled last p _ ⟨h.awaits.waiting, h.awaits.sent, h.awaits.lt, h.awaits.part⟩ h.arrival
      h.empty rfl h.opened (.stored _ env ⟨part, data, hread, hpartid, hchecks, hholds⟩)
  · rintro _ hopen
    obtain rfl := Option.some_inj.mp hopen
    exact .inr ⟨h.awaits.lt, rfl⟩

theorem AtCommand.tell (h : AtCommand setup st j task last p program)
    (flushed : ℕ) (hstored : Stored setup st task.storage (task.partid task.i) p) :
    ∃ task', Advances setup st (st.perform j task p flushed
      (.send .master (Storage.partAckPacket (setup task.storage).id (task.partid task.i) 10))
      fun _ => answering .success .yes) j task task' := by
  refine ⟨{ task with handling := some (p, answering .success .yes) }, h.found, rfl, rfl, rfl,
    ⟨rfl, rfl, rfl, rfl⟩, le_rfl, le_rfl,
    fun _ _ _ hheld => .inl (hheld.set h.found rfl rfl rfl rfl), ?_, ?_, fun _ => .inl,
    fun _ _ hacked => .inl hacked, fun _ _ hconsumed => .inl hconsumed⟩
  · intro s partid htold
    exact htold.imp_left fun hmem => List.mem_append_left _ hmem
  · refine .handled last p _ ⟨h.awaits.waiting, h.awaits.sent, h.awaits.lt, h.awaits.part⟩ h.arrival
      h.empty rfl h.opened (.told _
        (hstored.mono fun _ hheld => hheld.set h.found rfl rfl rfl rfl) (.inl ?_))
    exact List.mem_append_right _ (List.mem_singleton_self _)

theorem AtCommand.answer (h : AtCommand setup st j task last p program) (flushed : ℕ)
    (code : ErrorCode) (keepAlive : KeepAlive) (hsuccess : code = .success →
      Stored setup st task.storage (task.partid task.i) p ∧
        Told setup st task.storage (task.partid task.i)) :
    ∃ task', Advances setup st (st.perform j task p flushed
      (.send .client (ackPacket SC.fromto code)) fun _ => .pure keepAlive) j task task' := by
  let ack := ackPacket SC.fromto code
  refine ⟨{ task with
      handling := some (p, .pure keepAlive)
      toClient := task.toClient ++ [(ack, p)] }, h.found, rfl, rfl, rfl, ⟨rfl, rfl, rfl, rfl⟩,
    le_rfl, ?_, fun _ _ _ hheld => .inl (hheld.set h.found rfl rfl rfl rfl),
    fun _ _ htold => htold, ?_, fun _ => .inl, ?_, fun _ _ hconsumed => .inl hconsumed⟩
  · rw [h.served_eq]
    exact Nat.le_add_right _ _
  · refine .answered last p ack ⟨h.awaits.waiting, h.awaits.sent, h.awaits.lt, h.awaits.part⟩
      h.arrival ⟨h.empty.1, ?_⟩ ⟨?_, ?_, nofun⟩
    · rw [h.empty.2, List.nil_append]
    · intro p' program' hsome
      cases hsome
      exact ⟨keepAlive, rfl⟩
    · intro hclosed
      rw [h.opened] at hclosed
      cases hclosed
  · intro s p' hacked
    by_cases hcode : code = .success
    · have hack : IsSuccess ack := (isSuccess_ackPacket _ _).mpr hcode
      rw [State.perform, if_pos hack] at hacked
      obtain heq | hacked := List.mem_cons.mp hacked
      · cases heq
        obtain ⟨hstored, htold⟩ := hsuccess hcode
        refine .inr ⟨rfl, ⟨h.awaits.lt, ?_⟩,
          hstored.mono fun _ hheld => hheld.set h.found rfl rfl rfl rfl, htold⟩
        rw [Task.served, h.empty.2, List.nil_append, List.countP_singleton, if_pos]
        · exact Nat.lt_succ_self _
        · exact decide_eq_true hack
      · exact .inl hacked
    · have hack : ¬IsSuccess ack := fun hack => hcode ((isSuccess_ackPacket _ _).mp hack)
      rw [State.perform, if_neg hack] at hacked
      exact .inl hacked

/-- **One command.** -/
theorem AtCommand.perform (flushed : ℕ) {command : Storage.Command}
    {next : command.Answer → Storage.Handler KeepAlive}
    (h : AtCommand setup st j task last p (.op command next)) :
    ∃ task', Advances setup st (st.perform j task p flushed command next) j task task' := by
  have hstage := h.stage
  generalize hprogram : Program.op command next = program at hstage
  generalize hstream : task.stream = stream at hstage
  cases hstage with
  | threw _ e => cases hprogram
  | refused _ code hcode =>
      cases hprogram
      exact h.answer flushed code .no fun hsuccess => absurd hsuccess hcode
  | checked env part data hread hpartid hchecks =>
      cases hprogram
      exact h.write flushed env hread hpartid hchecks hstream
  | stored _ env hstored =>
      rw [telling] at hprogram
      split_ifs at hprogram
      cases hprogram
      exact h.tell flushed hstored
  | told _ hstored htold =>
      cases hprogram
      exact h.answer flushed .success .yes fun _ => ⟨hstored, htold⟩

end Commands

end Steps

end Sessions

end Mp2p.System
