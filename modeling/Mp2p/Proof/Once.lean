import Mp2p.Proof.Entries
import Mp2p.Proof.NoLoss

/-!
# Every part is recorded once

A task is at one part at a time and a storage tells the master of a part once, behind the write and
before the answer. So an acknowledgement on its way is of a part its task is past, and what the
master has recorded is of another part. This needs that nobody else acknowledges parts to the
master, which checks nothing.
-/

namespace Mp2p.System

open Masks Network DB DB.Tools Master

section Once

variable {S : Type} (hashBufferHex : Bytes → Sha1Type) (setup : S → Storage.Setup)

/-! ### The parts a task is past -/

def Quiet (program : Storage.Handler KeepAlive) : Prop :=
  program.All fun command => ∃ message, command = .send .client message

/-- The part the task is at may still be written or told to the master. -/
def Task.Open (task : Task S) : Prop :=
  (task.waiting = false ∧ task.threw = false) ∨ task.toStorage ≠ [] ∨
    ∃ p program, task.handling = some (p, program) ∧ ¬Quiet program

def Task.Past (task : Task S) (part : ℕ) : Prop :=
  task.beginId ≤ part ∧ part < task.endId ∧ (part < task.i ∨ part = task.i ∧ ¬task.Open)

/-- The part is one that a task is past, and the storage of the task holds what arrived of it. -/
structure Lodged (st : State DB.Record S) (j : ℕ) (task : Task S) (part : ℕ) : Prop where
  found : st.tasks[j]? = some task
  past : task.Past part
  stored : ∃ last p, Client.partPacket hashBufferHex task.fid task.file task.totalParts part =
    some last ∧ arrival last = some p ∧ Stored setup st task.storage (task.partid part) p

def LodgedAt (st : State DB.Record S) (stid : StidType) (partid : PartId) : Prop :=
  ∃ j task part, Lodged hashBufferHex setup st j task part ∧ stid = (setup task.storage).id ∧
    partid = task.partid part

/-- What the record of a file lists, and what is on its way to it. -/
structure Entered (st : State DB.Record S) (fi : FileItem) : Prop where
  nodup : (fi.parts.map PartItem.numGet).Nodup
  fid : ∀ part ∈ fi.parts, part.partid.fid = fi.id
  lodged : ∀ part ∈ fi.parts, ∃ stid, part.locations = [stid] ∧
    LodgedAt hashBufferHex setup st stid part.partid
  apart : ∀ part ∈ fi.parts, ∀ stid, Storage.partAckPacket stid part.partid 10 ∉ st.partAcks

structure Once (st : State DB.Record S) : Prop where
  sound : Sound setup st
  files : ∃ mof, FilesConsistent st.master.database mof ∧
    mof.count.toNat = Master.uploads st.master
  sending : ∀ (j : ℕ) (task : Task S), st.tasks[j]? = some task → task.waiting = true →
    ∃ last, task.sent = some last ∧
      Client.partPacket hashBufferHex task.fid task.file task.totalParts task.i = some last
  told : ∀ packet ∈ st.partAcks, ∃ stid partid,
    packet = Storage.partAckPacket stid partid 10 ∧ LodgedAt hashBufferHex setup st stid partid
  nodup : st.partAcks.Nodup
  entered : ∀ name fi, st.master.database.lookup (fileKey name) = some (.file fi) →
    Entered hashBufferHex setup st fi

/-- A task goes on: it stays past the parts it was past, and only the part it is at is written or
told, as long as it is open. -/
structure Continues (st st' : State DB.Record S) (j : ℕ) (task task' : Task S) : Prop where
  found : st.tasks[j]? = some task
  tasks : st'.tasks = st.tasks.set j task'
  master : st'.master = st.master
  same : task'.storage = task.storage ∧ task'.fid = task.fid ∧ task'.file = task.file ∧
    task'.totalParts = task.totalParts
  past : ∀ part, task.Past part → task'.Past part
  holds : ∀ s partid data, Holds setup st s partid data → Holds setup st' s partid data ∨
    partid = task.partid task.i ∧ task.i < task.endId ∧ task.Open
  told : st'.partAcks = st.partAcks ∨ task.Open ∧ task.beginId ≤ task.i ∧ task.i < task.endId ∧
    LodgedAt hashBufferHex setup st' (setup task.storage).id (task.partid task.i) ∧
    st'.partAcks = st.partAcks ++
      [Storage.partAckPacket (setup task.storage).id (task.partid task.i) 10]
  sending : task'.waiting = true → ∃ last, task'.sent = some last ∧
    Client.partPacket hashBufferHex task'.fid task'.file task'.totalParts task'.i = some last

variable {hashBufferHex setup} {st st' : State DB.Record S}

theorem partAckPacket_injective {stid stid' : StidType} {partid partid' : PartId}
    (h : Storage.partAckPacket stid partid 10 = Storage.partAckPacket stid' partid' 10) :
    stid = stid' ∧ partid = partid' := by
  let m : Message := .partAck stid partid 10
  have harrival : arrival (Storage.partAckPacket stid partid 10) = some _ :=
    arrival_message m (by change 24 < 2 ^ 32; decide)
  have hread := readPartAck_of_arrival harrival
  rw [h] at harrival
  rw [readPartAck_of_arrival harrival, Option.some_inj, SM.PartAck.mk.injEq] at hread
  exact ⟨hread.1.symm, hread.2.1.symm⟩

/-- A part is of one task, so it is at one storage. -/
theorem Sound.stid_unique (h : Sound setup st) {stid stid' : StidType} {partid : PartId}
    (hlodged : LodgedAt hashBufferHex setup st stid partid)
    (hlodged' : LodgedAt hashBufferHex setup st stid' partid) : stid = stid' := by
  obtain ⟨j, task, part, ⟨hfound, ⟨hlow, hhigh, -⟩, -⟩, rfl, rfl⟩ := hlodged
  obtain ⟨k, task', part', ⟨hfound', ⟨hlow', hhigh', -⟩, -⟩, rfl, heq⟩ := hlodged'
  by_cases hjk : j = k
  · subst hjk
    rw [hfound, Option.some_inj] at hfound'
    rw [hfound']
  · exact absurd heq (h.partid_ne hfound hfound' hjk ⟨hlow, hhigh⟩ ⟨hlow', hhigh'⟩)

theorem LodgedAt.mono {stid : StidType} {partid : PartId}
    (h : LodgedAt hashBufferHex setup st stid partid)
    (htasks : ∀ (j : ℕ) (task : Task S), st.tasks[j]? = some task → st'.tasks[j]? = some task)
    (hholds : ∀ s partid data, Holds setup st s partid data → Holds setup st' s partid data) :
    LodgedAt hashBufferHex setup st' stid partid := by
  obtain ⟨j, task, part, ⟨hfound, hpast, last, p, hpacket, harrival, hstored⟩, heq⟩ := h
  exact ⟨j, task, part, ⟨htasks j task hfound, hpast, last, p, hpacket, harrival,
    hstored.mono (hholds _ _)⟩, heq⟩

/-! ### A task goes on -/

section Continue

variable {j : ℕ} {task task' : Task S}

theorem Task.not_past_of_open (hopen : task.Open) : ¬task.Past task.i := by
  rintro ⟨-, -, hlt | ⟨-, hclosed⟩⟩
  · exact lt_irrefl _ hlt
  · exact hclosed hopen

theorem Sound.stored_of_continues (h : Sound setup st)
    (hstep : Continues hashBufferHex setup st st' j task task') {k part : ℕ} {owner : Task S}
    {p : Packet} (hfound : st.tasks[k]? = some owner) (hpast : owner.Past part)
    (hstored : Stored setup st owner.storage (owner.partid part) p) :
    Stored setup st' owner.storage (owner.partid part) p := by
  have hbounded := h.bounded j task hstep.found
  have hlow := hpast.1
  have hhigh := hpast.2.1
  refine hstored.mono fun data hheld => ?_
  obtain hheld' | ⟨heq, hlt, hopen⟩ := hstep.holds _ _ data hheld
  · exact hheld'
  by_cases hkj : k = j
  · subst hkj
    rw [hstep.found, Option.some_inj] at hfound
    subst hfound
    obtain rfl := partid_injective task (by omega) (by omega) heq
    exact absurd hpast (Task.not_past_of_open hopen)
  · exact absurd heq (h.partid_ne hfound hstep.found hkj ⟨hlow, hhigh⟩ ⟨hbounded.2.1, hlt⟩)

theorem Sound.lodgedAt_of_continues (h : Sound setup st)
    (hstep : Continues hashBufferHex setup st st' j task task') {stid : StidType}
    {partid : PartId} (hlodged : LodgedAt hashBufferHex setup st stid partid) :
    LodgedAt hashBufferHex setup st' stid partid := by
  obtain ⟨k, owner, part, ⟨hfound, hpast, last, p, hpacket, harrival, hstored⟩, rfl, rfl⟩ := hlodged
  have hstored' := h.stored_of_continues hstep hfound hpast hstored
  by_cases hkj : k = j
  · subst hkj
    rw [hstep.found, Option.some_inj] at hfound
    subst hfound
    obtain ⟨hstorage, hfid, hfile, htotal⟩ := hstep.same
    have hpartid : task'.partid part = task.partid part := by rw [Task.partid, Task.partid, hfid]
    refine ⟨k, task', part, ⟨?_, hstep.past part hpast, last, p, ?_, harrival, ?_⟩, ?_, ?_⟩
    · rw [hstep.tasks, List.getElem?_set_self (List.getElem?_eq_some_iff.mp hstep.found).1]
    · rw [hfid, hfile, htotal, hpacket]
    · rwa [hstorage, hpartid]
    · rw [hstorage]
    · rw [hpartid]
  · refine ⟨k, owner, part, ⟨?_, hpast, last, p, hpacket, harrival, hstored'⟩, rfl, rfl⟩
    rw [hstep.tasks, List.getElem?_set_ne (Ne.symm hkj), hfound]

/-- Nobody was told of the part an open task is at. -/
theorem Sound.not_lodgedAt (h : Sound setup st) (hfound : st.tasks[j]? = some task)
    (hopen : task.Open) (hlow : task.beginId ≤ task.i) (hhigh : task.i < task.endId)
    (stid : StidType) : ¬LodgedAt hashBufferHex setup st stid (task.partid task.i) := by
  rintro ⟨k, owner, part, ⟨hfound', hpast, -⟩, -, heq⟩
  by_cases hjk : j = k
  · subst hjk
    rw [hfound, Option.some_inj] at hfound'
    subst hfound'
    have hbounded := h.bounded j task hfound
    obtain rfl := partid_injective task (by omega) (by have := hpast.2.1; omega) heq
    exact Task.not_past_of_open hopen hpast
  · exact h.partid_ne hfound hfound' hjk ⟨hlow, hhigh⟩ ⟨hpast.1, hpast.2.1⟩ heq

/-- **A task goes on.** -/
theorem Once.continue (h : Once hashBufferHex setup st) (hsound : Sound setup st')
    (hstep : Continues hashBufferHex setup st st' j task task') :
    Once hashBufferHex setup st' := by
  have hlodged {stid : StidType} {partid : PartId}
      (hat : LodgedAt hashBufferHex setup st stid partid) :
      LodgedAt hashBufferHex setup st' stid partid := h.sound.lodgedAt_of_continues hstep hat
  have hnew (hopen : task.Open) (hlow : task.beginId ≤ task.i) (hhigh : task.i < task.endId)
      (stid : StidType) :
      ¬LodgedAt hashBufferHex setup st stid (task.partid task.i) :=
    h.sound.not_lodgedAt hstep.found hopen hlow hhigh stid
  refine ⟨hsound, ?_, ?_, ?_, ?_, ?_⟩
  · rw [hstep.master]
    exact h.files
  · intro k other hk hwaiting
    rw [hstep.tasks] at hk
    obtain ⟨rfl, rfl⟩ | ⟨-, hk⟩ := getElem?_set_cases hk
    · exact hstep.sending hwaiting
    · exact h.sending k other hk hwaiting
  · intro packet hpacket
    obtain hsame | ⟨-, -, -, hat, hmore⟩ := hstep.told
    · rw [hsame] at hpacket
      obtain ⟨stid, partid, heq, hat⟩ := h.told packet hpacket
      exact ⟨stid, partid, heq, hlodged hat⟩
    · rw [hmore] at hpacket
      obtain hpacket | hpacket := List.mem_append.mp hpacket
      · obtain ⟨stid, partid, heq, hat⟩ := h.told packet hpacket
        exact ⟨stid, partid, heq, hlodged hat⟩
      · exact ⟨_, _, List.mem_singleton.mp hpacket, hat⟩
  · obtain hsame | ⟨hopen, hlow, hhigh, -, hmore⟩ := hstep.told
    · rw [hsame]
      exact h.nodup
    · rw [hmore]
      refine List.nodup_append.mpr ⟨h.nodup, List.nodup_singleton _, ?_⟩
      rintro packet hpacket _ hmem rfl
      obtain ⟨stid, partid, heq, hat⟩ := h.told packet hpacket
      rw [List.mem_singleton.mp hmem] at heq
      obtain ⟨rfl, rfl⟩ := partAckPacket_injective heq
      exact hnew hopen hlow hhigh _ hat
  · intro name fi hfile
    rw [hstep.master] at hfile
    have hentered := h.entered name fi hfile
    refine ⟨hentered.nodup, hentered.fid, ?_, ?_⟩
    · intro part hpart
      obtain ⟨stid, hlocations, hat⟩ := hentered.lodged part hpart
      exact ⟨stid, hlocations, hlodged hat⟩
    · intro part hpart stid hmem
      obtain hsame | ⟨hopen, hlow, hhigh, -, hmore⟩ := hstep.told
      · rw [hsame] at hmem
        exact hentered.apart part hpart stid hmem
      · rw [hmore] at hmem
        obtain hmem | hmem := List.mem_append.mp hmem
        · exact hentered.apart part hpart stid hmem
        · obtain ⟨-, heq⟩ := partAckPacket_injective (List.mem_singleton.mp hmem)
          obtain ⟨stid', -, hat⟩ := hentered.lodged part hpart
          rw [heq] at hat
          exact hnew hopen hlow hhigh _ hat

end Continue

/-! ### The master -/

/-- The master handles a packet. Only an acknowledgement adds to what a record lists. -/
theorem Once.master (h : Once hashBufferHex setup st) (r : Request) {partAcks : List Packet}
    {answers : List (Client.File × Packet)}
    (hsound : Sound setup { st with master := handle st.master r, partAcks, answers })
    (hfew : uploads (handle st.master r) < 2 ^ 64)
    (hsub : ∀ packet ∈ partAcks, packet ∈ st.partAcks)
    (hnodup : partAcks.Nodup)
    (hacked : ∀ req mof name old, kindOf r.packet = .partAck →
      Acknowledges st.master r req mof name old →
      Entered hashBufferHex setup { st with master := handle st.master r, partAcks, answers }
        { old with parts := (ackParts req old.parts).1 }) :
    Once hashBufferHex setup { st with master := handle st.master r, partAcks, answers } := by
  obtain ⟨mof, hfiles, hcount⟩ := h.files
  refine ⟨hsound, hfiles.effect hcount (effect_handle st.master r) hfew, h.sending, ?_, hnodup, ?_⟩
  · intro packet hpacket
    obtain ⟨stid, partid, heq, hat⟩ := h.told packet (hsub packet hpacket)
    exact ⟨stid, partid, heq, hat.mono (fun _ _ => id) fun _ _ _ => id⟩
  · intro name fi hfile
    cases entryOf_handle hfile with
    | kept hfile =>
        have hentered := h.entered name fi hfile
        refine ⟨hentered.nodup, hentered.fid, fun part hpart => ?_,
          fun part hpart stid hmem => hentered.apart part hpart stid (hsub _ hmem)⟩
        obtain ⟨stid, hlocations, hat⟩ := hentered.lodged part hpart
        exact ⟨stid, hlocations, hat.mono (fun _ _ => id) fun _ _ _ => id⟩
    | fresh _ _ hparts =>
        have hnone (part : PartItem) : part ∉ fi.parts := by
          rw [hparts]
          exact List.not_mem_nil
        refine ⟨?_, ?_, ?_, ?_⟩
        · rw [hparts]
          exact List.nodup_nil
        · exact fun part hpart => absurd hpart (hnone part)
        · exact fun part hpart => absurd hpart (hnone part)
        · exact fun part hpart => absurd hpart (hnone part)
    | acked req mof old hkind hack heq =>
        rw [heq]
        exact hacked req mof name old hkind hack

theorem kindOf_upReqPacket {fsize : FsizeType} {rdcy : RdcyType} {fname : Bytes} {p : Packet}
    (harrival : arrival (Client.upReqPacket fsize rdcy fname) = some p) : kindOf p ≠ .partAck := by
  intro hkind
  have hfromto := fromto_of_partAck hkind
  have hheader : p.header.type = ⟨CM.fromto, CM.upReqW⟩ :=
    congrArg PacketHeader.type (header_of_arrival harrival)
  rw [Packet.fromtoGet, hheader] at hfromto
  revert hfromto
  decide

/-- Acknowledgements of a part the record does not list add one item and change none. -/
theorem ackParts_of_notMem {req : SM.PartAck} {parts : List PartItem}
    (h : req.partid.partnum ∉ parts.map PartItem.numGet) :
    (ackParts req parts).1 = parts ++ [ackItem req] := by
  rw [ackParts_fst]
  congr 1
  conv_rhs => rw [← List.map_id parts]
  refine List.map_congr_left fun part hpart => ?_
  rw [addAck, if_neg, id_eq]
  intro heq
  exact h (heq ▸ List.mem_map_of_mem hpart)

/-- **An acknowledgement is delivered.** The record of its file lists one part more. -/
theorem Once.deliver (h : Once hashBufferHex setup st) {packet : Packet} {rest : List Packet}
    {r : Request} (hpartAcks : st.partAcks.Perm (packet :: rest))
    (harrival : arrival packet = some r.packet)
    (hsound : Sound setup { st with master := handle st.master r, partAcks := rest })
    (hfew : uploads (handle st.master r) < 2 ^ 64) :
    Once hashBufferHex setup { st with master := handle st.master r, partAcks := rest } := by
  have hnodup := hpartAcks.nodup_iff.mp h.nodup
  rw [List.nodup_cons] at hnodup
  have hmem : packet ∈ st.partAcks := hpartAcks.mem_iff.mpr List.mem_cons_self
  have hsub (packet' : Packet) (hrest : packet' ∈ rest) : packet' ∈ st.partAcks :=
    hpartAcks.mem_iff.mpr (List.mem_cons_of_mem _ hrest)
  obtain ⟨stid, partid, rfl, hat⟩ := h.told packet hmem
  refine h.master r hsound hfew hsub hnodup.2 fun req mof name old _ hack => ?_
  have hread := hack.request
  rw [readPartAck_of_arrival harrival, Option.some_inj] at hread
  subst hread
  have hentered := h.entered name old hack.file
  have hid : old.id = partid.fid := by
    obtain ⟨mof', hfiles, -⟩ := h.files
    obtain rfl : mof' = mof := by
      have hsame := hfiles.files
      rw [hack.files, Option.some_inj] at hsame
      cases hsame
      rfl
    obtain ⟨fi, hfile, hid, -⟩ := hfiles.file_of_name _ _ hack.name
    rw [hack.file, Option.some_inj] at hfile
    cases hfile
    exact hid
  have hnew : partid.partnum ∉ old.parts.map PartItem.numGet := by
    intro hnum
    obtain ⟨part, hpart, heq⟩ := List.mem_map.mp hnum
    have hpartid : part.partid = partid := by
      have hfid := (hentered.fid part hpart).trans hid
      cases hsplit : part.partid with
      | mk fid num =>
          rw [PartItem.numGet, hsplit] at heq
          rw [hsplit] at hfid
          cases heq
          cases hfid
          rfl
    exact hentered.apart part hpart stid (hpartid ▸ hmem)
  have hparts := @ackParts_of_notMem ⟨stid, partid, 10⟩ old.parts hnew
  -- Another acknowledgement of this part would be of the same storage, and so the same packet.
  have hapart (stid' : StidType) : Storage.partAckPacket stid' partid 10 ∉ rest := by
    intro hrest
    obtain ⟨stid'', partid', heq, hat'⟩ := h.told _ (hsub _ hrest)
    obtain ⟨rfl, rfl⟩ := partAckPacket_injective heq
    rw [h.sound.stid_unique hat' hat] at hrest
    exact hnodup.1 hrest
  refine ⟨?_, ?_, ?_, ?_⟩
  · rw [hparts, List.map_append]
    refine List.nodup_append.mpr ⟨hentered.nodup, List.nodup_singleton _, ?_⟩
    rintro num hnum _ hlast rfl
    rw [List.mem_singleton.mp hlast] at hnum
    exact hnew hnum
  all_goals
    intro part hpart
    rw [hparts] at hpart
    obtain hpart | hpart := List.mem_append.mp hpart
  · exact hentered.fid part hpart
  · rw [List.mem_singleton.mp hpart]
    exact hid.symm
  · obtain ⟨stid', hlocations, hat'⟩ := hentered.lodged part hpart
    exact ⟨stid', hlocations, hat'.mono (fun _ _ => id) fun _ _ _ => id⟩
  · rw [List.mem_singleton.mp hpart]
    exact ⟨stid, rfl, hat.mono (fun _ _ => id) fun _ _ _ => id⟩
  · exact fun stid' hrest => hentered.apart part hpart stid' (hsub _ hrest)
  · rw [List.mem_singleton.mp hpart]
    exact hapart

/-! ### Each step of a task -/

section Steps

variable {j : ℕ} {task task' : Task S} {p : Packet}

theorem Task.Past.of_step {part : ℕ} (h : task.Past part)
    (hsame : task'.beginId = task.beginId ∧ task'.endId = task.endId) (hle : task.i ≤ task'.i)
    (hopen : task'.i = task.i → task'.Open → task.Open) : task'.Past part := by
  obtain ⟨hlow, hhigh, hbehind⟩ := h
  refine ⟨hsame.1 ▸ hlow, hsame.2 ▸ hhigh, ?_⟩
  obtain hlt | ⟨rfl, hclosed⟩ := hbehind
  · exact .inl (hlt.trans_le hle)
  · obtain hlt | heq := hle.lt_or_eq
    · exact .inl hlt
    · exact .inr ⟨heq, fun hopen' => hclosed (hopen heq.symm hopen')⟩

/-- A task goes on, touches no file and tells the master nothing. -/
theorem Once.move (h : Once hashBufferHex setup st) (hfound : st.tasks[j]? = some task)
    {consumed : List (Packet × Packet)}
    (hsound : Sound setup { st with tasks := st.tasks.set j task', consumed })
    (hsame : task'.storage = task.storage ∧ task'.fid = task.fid ∧ task'.file = task.file ∧
      task'.totalParts = task.totalParts)
    (hrange : task'.beginId = task.beginId ∧ task'.endId = task.endId)
    (hstream : task'.stream = task.stream) (hle : task.i ≤ task'.i)
    (hopen : task'.i = task.i → task'.Open → task.Open)
    (hsending : task'.waiting = true → ∃ last, task'.sent = some last ∧
      Client.partPacket hashBufferHex task'.fid task'.file task'.totalParts task'.i = some last) :
    Once hashBufferHex setup { st with tasks := st.tasks.set j task', consumed } := by
  refine h.continue hsound ⟨hfound, rfl, rfl, hsame, ?_,
    fun _ _ _ hheld => .inl (hheld.set hfound rfl rfl hsame.1 hstream), .inl rfl, hsending⟩
  exact fun part hpast => hpast.of_step hrange hle hopen

/-- A task whose handler ends touches no file but the one it closes. -/
theorem Once.leave [DecidableEq S] (h : Once hashBufferHex setup st)
    (hfound : st.tasks[j]? = some task) {closed : Bool}
    (hsound : Sound setup (st.leave j task closed)) :
    Once hashBufferHex setup (st.leave j task closed) := by
  refine h.continue hsound ⟨hfound, rfl, rfl, ⟨rfl, rfl, rfl, rfl⟩, ?_,
    fun _ _ _ hheld => .inl (h.sound.holds_leave hfound closed hheld), .inl rfl,
    h.sending j task hfound⟩
  refine fun part hpast => hpast.of_step ⟨rfl, rfl⟩ le_rfl fun _ hopen => ?_
  obtain hready | hqueue | ⟨p, program, hprogram, -⟩ := hopen
  · exact .inl hready
  · exact .inr (.inl hqueue)
  · cases hprogram

theorem open_of_handling {program : Storage.Handler KeepAlive}
    (hhandling : task.handling = some (p, program)) (hquiet : ¬Quiet program) : task.Open :=
  .inr (.inr ⟨p, program, hhandling, hquiet⟩)

theorem quiet_of_op {command : Storage.Command}
    {next : command.Answer → Storage.Handler KeepAlive} (h : Quiet (.op command next)) :
    (∃ message, command = .send .client message) ∧ ∀ answer, Quiet (next answer) := h

/-- **A command.** It writes the part the task is at, or tells the master of it, or answers. -/
theorem Once.perform [DecidableEq S] (h : Once hashBufferHex setup st) (flushed : ℕ)
    (hfound : st.tasks[j]? = some task) {command : Storage.Command}
    {next : command.Answer → Storage.Handler KeepAlive}
    (hhandling : task.handling = some (p, .op command next)) :
    ∃ task', Continues hashBufferHex setup st (st.perform j task p flushed command next) j task
      task' := by
  obtain ⟨last, hat⟩ := (h.sound.phase j task hfound).of_op hfound hhandling
  obtain ⟨last', hsent, hpacket⟩ := h.sending j task hfound hat.awaits.waiting
  rw [hat.awaits.sent, Option.some_inj] at hsent
  subst hsent
  have hlow := (h.sound.bounded j task hfound).2.1
  have hstage := hat.stage
  have hnotQuiet (hcommand : ∀ message, command ≠ .send .client message) : task.Open := by
    refine open_of_handling hhandling fun hquiet => ?_
    obtain ⟨message, heq⟩ := (quiet_of_op hquiet).1
    exact hcommand message heq
  have hanswered (message : Packet) (hcommand : command = .send .client message) : ∃ task',
      Continues hashBufferHex setup st (st.perform j task p flushed command next) j task
        task' := by
    subst hcommand
    refine ⟨{ task with
      handling := some (p, next ())
      toClient := task.toClient ++ [(message, p)] }, hfound, rfl, rfl, ⟨rfl, rfl, rfl, rfl⟩, ?_,
      fun _ _ _ hheld => .inl (hheld.set hfound rfl rfl rfl rfl), .inl rfl,
      fun _ => ⟨last, hat.awaits.sent, hpacket⟩⟩
    intro part hpast
    refine hpast.of_step ⟨rfl, rfl⟩ le_rfl fun _ hopen => ?_
    obtain hready | hqueue | ⟨p', program, hprogram, hquiet⟩ := hopen
    · exact .inl hready
    · exact .inr (.inl hqueue)
    · cases hprogram
      exact open_of_handling hhandling fun hop => hquiet ((quiet_of_op hop).2 ())
  generalize hprogram : Program.op command next = program at hstage
  generalize hstream : task.stream = stream at hstage
  cases hstage with
  | threw _ e => cases hprogram
  | refused _ code hcode =>
      cases hprogram
      exact hanswered _ rfl
  | told _ hstored htold =>
      cases hprogram
      exact hanswered _ rfl
  | checked env part data hread hpartid hchecks =>
      cases hprogram
      have hopen := hnotQuiet fun _ heq => by cases heq
      refine ⟨_, hfound, rfl, rfl, ⟨rfl, rfl, rfl, rfl⟩,
        fun part hpast => hpast.of_step ⟨rfl, rfl⟩ le_rfl fun _ _ => hopen, ?_, .inl rfl,
        fun _ => ⟨last, hat.awaits.sent, hpacket⟩⟩
      intro s partid data' hheld
      by_cases hsame : s = task.storage ∧ partid = task.partid task.i
      · exact .inr ⟨hsame.2, hat.awaits.lt, hopen⟩
      · exact .inl (hheld.write hfound hstream flushed _ hsame)
  | stored _ env hstored =>
      rw [telling] at hprogram
      split_ifs at hprogram
      cases hprogram
      have hopen := hnotQuiet fun _ heq => by cases heq
      let task' := { task with handling := some (p, answering .success .yes) }
      have hclosed : ¬task'.Open := by
        rintro (⟨hready, -⟩ | hqueue | ⟨p', program, hprogram, hquiet⟩)
        · exact hat.awaits.ne_ready hready
        · exact hqueue hat.empty.1
        · cases hprogram
          exact hquiet ⟨⟨_, rfl⟩, fun _ => trivial⟩
      refine ⟨task', hfound, rfl, rfl, ⟨rfl, rfl, rfl, rfl⟩,
        fun part hpast => hpast.of_step ⟨rfl, rfl⟩ le_rfl fun _ _ => hopen,
        fun _ _ _ hheld => .inl (hheld.set hfound rfl rfl rfl rfl), ?_,
        fun _ => ⟨last, hat.awaits.sent, hpacket⟩⟩
      refine .inr ⟨hopen, hlow, hat.awaits.lt, ⟨j, task', task.i, ⟨?_, ?_, ?_⟩, rfl, rfl⟩, rfl⟩
      · exact List.getElem?_set_self (List.getElem?_eq_some_iff.mp hfound).1
      · exact ⟨hlow, hat.awaits.lt, .inr ⟨rfl, hclosed⟩⟩
      · exact ⟨last, p, hpacket, hat.arrival,
          hstored.mono fun _ hheld => hheld.set hfound rfl rfl rfl rfl⟩

end Steps

/-! ### Any step and any run -/

theorem Once.start (h : Once hashBufferHex setup st) {answers : List (Client.File × Packet)}
    {tasks : List (Task S)} (hnew : ∀ task ∈ tasks, task.waiting = false ∧ task.stream = none)
    (hsound : Sound setup { st with answers, tasks := st.tasks ++ tasks }) :
    Once hashBufferHex setup { st with answers, tasks := st.tasks ++ tasks } := by
  have hmono {stid : StidType} {partid : PartId}
      (hat : LodgedAt hashBufferHex setup st stid partid) :
      LodgedAt hashBufferHex setup { st with answers, tasks := st.tasks ++ tasks } stid partid := by
    refine hat.mono (fun j task hj => ?_) fun _ _ _ hheld =>
      hheld.append rfl rfl fun task htask => (hnew task htask).2
    rw [List.getElem?_append_left (List.getElem?_eq_some_iff.mp hj).1, hj]
  refine ⟨hsound, h.files, ?_, ?_, h.nodup, ?_⟩
  · intro j task hj hwaiting
    obtain hlt | hge := Nat.lt_or_ge j st.tasks.length
    · rw [List.getElem?_append_left hlt] at hj
      exact h.sending j task hj hwaiting
    · rw [List.getElem?_append_right hge] at hj
      rw [(hnew task (List.mem_of_getElem? hj)).1] at hwaiting
      cases hwaiting
  · intro packet hpacket
    obtain ⟨stid, partid, heq, hat⟩ := h.told packet hpacket
    exact ⟨stid, partid, heq, hmono hat⟩
  · intro name fi hfile
    have hentered := h.entered name fi hfile
    refine ⟨hentered.nodup, hentered.fid, fun part hpart => ?_, hentered.apart⟩
    obtain ⟨stid, hlocations, hat⟩ := hentered.lodged part hpart
    exact ⟨stid, hlocations, hmono hat⟩

/-- The master handles a packet that acknowledges no part. -/
theorem Once.request (h : Once hashBufferHex setup st) {r : Request}
    (hkind : kindOf r.packet ≠ .partAck) {answers : List (Client.File × Packet)}
    (hsound : Sound setup { st with master := handle st.master r, answers })
    (hfew : uploads (handle st.master r) < 2 ^ 64) :
    Once hashBufferHex setup { st with master := handle st.master r, answers } :=
  h.master r hsound hfew (fun _ => id) h.nodup fun _ _ _ _ hack => absurd hack hkind

variable [DecidableEq S] {terms : Terms}

/-- **One step.** Nobody but a storage acknowledges a part. -/
theorem Once.step (h : Once hashBufferHex setup st)
    (hgenuine : ∀ r, terms.stranger r → kindOf r.packet ≠ .partAck)
    (hstep : Step hashBufferHex setup terms st st') (hfew : uploads st'.master < 2 ^ 64) :
    Once hashBufferHex setup st' := by
  have hsound : Sound setup st' := h.sound.step hstep hfew.le
  cases hstep with
  | request r hterms => exact h.request (hgenuine r hterms.2) hsound hfew
  | upload r file rdcy fname answer hterms hrequest hanswer hwhat =>
      exact h.request (kindOf_upReqPacket hrequest) hsound hfew
  | start file answer p answers listener fid stplist hanswers harrival hread =>
      refine h.start (fun task htask => ?_) hsound
      obtain ⟨_, _, -, rfl⟩ := exists_begin htask
      exact ⟨rfl, rfl⟩
  | send j task toSend htask hready hlt hpacket =>
      refine h.move htask hsound ⟨rfl, rfl, rfl, rfl⟩ ⟨rfl, rfl⟩ rfl le_rfl ?_ fun _ => ?_
      · exact fun _ _ => .inl hready
      · exact ⟨toSend, rfl, hpacket⟩
  | receive j task packet p rest env htask hidle hpacket harrival henv =>
      refine h.move htask hsound ⟨rfl, rfl, rfl, rfl⟩ ⟨rfl, rfl⟩ rfl le_rfl
        (fun _ _ => .inr (.inl ?_)) (h.sending j task htask)
      rw [hpacket]
      exact List.cons_ne_nil _ _
  | perform j task p flushed command next htask hhandling =>
      obtain ⟨task', hcontinues⟩ := h.perform flushed htask hhandling
      exact h.continue hsound hcontinues
  | finish j task p keepAlive htask hhandling => exact h.leave htask hsound
  | fail j task p e htask hhandling => exact h.leave htask hsound
  | deliver packet rest r hterms hpartAcks harrival =>
      exact h.deliver hpartAcks harrival hsound hfew
  | consume j task ack answered p last rest htask hwaiting hlast hack haccepted =>
      refine h.move htask hsound ⟨rfl, rfl, rfl, rfl⟩ ⟨rfl, rfl⟩ rfl (Nat.le_succ _) ?_ nofun
      exact fun heq => absurd heq (Nat.succ_ne_self _)
  | refuse j task ack answered p rest htask hwaiting hack hthrew =>
      refine h.move htask hsound ⟨rfl, rfl, rfl, rfl⟩ ⟨rfl, rfl⟩ rfl le_rfl
        (fun _ hopen => ?_) nofun
      obtain hready | hqueue | hhandling := hopen
      · cases hready.2
      · exact .inr (.inl hqueue)
      · exact .inr (.inr hhandling)
  | lose j task htask hwaiting hclosed =>
      refine h.move htask hsound ⟨rfl, rfl, rfl, rfl⟩ ⟨rfl, rfl⟩ rfl (Nat.le_succ _) ?_ nofun
      exact fun heq => absurd heq (Nat.succ_ne_self _)

end Once

end Mp2p.System
