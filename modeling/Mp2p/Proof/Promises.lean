import Mp2p.Proof.Once
import Mp2p.Proof.Placement

/-!
# What an upload is promised

The answer to an upload gives it a number of the record of a file of its size, and as many parts as
the table has for that size. The tasks keep what the answer said, and no two uploads share a number.
-/

namespace Mp2p.System

open Masks Network DB DB.Tools Master

/-! ### Records of files -/

section Records

variable {w w' : World Record}

/-- The number is of the record of a file of this size. -/
def Sized (w : World Record) (fid : FidType) (size : FsizeType) : Prop :=
  ∃ mof name fi, w.database.lookup filesKey = some (.files mof) ∧
    mof.nameById.lookup fid = some name ∧ w.database.lookup (fileKey name) = some (.file fi) ∧
    fi.fileSize = size

/-- A request changes nothing of a record but its parts. -/
theorem exists_parts_of_effect (h : Effect w w') {name : Bytes} {fi : FileItem}
    (hfile : w.database.lookup (fileKey name) = some (.file fi)) :
    ∃ parts, w'.database.lookup (fileKey name) = some (.file { fi with parts }) := by
  cases h with
  | unchanged hdatabase => exact ⟨fi.parts, by rwa [hdatabase]⟩
  | created mof new hfiles hfree hid hdatabase =>
      have hne : fileKey name ≠ fileKey new.name := by
        intro heq
        rw [heq, hfree] at hfile
        cases hfile
      refine ⟨fi.parts, ?_⟩
      rwa [hdatabase, AList.lookup_insert_ne hne, AList.lookup_insert_ne fileKey_ne_filesKey]
  | acked mof req fname old hfiles hname hfile' hdatabase =>
      rw [hdatabase]
      by_cases hkey : fileKey name = fileKey fname
      · rw [← hkey, hfile, Option.some_inj] at hfile'
        cases hfile'
        rw [hkey]
        exact ⟨_, AList.lookup_insert _⟩
      · exact ⟨fi.parts, by rwa [AList.lookup_insert_ne hkey]⟩
  | registered mos si hstorages hid hdatabase =>
      refine ⟨fi.parts, ?_⟩
      rwa [hdatabase, AList.lookup_insert_ne fileKey_ne_storagesKey, storageKey,
        AList.lookup_insert_ne fileKey_ne_storageKey]

theorem Sized.effect {fid : FidType} {size : FsizeType} (h : Sized w fid size)
    (heffect : Effect w w') : Sized w' fid size := by
  obtain ⟨mof, name, fi, hfiles, hname, hfile, hsize⟩ := h
  obtain ⟨mof', hfiles', hnames⟩ := exists_files_of_effect heffect hfiles
  obtain ⟨parts, hfile'⟩ := exists_parts_of_effect heffect hfile
  exact ⟨mof', name, _, hfiles', hnames _ _ hname, hfile', hsize⟩

def Tabled (w : World Record) : Prop :=
  w.database.lookup storageSizesKey = some (.storageSizes storageSizes)

theorem storageKey_ne_storageSizesKey {suffix : Bytes} : ascii "st." ++ suffix ≠ storageSizesKey :=
  ne_of_getElem? 2 (by change some 46 ≠ some 111; decide)

theorem Tabled.effect (h : Tabled w) (heffect : Effect w w') : Tabled w' := by
  rw [Tabled] at h ⊢
  cases heffect with
  | unchanged hdatabase => rwa [hdatabase]
  | created mof fi hfiles hfree hid hdatabase =>
      rwa [hdatabase, AList.lookup_insert_ne fileKey_ne_storageSizesKey.symm,
        AList.lookup_insert_ne (by decide)]
  | acked mof req fname fi hfiles hname hfile hdatabase =>
      rwa [hdatabase, AList.lookup_insert_ne fileKey_ne_storageSizesKey.symm]
  | registered mos si hstorages hid hdatabase =>
      rwa [hdatabase, AList.lookup_insert_ne (by decide), storageKey,
        AList.lookup_insert_ne storageKey_ne_storageSizesKey.symm]

end Records

/-! ### The answer to an upload -/

def partCount (size : FsizeType) : ℕ := (Master.numberOfParts storageSizes size).toNat

/-- The answer has a number of its own for a file of this size, and as many parts as the table has
for it. A file of redundancy zero is created although there is no storage. -/
structure Promise (w : World Record) (size : FsizeType) (fid : FidType) (fields : List StpField) :
    Prop where
  sized : Sized w fid size
  parts : fields = [] ∨ Client.totalParts fields = partCount size ∧ fields.length ≤ partCount size

/-- The handler said nothing, or acknowledged, or kept its promise. -/
inductive Accepts (w w' : World Record) (size : FsizeType) : Prop where
  | silent (hsent : w'.sent = w.sent)
  | refused (packet : Packet) (hwhat : packet.whatGet = ackW) (hsent : w'.sent = w.sent ++ [packet])
  | given (fid : FidType) (fields : List StpField) (hpromise : Promise w' size fid fields)
      (hsent : w'.sent = w.sent ++ [upPiecesLocPacket fid fields])

section Answer

variable {w w' : World Record} {r : Request}

instance : Layout.Exact CM.UpReq := Layout.exact_ofEquiv (α := FsizeType × RdcyType) _

theorem payload_upReqPacket (fsize : FsizeType) (rdcy : RdcyType) (fname : Bytes) :
    (Client.upReqPacket fsize rdcy fname).payload =
      Layout.image (CM.UpReq.mk fsize rdcy) ++ fname.take (fname.length % 2 ^ 32) := by
  rw [Client.upReqPacket, Packet.addData, payload_addMessage, SharedBuffer.buf_ofData,
    payload_addValue _ _ _ (by decide)]
  rfl

theorem readUpReq_of_arrival {fsize : FsizeType} {rdcy : RdcyType} {fname fname' : Bytes}
    {p : Packet} {req : CM.UpReq} (h : arrival (Client.upReqPacket fsize rdcy fname) = some p)
    (hread : readUpReq p = some (req, fname')) : req = ⟨fsize, rdcy⟩ := by
  obtain ⟨req', hreq, hrest⟩ := Option.bind_eq_some_iff.mp hread
  obtain ⟨name, -, heq⟩ := Option.bind_eq_some_iff.mp hrest
  cases heq
  rw [front_of_arrival h, payload_upReqPacket] at hreq
  exact (Layout.eq_of_overlay_take [] hreq).2

/-- What a placement comes to. -/
theorem parts_of_placement (hvalid : Statics.Valid w.statics) (htable : Tabled w) {env : Env}
    {fuel : ℕ} {fileSize : FsizeType} {fields : List StpField}
    (hrun : (getStpfieldsForUpload env fuel fileSize).run exec w = (.ok fields, w')) :
    fields = [] ∨ Client.totalParts fields = partCount fileSize ∧
      fields.length ≤ partCount fileSize := by
  obtain ⟨w₁, hkept, hcached, hvalid₁, hplace⟩ | hnone | hthrew :=
    getStpfieldsForUpload_cases env fuel fileSize w hvalid
  · rw [hrun] at hplace
    obtain ⟨nbParts, tmpValues, places, h⟩ := placed_of_placeCached hvalid₁ hcached hplace.symm
    have hparts : nbParts = Master.numberOfParts storageSizes fileSize := by
      have hsome := h.parts
      rw [hkept.1, partsOfSize, htable, Option.bind_some, Record.storageSizes?_storageSizes,
        Option.map_some, Option.some_inj] at hsome
      exact hsome.symm
    have htotal : Client.totalParts fields = partCount fileSize := by
      rw [totalParts_of_placementFields h.fields, h.places.total, hparts, partCount]
    have hfields := placementFields_eq_some_iff.mp h.fields
    refine .inr ⟨htotal, ?_⟩
    have hle := List.length_le_sum_of_one_le (tmpValues.map fun f => f.2.toNat) fun nb hnb => by
      obtain ⟨f, hf, rfl⟩ := List.mem_map.mp hnb
      exact h.places.tallies.pos hf
    rwa [List.length_map, hfields.length_eq, ← totalParts_of_placementFields h.fields, htotal] at hle
  · rw [hrun] at hnone
    cases hnone
    exact .inl rfl
  · rw [hrun] at hthrew
    cases hthrew

/-- The record of an accepted upload. -/
theorem sized_created {mof : MetaOnFilesItem} {new : FileItem} (hid : new.id = mof.count)
    (hnew : mof.nameById.lookup mof.count = none) :
    Sized (World.created w mof new) mof.count new.fileSize := by
  refine ⟨{ mof with
    count := mof.count + 1
    totalSize := mof.totalSize + BitVec.ofNat 128 new.fileSize.toNat
    nameById := mof.nameById.emplace new.id new.name }, new.name, new, ?_, ?_, ?_, rfl⟩
  · exact (AList.lookup_insert_ne fileKey_ne_filesKey.symm).trans (AList.lookup_insert _)
  · rw [NameById.lookup_emplace, hid, hnew, Option.none_or, if_pos rfl]
  · exact AList.lookup_insert _

theorem accepts_sendError (packet : Packet) (code : ErrorCode) {w₁ : World Record}
    (hsame : w₁.sent = w.sent) (size : FsizeType) :
    Accepts w ((sendError packet code).run exec w₁).2 size := by
  rw [run_sendError]
  cases fromtoInverse packet.fromtoGet with
  | none => exact .silent hsame
  | some fromtoDst => exact .refused _ rfl (congrArg (· ++ _) hsame)

def Unnumbered (w : World Record) : Prop :=
  ∀ mof, w.database.lookup filesKey = some (.files mof) → mof.nameById.lookup mof.count = none

theorem accepts_afterPlacement (hnew : Unnumbered w) (r : Request) {w₁ : World Record}
    (hkept : w₁.database = w.database ∧ w₁.sent = w.sent) (req : CM.UpReq) (fname : Bytes)
    {fields : List StpField}
    (hparts : fields = [] ∨ Client.totalParts fields = partCount req.fsize ∧
      fields.length ≤ partCount req.fsize) :
    Accepts w ((afterPlacement r (newFile req fname) fields).run exec w₁).2 req.fsize := by
  by_cases hfew : fields.length < (newFile req fname).redundancy.toNat
  · rw [run_afterPlacement_of_few hfew]
    exact accepts_sendError _ _ hkept.2 _
  rw [run_afterPlacement_of_many hfew]
  obtain ⟨e, hrun⟩ | ⟨i, mof, -, hfiles, hrun⟩ := createNewFile_cases r.fuel (newFile req fname) w₁
  · rw [hrun]
    exact .silent hkept.2
  · rw [hrun]
    refine .given mof.count fields ⟨?_, hparts⟩ (congrArg (· ++ _) hkept.2)
    exact sized_created rfl (hnew mof (hkept.1 ▸ hfiles))

theorem accepts_cmUpReq (hvalid : Statics.Valid w.statics) (htable : Tabled w)
    (hnew : Unnumbered w) {req : CM.UpReq} {fname : Bytes}
    (hread : readUpReq r.packet = some (req, fname)) :
    Accepts w ((cmUpReq r).run exec w).2 req.fsize := by
  rw [run_cmUpReq, hread]
  dsimp only
  cases partsOfSize w.database req.fsize with
  | none => exact .silent rfl
  | some nbParts =>
      dsimp only
      split_ifs with hzero
      · exact accepts_sendError _ _ rfl _
      cases hrun : (getStpfieldsForUpload r.env r.fuel req.fsize).run exec w with
      | mk result w₁ =>
          obtain ⟨hdatabase, hsent, -⟩ := getStpfieldsForUpload_keeps hvalid hrun
          cases result with
          | error e => exact .silent hsent
          | ok fields =>
              exact accepts_afterPlacement hnew r ⟨hdatabase, hsent⟩ req fname
                (parts_of_placement hvalid htable hrun)

/-- **What an answer promises.** -/
theorem promise_of_answer (hvalid : Statics.Valid w.statics) (htable : Tabled w)
    (hnew : Unnumbered w) {size : FsizeType} {rdcy : RdcyType} {fname : Bytes} {answer : Packet}
    (hrequest : arrival (Client.upReqPacket size rdcy fname) = some r.packet)
    (hanswer : (handle w r).sent = w.sent ++ [answer]) (hwhat : answer.whatGet = MC.upPiecesLocW) :
    ∃ fid fields, answer = upPiecesLocPacket fid fields ∧ Promise (handle w r) size fid fields := by
  have htype : r.packet.header.type = ⟨CM.fromto, CM.upReqW⟩ :=
    congrArg PacketHeader.type (header_of_arrival hrequest)
  have haccepts : Accepts w (handle w r) size := by
    rw [handle, recvDispatcher_eq]
    by_cases hsize : r.packet.sizeGet < 1
    · rw [kindOf, if_pos hsize]
      exact accepts_sendError _ _ rfl _
    · have hkind : kindOf r.packet = .upReq := by
        rw [kindOf, Packet.whatGet, Packet.fromtoGet, htype]
        exact if_neg hsize
      rw [hkind]
      cases hread : readUpReq r.packet with
      | none =>
          rw [handlerOf, run_cmUpReq, hread]
          exact .silent rfl
      | some upload =>
          obtain ⟨req, fname'⟩ := upload
          obtain rfl := readUpReq_of_arrival hrequest hread
          exact accepts_cmUpReq hvalid htable hnew hread
  cases haccepts with
  | silent hsent => simp [hsent] at hanswer
  | refused packet hack hsent =>
      rw [hsent, List.append_cancel_left_eq, List.cons.injEq] at hanswer
      rw [hanswer.1, hwhat] at hack
      exact absurd hack (by decide)
  | given fid fields hpromise hsent =>
      rw [hsent, List.append_cancel_left_eq, List.cons.injEq] at hanswer
      exact ⟨fid, fields, hanswer.1.symm, hpromise⟩

end Answer

/-! ### The tasks of an upload -/

section Tasks

variable {S : Type} {hashBufferHex : Bytes → Sha1Type} {setup : S → Storage.Setup}
  {st st' : State Record S}

/-- The task has its share of the parts of its file, which are all there are unless the answer was
cut off. -/
structure Assigned (w : World Record) (task : Task S) : Prop where
  sized : Sized w task.fid task.file.size
  whole : sizeof MC.UpPiecesLoc + partCount task.file.size * sizeof StpField < 2 ^ 32 →
    task.totalParts = partCount task.file.size
  le : task.endId ≤ task.totalParts

structure Promises (st : State Record S) : Prop where
  table : Tabled st.master
  answers : ∀ a ∈ st.answers, ∃ fid fields, a.2 = upPiecesLocPacket fid fields ∧
    Promise st.master a.1.size fid fields
  tasks : ∀ task ∈ st.tasks, Assigned st.master task
  same : ∀ task ∈ st.tasks, ∀ task' ∈ st.tasks, task.fid = task'.fid → task.file = task'.file

theorem Promise.effect {w w' : World Record} {size : FsizeType} {fid : FidType}
    {fields : List StpField}
    (h : Promise w size fid fields) (heffect : Effect w w') : Promise w' size fid fields :=
  ⟨h.sized.effect heffect, h.parts⟩

theorem Assigned.effect {w w' : World Record} {task : Task S} (h : Assigned w task)
    (heffect : Effect w w') : Assigned w' task :=
  ⟨h.sized.effect heffect, h.whole, h.le⟩

/-- The master handles a packet. -/
theorem Promises.master (h : Promises st) (r : Request) {partAcks : List Packet}
    {answers : List (Client.File × Packet)}
    (hanswers : ∀ a ∈ answers, a ∈ st.answers ∨ ∃ fid fields, a.2 = upPiecesLocPacket fid fields ∧
      Promise (handle st.master r) a.1.size fid fields) :
    Promises { st with master := handle st.master r, partAcks, answers } := by
  have heffect := effect_handle st.master r
  refine ⟨h.table.effect heffect, fun a ha => ?_, fun task htask => ?_, h.same⟩
  · obtain hold | hnew := hanswers a ha
    · obtain ⟨fid, fields, heq, hpromise⟩ := h.answers a hold
      exact ⟨fid, fields, heq, hpromise.effect heffect⟩
    · exact hnew
  · exact (h.tasks task htask).effect heffect

theorem Once.unnumbered (h : Once hashBufferHex setup st) : Unnumbered st.master := by
  intro mof hfiles
  obtain ⟨mof', hconsistent, -⟩ := h.files
  have hsame := hconsistent.files
  rw [hfiles, Option.some_inj, Record.files.injEq] at hsame
  subst hsame
  rw [AList.lookup_eq_none, hconsistent.mem_nameById]
  exact UInt64.lt_irrefl _

/-- The fields arrive whole when they fit in a packet. -/
theorem stplist_of_fits {fid fid' : FidType} {fields stplist : List StpField} {p : Packet}
    (hfits : sizeof MC.UpPiecesLoc + fields.length * sizeof StpField < 2 ^ 32)
    (harrival : arrival (upPiecesLocPacket fid fields) = some p)
    (hread : Client.readUpPiecesLoc p = some (fid', stplist)) : stplist = fields := by
  obtain ⟨hsize, hfront⟩ := whole_of_arrival (.upPiecesLoc fid fields) hfits harrival
  have hsent := readUpPiecesLoc_of_front hsize hfront
  rw [hread, Option.some_inj, Prod.mk.injEq] at hsent
  exact hsent.2

/-- **An upload starts.** -/
theorem Promises.start (h : Promises st) (hsound : Sound setup st) {file : Client.File}
    {answer p : Packet} {answers : List (Client.File × Packet)} (listener : ℕ → S) {fid : FidType}
    {stplist : List StpField} (hanswers : st.answers.Perm ((file, answer) :: answers))
    (harrival : arrival answer = some p)
    (hread : Client.readUpPiecesLoc p = some (fid, stplist)) :
    Promises { st with
      answers
      tasks := st.tasks ++ startTasks listener file fid stplist } := by
  have hmem : (file, answer) ∈ st.answers := hanswers.mem_iff.mpr List.mem_cons_self
  obtain ⟨fid', fields, heq, hpromise⟩ := h.answers _ hmem
  obtain ⟨fid'', fields', heq', -, -, hfresh⟩ := hsound.given _ hmem
  dsimp only at heq heq' hpromise
  subst heq
  obtain ⟨rfl, hprefix⟩ := upPiecesLoc_of_arrival harrival hread
  obtain rfl : fid'' = fid := by
    have hfid := congrArg fidOf heq'
    rw [fidOf_upPiecesLocPacket, fidOf_upPiecesLocPacket, Option.some_inj] at hfid
    exact hfid.symm
  have hnew {task : Task S} (htask : task ∈ startTasks listener file fid'' stplist) :
      task.fid = fid'' ∧ task.file = file ∧ Assigned st.master task := by
    obtain ⟨_, range, hin, rfl⟩ := exists_begin htask
    refine ⟨rfl, rfl, hpromise.sized, fun hfits => ?_, Client.snd_le_of_mem_partRanges hin⟩
    have hne : stplist ≠ [] := by
      rintro rfl
      cases hin
    obtain hnone | ⟨htotal, hlength⟩ := hpromise.parts
    · rw [hnone, List.prefix_nil] at hprefix
      exact absurd hprefix hne
    · change Client.totalParts stplist = partCount file.size
      rw [← htotal, stplist_of_fits _ harrival hread]
      exact (Nat.add_le_add_left (Nat.mul_le_mul_right _ hlength) _).trans_lt hfits
  refine ⟨h.table, fun a ha => ?_, fun task htask => ?_, fun task htask task' htask' hfid => ?_⟩
  · exact h.answers a (hanswers.mem_iff.mpr (List.mem_cons_of_mem _ ha))
  · obtain htask | htask := List.mem_append.mp htask
    · exact h.tasks task htask
    · exact (hnew htask).2.2
  · obtain htask | htask := List.mem_append.mp htask
    · obtain htask' | htask' := List.mem_append.mp htask'
      · exact h.same task htask task' htask' hfid
      · exact absurd (hfid.trans (hnew htask').1) (hfresh task htask)
    · obtain htask' | htask' := List.mem_append.mp htask'
      · exact absurd (hfid.symm.trans (hnew htask).1) (hfresh task' htask')
      · rw [(hnew htask).2.1, (hnew htask').2.1]

/-- A task goes on with the same share of the same file. -/
theorem Promises.set (h : Promises st) {j : ℕ} {task task' : Task S}
    (hfound : st.tasks[j]? = some task) (htasks : st'.tasks = st.tasks.set j task')
    (hkept : st'.master = st.master ∧ st'.answers = st.answers)
    (hsame : task'.fid = task.fid ∧ task'.file = task.file ∧ task'.totalParts = task.totalParts ∧
      task'.endId = task.endId) : Promises st' := by
  obtain ⟨hfid, hfile, htotal, hend⟩ := hsame
  have hmem := List.mem_of_getElem? hfound
  have hold {other : Task S} (hother : other ∈ st'.tasks) :
      other = task' ∨ other ∈ st.tasks := by
    rw [htasks] at hother
    exact (List.mem_or_eq_of_mem_set hother).symm
  refine ⟨hkept.1 ▸ h.table, ?_, ?_, ?_⟩
  · rw [hkept.1, hkept.2]
    exact h.answers
  · intro other hother
    rw [hkept.1]
    obtain rfl | hother := hold hother
    · obtain ⟨hsized, hwhole, hle⟩ := h.tasks task hmem
      refine ⟨?_, ?_, ?_⟩
      · rwa [hfid, hfile]
      · rwa [hfile, htotal]
      · rwa [hend, htotal]
    · exact h.tasks other hother
  · have hsameAs {other : Task S} (hother : other ∈ st'.tasks) :
        ∃ old ∈ st.tasks, other.fid = old.fid ∧ other.file = old.file := by
      obtain rfl | hother := hold hother
      · exact ⟨task, hmem, hfid, hfile⟩
      · exact ⟨other, hother, rfl, rfl⟩
    intro other hother other' hother' heq
    obtain ⟨old, hmemOld, hfidOld, hfileOld⟩ := hsameAs hother
    obtain ⟨old', hmemOld', hfidOld', hfileOld'⟩ := hsameAs hother'
    rw [hfileOld, hfileOld']
    exact h.same old hmemOld old' hmemOld' (by rw [← hfidOld, ← hfidOld', heq])

variable [DecidableEq S] {terms : Terms}

/-- **One step.** -/
theorem Promises.step (h : Promises st) (honce : Once hashBufferHex setup st)
    (hstep : Step hashBufferHex setup terms st st') : Promises st' := by
  cases hstep with
  | request r => exact h.master r fun a ha => .inl ha
  | upload r file rdcy fname answer hterms hrequest hanswer hwhat =>
      refine h.master r fun a ha => ?_
      obtain rfl | ha := List.mem_cons.mp ha
      · exact .inr (promise_of_answer honce.sound.valid h.table honce.unnumbered hrequest hanswer
          hwhat)
      · exact .inl ha
  | start file answer p answers listener fid stplist hanswers harrival hread =>
      exact h.start honce.sound listener hanswers harrival hread
  | deliver packet rest r => exact h.master r fun a ha => .inl ha
  | perform j task p flushed command next htask => cases command with
    | read path => exact h.set htask rfl ⟨rfl, rfl⟩ ⟨rfl, rfl, rfl, rfl⟩
    | write path data => exact h.set htask rfl ⟨rfl, rfl⟩ ⟨rfl, rfl, rfl, rfl⟩
    | send peer message => cases peer with
      | master => exact h.set htask rfl ⟨rfl, rfl⟩ ⟨rfl, rfl, rfl, rfl⟩
      | client => exact h.set htask rfl ⟨rfl, rfl⟩ ⟨rfl, rfl, rfl, rfl⟩
  | send j task _ htask => exact h.set htask rfl ⟨rfl, rfl⟩ ⟨rfl, rfl, rfl, rfl⟩
  | receive j task _ _ _ _ htask => exact h.set htask rfl ⟨rfl, rfl⟩ ⟨rfl, rfl, rfl, rfl⟩
  | finish j task _ _ htask => exact h.set htask rfl ⟨rfl, rfl⟩ ⟨rfl, rfl, rfl, rfl⟩
  | fail j task _ _ htask => exact h.set htask rfl ⟨rfl, rfl⟩ ⟨rfl, rfl, rfl, rfl⟩
  | consume j task _ _ _ _ _ htask => exact h.set htask rfl ⟨rfl, rfl⟩ ⟨rfl, rfl, rfl, rfl⟩
  | refuse j task _ _ _ _ htask => exact h.set htask rfl ⟨rfl, rfl⟩ ⟨rfl, rfl, rfl, rfl⟩
  | lose j task htask => exact h.set htask rfl ⟨rfl, rfl⟩ ⟨rfl, rfl, rfl, rfl⟩

end Tasks

end Mp2p.System
