import Mp2p.Proof.Fates
import Mp2p.Proof.Names
import Mp2p.Proof.NoLoss

/-!
# Small uploads

Runs of a client, one storage and the master: files of three bytes are uploaded one after the other
under decimal names. The upload with number zero is followed until its storage has answered, and the
master can go on up to the upload whose number comes round.
-/

namespace Mp2p.System

open Masks Network Relation

/-! ### One small upload -/

def abdHash : Sha1Type :=
  ⟨[0xcb, 0x4c, 0xc2, 0x8d, 0xf0, 0xfd, 0xbe, 0x0e, 0xcf, 0x9d, 0x96, 0x62, 0xe2, 0x94, 0xb1, 0x18,
    0x09, 0x2a, 0x57, 0x35], rfl⟩

def smallHash (data : Bytes) : Sha1Type := if data = [97, 98, 100] then abdHash else Storage.abcHash

def abc : Client.File := ⟨[97, 98, 99], by decide⟩

def abd : Client.File := ⟨[97, 98, 100], by decide⟩

/-- The one storage, which has registered first. -/
def onlyStorage : Unit → Storage.Setup := fun _ => ⟨0, [0x73], smallHash⟩

def onlyField : StpField := ⟨⟨List.Vector.replicate 16 0, 4242⟩, 1⟩

def onlyPart (file : Client.File) : Packet :=
  Client.upActPacket 0 0 (smallHash file.data) file.data

theorem partPacket_of_small {file : Client.File} (hsmall : file.data.length < 2 ^ 21) :
    Client.partPacket smallHash 0 file 1 0 = some (onlyPart file) := by
  have hsize : (getPartSize file.size 0 1).toNat = file.data.length := by
    have hone := toNat_getPartSize_one (TableRow.single rfl (by rwa [file.toNat_size]))
    rwa [file.toNat_size] at hone
  have hbuffer : Client.partBuffer file (UInt64.ofNat 1) (UInt64.ofNat 0) = some file.data := by
    have hoffset : (file.size / UInt64.ofNat 1 * UInt64.ofNat 0).toNat = 0 := by
      rw [UInt64.toNat_mul]
      exact congrArg (· % 2 ^ 64) (Nat.mul_zero _)
    change Window.read file.data (file.size / UInt64.ofNat 1 * UInt64.ofNat 0).toNat
      (getPartSize file.size 0 1).toNat = some file.data
    rw [hoffset, hsize, Window.read_eq_some_iff, List.drop_zero, List.take_length]
    exact ⟨by omega, rfl⟩
  rw [Client.partPacket, if_neg (by decide), Client.sendPart, hbuffer]
  rfl

structure Accepted (file : Client.File) (p : Packet) : Prop where
  small : file.data.length < 2 ^ 21
  arrival : arrival (onlyPart file) = some p
  read : Storage.readUpAct p = some (⟨⟨0, 0⟩, smallHash file.data⟩, file.data)
  handler : Storage.recvDispatcher (onlyStorage ()) ⟨p, Storage.steady⟩ =
    storing (onlyStorage ()) Storage.steady ⟨0, 0⟩ file.data

theorem exists_accepted {file : Client.File} (hsmall : file.data.length < 2 ^ 21)
    (hhash : Files.hashBufferHex smallHash file.data (UInt64.ofNat file.data.length) =
      some (smallHash file.data)) : ∃ p, Accepted file p := by
  let m : Message := .upAct ⟨0, 0⟩ (smallHash file.data) file.data
  have hm : m.size < 2 ^ 32 := by
    change 32 + file.data.length < 2 ^ 32
    omega
  have harrival : arrival (onlyPart file) = some (received m.packet.header m.body) :=
    arrival_message m hm
  have hdelivered := delivered_of_arrival harrival
  have hread : Storage.readUpAct (received m.packet.header m.body) =
      some (⟨⟨0, 0⟩, smallHash file.data⟩, file.data) := by
    rw [readUpAct_eq_some_iff hdelivered]
    exact ⟨Layout.overlay_image_append _ _, (List.drop_left' (Layout.length_image _)).symm⟩
  have hupload : Storage.Uploads ⟨received m.packet.header m.body, Storage.steady⟩
      ⟨⟨0, 0⟩, smallHash file.data⟩ file.data := ⟨rfl, rfl, hread⟩
  have hstored : Storage.csUpAct (onlyStorage ()) ⟨received m.packet.header m.body, Storage.steady⟩ =
      Storage.storePart (onlyStorage ()) ⟨received m.packet.header m.body, Storage.steady⟩ ⟨0, 0⟩
        file.data :=
    (csUpAct_eq hdelivered rfl hread hhash).trans (if_neg (not_not_intro rfl))
  refine ⟨_, hsmall, harrival, hread, ?_⟩
  rw [Storage.recvDispatcher_of_uploads hdelivered hupload, hstored]
  exact storePart_eq (fun _ _ => rfl) rfl _ _

theorem exists_accepted_abc : ∃ p, Accepted abc p :=
  exists_accepted (by decide) (by decide +kernel)

theorem exists_accepted_abd : ∃ p, Accepted abd p :=
  exists_accepted (by decide) (by decide +kernel)

/-! The one task of the upload, from its start until its storage has answered. -/

def begun (file : Client.File) : Task Unit := Task.begin () 0 file 1 (0, 1)

def asking (file : Client.File) : Task Unit :=
  { begun file with waiting := true, sent := some (onlyPart file), toStorage := [onlyPart file] }

def handled (file : Client.File) (p : Packet) (program : Storage.Handler KeepAlive) : Task Unit :=
  { asking file with toStorage := [], handling := some (p, program) }

def onlyPath : Bytes := Storage.uploadPath (onlyStorage ()) ⟨0, 0⟩

def written (file : Client.File) (p : Packet) (flushed : ℕ)
    (program : Storage.Handler KeepAlive) : Task Unit :=
  { handled file p program with
    stream := some ⟨onlyPath, (file.data.take flushed).length, file.data.drop flushed⟩ }

def answered (file : Client.File) (p : Packet) (flushed : ℕ) : Task Unit :=
  { written file p flushed (.pure .yes) with
    toClient := [(ackPacket SC.fromto .success, p)] }

theorem found_set {tasks : List (Task Unit)} {j : ℕ} {task task' : Task Unit}
    (h : tasks[j]? = some task) : (tasks.set j task')[j]? = some task' :=
  List.getElem?_set_self (List.getElem?_eq_some_iff.mp h).1

/-- The states of one storage with an empty directory and its clients. -/
abbrev Runs {V : Type} [DB.Coding V] (terms : Terms) : State V Unit → Prop :=
  Reachable smallHash onlyStorage terms fun _ => ∅

section Exchange

variable {V : Type} [DB.Coding V] {terms : Terms} {st : State V Unit} {file : Client.File}

theorem runs_begun (h : Runs terms st) {answers : List (Client.File × Packet)}
    (hanswers : st.answers = (file, Master.upPiecesLocPacket 0 [onlyField]) :: answers) :
    Runs terms { st with answers, tasks := st.tasks ++ [begun file] } := by
  have harrival : arrival (Master.upPiecesLocPacket 0 [onlyField]) = some _ :=
    arrival_message (.upPiecesLoc 0 [onlyField]) (by decide)
  exact h.tail (.start file _ _ answers (fun _ => ()) 0 [onlyField] (hanswers ▸ .refl _) harrival rfl)

/-- The part of the file is on the storage or in its stream, and the answers are on their way. -/
structure Exchanged (st st' : State V Unit) (file : Client.File) (p : Packet) (flushed : ℕ) :
    Prop where
  master : st'.master = st.master
  tasks : st'.tasks = st.tasks ++ [answered file p flushed]
  partAcks : st'.partAcks = st.partAcks ++ [Storage.partAckPacket 0 ⟨0, 0⟩ 10]
  acked : st'.acked = ((), p) :: st.acked
  held : (st'.directory ()).lookup onlyPath = some (file.data.take flushed)

/-- The one part of an upload with number zero is sent, stored and acknowledged. -/
theorem exists_exchange (h : Runs terms st) {p : Packet} (hfile : Accepted file p)
    {answers : List (Client.File × Packet)}
    (hanswers : st.answers = (file, Master.upPiecesLocPacket 0 [onlyField]) :: answers)
    (flushed : ℕ) (hprompt : terms.prompt → file.data.length ≤ flushed) :
    ∃ st', Runs terms st' ∧ st'.answers = answers ∧ Exchanged st st' file p flushed := by
  have hbegun : (st.tasks ++ [begun file])[st.tasks.length]? = some (begun file) :=
    List.getElem?_concat_length
  have hasking : _ = some (asking file) := found_set hbegun
  have hdispatched : _ = some (handled file p (Storage.recvDispatcher (onlyStorage ())
    ⟨p, Storage.steady⟩)) := found_set hasking
  have hstored : _ = some (written file p flushed
    (telling (onlyStorage ()) Storage.steady ⟨0, 0⟩)) := found_set hdispatched
  have htold : _ = some (written file p flushed (answering .success .yes)) := found_set hstored
  have hsent := (runs_begun h hanswers).tail (.send st.tasks.length _ (onlyPart file) hbegun
    ⟨rfl, rfl⟩ Nat.one_pos (partPacket_of_small hfile.small))
  have hreceived := hsent.tail (.receive st.tasks.length _ (onlyPart file) p [] Storage.steady
    hasking ⟨rfl, rfl⟩ rfl hfile.arrival fun _ _ => rfl)
  have hwritten := hreceived.tail (.perform st.tasks.length _ p flushed (.write onlyPath file.data)
    _ hdispatched (congrArg (fun program => some (p, program)) hfile.handler)
    fun _ _ heq => nomatch heq)
  have hacked := hwritten.tail (.perform st.tasks.length _ p flushed
    (.send .master (Storage.partAckPacket 0 ⟨0, 0⟩ 10)) _ hstored rfl fun _ _ heq => nomatch heq)
  have hanswered := hacked.tail (.perform st.tasks.length _ p flushed
    (.send .client (ackPacket SC.fromto .success)) _ htold rfl fun hp _ _ stream hstream => by
      cases hstream
      exact List.drop_eq_nil_of_le (hprompt hp))
  refine ⟨_, hanswered, rfl, rfl, ?_, rfl, ?_, ?_⟩
  · simp only [State.perform, List.set_set]
    rw [List.set_append_right _ _ le_rfl, Nat.sub_self]
    rfl
  · exact if_pos ((isSuccess_ackPacket _ _).mpr rfl)
  · exact AList.lookup_insert _

end Exchange

/-! ### Many uploads -/

def naming (name : Bytes) : Message := .upReq 3 1 name

def uploadUnder (name : Bytes) : Master.Request :=
  ⟨received (naming name).packet.header (naming name).body, DB.Tools.anyHost, 2⟩

def uploadOf (n : ℕ) : Master.Request := uploadUnder (Decimal.digits n)

def usedStatics : DB.Statics := ⟨true, 1, [DB.Tools.hugeStorage 0 4242]⟩

/-- The master has accepted this many uploads and can place the next one, and the names from there
on are free. -/
structure Filled (k : ℕ) (w : DB.World DB.Record) : Prop where
  placing : (DB.Tools.getStpfieldsForUpload DB.Tools.anyHost 2 3).run DB.exec w =
    (.ok [onlyField], { w with statics := usedStatics })
  table : DB.Tools.partsOfSize w.database 3 = some 1
  ledger : ∃ mof, Ledger w mof
  uploads : Master.uploads w = k
  free : ∀ n, k ≤ n → ¬Master.Stored w (DB.Tools.suffixed (Decimal.digits n) 0)

theorem placeParts_only {current : ℕ} (hcurrent : current ≤ 1) :
    DB.Tools.placeParts DB.Tools.anyHost 3 1 usedStatics.storages 2 1 current [] =
      .ok (1, [(DB.Tools.hugeStorage 0 4242, 1)]) := by
  interval_cases current
  · decide +kernel
  · decide +kernel

theorem placing_of_cached {w w₁ : DB.World DB.Record} {current : ℕ} (hcurrent : current ≤ 1)
    (hstatics : w₁ = { w with statics := { usedStatics with currentRoundRobin := current } })
    (htable : DB.Tools.partsOfSize w.database 3 = some 1) :
    DB.Tools.placeCached DB.Tools.anyHost 2 3 w₁ =
      (.ok [onlyField], { w with statics := usedStatics }) := by
  subst hstatics
  rw [DB.Tools.placeCached]
  dsimp only
  rw [htable]
  dsimp only
  rw [placeParts_only hcurrent]
  rfl

theorem filled_oneRegistered : Filled 0 Master.oneRegistered where
  placing := by
    rw [DB.Tools.run_getStpfieldsForUpload]
    exact placing_of_cached (Nat.zero_le 1) rfl rfl
  table := rfl
  ledger := ledger_initial.effect (Master.effect_handle _ _)
  uploads := rfl
  free := by
    intro n _ hstored
    have hdatabase : Master.oneRegistered.database =
      (DB.World.initial.database.insert (DB.storageKey 0)
        (.storage (DB.Tools.hugeStorage 0 4242))).insert DB.storagesKey
          (.storages ⟨1, BitVec.ofNat 128 (2 ^ 64 - 1)⟩) := rfl
    rw [Master.Stored, hdatabase, AList.lookup_insert_ne Master.fileKey_ne_storagesKey, DB.storageKey,
      AList.lookup_insert_ne Master.fileKey_ne_storageKey, AList.lookup_isSome] at hstored
    obtain ⟨id, hname⟩ := Master.consistent_initial.files.name_of_key _ hstored
    cases hname

theorem length_digits_le {n : ℕ} (hn : n < 10 ^ 20) : (Decimal.digits n).length ≤ 20 := by
  rw [Decimal.digits, List.length_map]
  exact (Nat.length_toDigits_le_iff (by omega) (by omega)).mpr hn

section Naming

variable {name : Bytes} (hname : name.length ≤ 20)
include hname

theorem arrival_uploadUnder :
    arrival (Client.upReqPacket 3 1 name) = some (uploadUnder name).packet := by
  refine arrival_message (naming name) ?_
  change 9 + name.length < 2 ^ 32
  omega

theorem readUpReq_uploadUnder :
    Master.readUpReq (uploadUnder name).packet = some (⟨3, 1⟩, name) := by
  rw [readUpReq_eq_some_iff (delivered_of_arrival (arrival_uploadUnder hname))]
  exact ⟨Layout.overlay_image_append _ _, (List.drop_left' (Layout.length_image _)).symm⟩

theorem not_sizeGet_uploadUnder_lt : ¬(uploadUnder name).packet.sizeGet < 1 := by
  have hread := (isSome_readUpReq (delivered_of_arrival (arrival_uploadUnder hname))).mp (by
    rw [readUpReq_uploadUnder hname]
    rfl)
  exact Storage.pos_of_isSome (r := ⟨(uploadUnder name).packet, Storage.steady⟩) (n := 9) (by omega)
    hread

theorem kindOf_uploadUnder : Master.kindOf (uploadUnder name).packet = .upReq := by
  rw [Master.kindOf, if_neg (not_sizeGet_uploadUnder_lt hname)]
  rfl

/-- The upload is placed and finds its name free: it ends with the file registered. -/
theorem handle_uploadUnder {V : Type} [DB.Coding V] {w w₁ w₂ : DB.World V} {fi : DB.FileItem}
    (htable : DB.Tools.partsOfSize w.database 3 = some 1)
    (hplacing : (DB.Tools.getStpfieldsForUpload DB.Tools.anyHost 2 3).run DB.exec w =
      (.ok [onlyField], w₁))
    (hfree : w₁.database.lookup (DB.fileKey (DB.Tools.suffixed name 0)) = none)
    (hregister : DB.Tools.registerFile (Master.newFile ⟨3, 1⟩ name) (DB.Tools.suffixed name 0) w₁ =
      (.ok fi, w₂)) :
    Master.handle w (uploadUnder name) =
      Master.sending w₂ [Master.upPiecesLocPacket fi.id [onlyField]] := by
  have hdispatch : Master.recvDispatcher (V := V) (uploadUnder name) =
      Master.cmUpReq (uploadUnder name) := by
    rw [Master.recvDispatcher, if_neg (not_sizeGet_uploadUnder_lt hname)]
    rfl
  have hsearch : (DB.Tools.searchName name 2 0).run DB.exec w₁ =
      (.ok (DB.Tools.suffixed name 0), w₁) := by
    rw [DB.Tools.run_searchName_succ, hfree]
  have hcreate : (DB.Tools.createNewFile 2 (Master.newFile ⟨3, 1⟩ name)).run DB.exec w₁ =
      (.ok fi, w₂) := by
    rw [congrFun (DB.Tools.createNewFile_eq_andThen (Master.newFile ⟨3, 1⟩ name) w₁) 2,
      Fuel.andThen_of_ok hsearch, hregister]
  have hplacing' : (DB.Tools.getStpfieldsForUpload (uploadUnder name).env (uploadUnder name).fuel
      (⟨3, 1⟩ : CM.UpReq).fsize).run DB.exec w = (.ok [onlyField], w₁) := hplacing
  have hmany : ¬[onlyField].length < (Master.newFile ⟨3, 1⟩ name).redundancy.toNat := Nat.lt_irrefl 1
  rw [Master.handle, hdispatch, Master.run_cmUpReq, readUpReq_uploadUnder hname]
  dsimp only
  rw [htable]
  dsimp only
  rw [if_neg (by decide), hplacing']
  dsimp only
  rw [Master.run_afterPlacement_of_created hmany (List.cons_ne_nil _ _) hcreate]

end Naming

def storedFile (n : ℕ) (fid : FidType) : DB.FileItem :=
  { Master.newFile ⟨3, 1⟩ (Decimal.digits n) with
    name := DB.Tools.suffixed (Decimal.digits n) 0, id := fid }

/-- The request of the upload is accepted: the file is created and its number given out. -/
theorem handle_uploadOf {k : ℕ} {w : DB.World DB.Record} (h : Filled k w) (hk : k < 10 ^ 20)
    {mof : DB.MetaOnFilesItem} (hfiles : w.database.lookup DB.filesKey = some (.files mof)) :
    Master.handle w (uploadOf k) = Master.sending
      (DB.Tools.World.created { w with statics := usedStatics } mof (storedFile k mof.count))
      [Master.upPiecesLocPacket mof.count [onlyField]] := by
  have hregister : DB.Tools.registerFile (Master.newFile ⟨3, 1⟩ (Decimal.digits k))
      (DB.Tools.suffixed (Decimal.digits k) 0) { w with statics := usedStatics } =
        (.ok (storedFile k mof.count), DB.Tools.World.created { w with statics := usedStatics } mof
          (storedFile k mof.count)) := by
    rw [DB.Tools.registerFile, hfiles]
    rfl
  have hfree : w.database.lookup (DB.fileKey (DB.Tools.suffixed (Decimal.digits k) 0)) = none :=
    Option.not_isSome_iff_eq_none.mp (h.free k le_rfl)
  rw [uploadOf, handle_uploadUnder (length_digits_le hk) h.table h.placing hfree hregister]
  rfl

theorem suffixed_digits_injective {m n : ℕ}
    (h : DB.Tools.suffixed (Decimal.digits m) 0 = DB.Tools.suffixed (Decimal.digits n) 0) :
    m = n := by
  rw [DB.Tools.suffixed, DB.Tools.suffixed, List.append_left_inj, List.append_left_inj] at h
  exact Decimal.digits_injective h

/-- One more upload, and the next one still finds a place and a free name. -/
theorem Filled.next {k : ℕ} {w : DB.World DB.Record} (h : Filled k w) (hk : k < 10 ^ 20) :
    Filled (k + 1) (Master.handle w (uploadOf k)) := by
  obtain ⟨mof, hledger⟩ := h.ledger
  have hhandle := handle_uploadOf h hk hledger.files
  have htable : DB.Tools.partsOfSize (Master.handle w (uploadOf k)).database 3 = some 1 := by
    have hdatabase : (Master.handle w (uploadOf k)).database =
      (w.database.insert DB.filesKey (.files (Master.addFile mof (storedFile k mof.count)))).insert
        (DB.fileKey (DB.Tools.suffixed (Decimal.digits k) 0)) (.file (storedFile k mof.count)) := by
      rw [hhandle]
      rfl
    rw [DB.Tools.partsOfSize, hdatabase, AList.lookup_insert_ne Master.fileKey_ne_storageSizesKey.symm,
      AList.lookup_insert_ne (by decide)]
    exact h.table
  refine ⟨?_, htable, hledger.effect (Master.effect_handle _ _), ?_, ?_⟩
  · have hstatics : (Master.handle w (uploadOf k)).statics = usedStatics := by
      rw [hhandle]
      rfl
    rw [DB.Tools.run_of_cached (hstatics ▸ rfl)]
    refine placing_of_cached le_rfl ?_ htable
    change Master.handle w (uploadOf k) = { Master.handle w (uploadOf k) with statics := usedStatics }
    rw [← hstatics]
  · rw [hhandle, Master.uploads_sending, if_pos ⟨rfl, rfl⟩]
    exact congrArg (· + 1) h.uploads
  · intro n hn hstored
    rw [hhandle] at hstored
    have hcreated : Master.Stored (DB.Tools.World.created { w with statics := usedStatics } mof
      (storedFile k mof.count)) (DB.Tools.suffixed (Decimal.digits n) 0) := hstored
    rw [DB.Tools.World.created, Master.stored_put, Master.stored_put] at hcreated
    rcases hcreated with hname | hfiles | hbefore
    · have := suffixed_digits_injective (Master.fileKey_injective hname)
      omega
    · exact Master.fileKey_ne_filesKey hfiles
    · exact h.free n (by omega) hbefore

/-- The terms allow the small uploads, by clients or anybody else, the registration of their storage
and the acknowledgements of parts. -/
structure Terms.Allow (terms : Terms) : Prop where
  uploads : ∀ n < 10 ^ 20, terms.packet (uploadOf n) ∧ terms.stranger (uploadOf n)
  registration :
    let r := DB.Tools.registration 4242 (UInt64.ofNat (2 ^ 64 - 1))
    terms.packet r ∧ terms.stranger r
  partAcks : ∀ r : Master.Request, Master.kindOf r.packet = .partAck → terms.packet r

section Runs

variable {terms : Terms} {st : State DB.Record Unit} (hallow : terms.Allow)
include hallow

/-- Uploads by others, up to this many, while the answers and the tasks stay. -/
theorem exists_filled (h : Runs terms st) {k : ℕ} (hfilled : Filled k st.master) :
    ∀ {n : ℕ}, k ≤ n → n ≤ 10 ^ 20 → ∃ w, Runs terms { st with master := w } ∧ Filled n w := by
  intro n hkn
  induction n, hkn using Nat.le_induction with
  | base =>
      intro _
      exact ⟨st.master, h, hfilled⟩
  | succ n hkn ih =>
      intro hn
      obtain ⟨w, hw, hfilled'⟩ := ih (by omega)
      exact ⟨_, hw.tail (.request (uploadOf n) (hallow.uploads n (by omega))),
        hfilled'.next (by omega)⟩

/-- One more upload, the answer of which is on its way. -/
theorem runs_upload (h : Runs terms st) {k : ℕ} (hfilled : Filled k st.master)
    (hk : k < 10 ^ 20) {file : Client.File} (hsize : file.size = 3) :
    Runs terms { st with
      master := Master.handle st.master (uploadOf k)
      answers := (file, Master.upPiecesLocPacket (UInt64.ofNat k) [onlyField]) :: st.answers } := by
  obtain ⟨mof, hledger⟩ := hfilled.ledger
  have hcount : mof.count = UInt64.ofNat k := by
    rw [hledger.count, hfilled.uploads]
  have hhandle := handle_uploadOf hfilled hk hledger.files
  rw [hcount] at hhandle
  have hrequest : arrival (Client.upReqPacket file.size 1 (Decimal.digits k)) =
      some (uploadOf k).packet := by
    rw [hsize]
    exact arrival_uploadUnder (length_digits_le hk)
  refine h.tail (.upload (uploadOf k) file 1 (Decimal.digits k) _ (hallow.uploads k hk).1 hrequest
    ?_ rfl)
  rw [hhandle]
  rfl

theorem runs_registered : Runs terms { (.start fun _ => ∅ : State DB.Record Unit) with
    master := Master.oneRegistered } :=
  .single (.request _ hallow.registration)

def acceptedOne : State DB.Record Unit :=
  { (.start fun _ => ∅ : State DB.Record Unit) with
    master := Master.handle Master.oneRegistered (uploadOf 0)
    answers := [(abc, Master.upPiecesLocPacket 0 [onlyField])] }

theorem runs_acceptedOne : Runs terms acceptedOne :=
  runs_upload hallow (runs_registered hallow) filled_oneRegistered (by decide)
    (show abc.size = 3 from rfl)

/-- The first file is on the storage or in its stream, and the answers are on their way. -/
theorem exists_first (flushed : ℕ) (hprompt : terms.prompt → 3 ≤ flushed) :
    ∃ st p, Runs terms st ∧ Accepted abc p ∧ st.answers = [] ∧
      Exchanged acceptedOne st abc p flushed := by
  obtain ⟨p, hp⟩ := exists_accepted_abc
  obtain ⟨st, hst, hanswers, hexchanged⟩ :=
    exists_exchange (runs_acceptedOne hallow) hp rfl flushed hprompt
  exact ⟨st, p, hst, hp, hanswers, hexchanged⟩

/-- The upload after the 2 ^ 64th gets number zero again, and its part the place of the first. -/
theorem exists_wrapped : ∃ (st : State DB.Record Unit) (p : Packet), Runs terms st ∧
    Accepted abc p ∧ ((), p) ∈ st.acked ∧
      (st.directory ()).lookup onlyPath = some [97, 98, 100] := by
  obtain ⟨st₁, p, hst₁, hp, hanswers₁, hexchanged₁⟩ := exists_first hallow 3 fun _ => le_rfl
  have hfilled₁ : Filled 1 st₁.master :=
    hexchanged₁.master ▸ filled_oneRegistered.next (by decide)
  obtain ⟨w, hw, hfilled⟩ := exists_filled hallow hst₁ hfilled₁ (n := 2 ^ 64) (by decide) (by decide)
  obtain ⟨q, hq⟩ := exists_accepted_abd
  have hupload := runs_upload hallow hw hfilled (by decide) (show abd.size = 3 from rfl)
  obtain ⟨st, hst, -, hexchanged⟩ := exists_exchange hupload hq rfl 3 fun _ => le_rfl
  refine ⟨st, p, hst, hp, ?_, hexchanged.held⟩
  rw [hexchanged.acked]
  exact List.mem_cons_of_mem _ (hexchanged₁.acked ▸ List.mem_cons_self)

end Runs

end Mp2p.System
