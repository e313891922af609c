import Mathlib.Data.List.TakeWhile
import Mp2p.Proof.Answers
import Mp2p.Proof.Arrivals
import Mp2p.Proof.Requests
import Mp2p.Proof.Restarts
import Mp2p.System.Registration

/-!
# No two storages go by one id

The master counts the storages that register, so a number is given to one storage only. Whatever
breaks or is started again, the number stays with that storage: in its id file, on its way there or
nowhere, and the record under the number says where that storage is.
-/

namespace Mp2p.Storage

open Masks

theorem not_isSpace_of_isDigit {byte : UInt8} (h : Decimal.IsDigit byte) : ¬ IsSpace byte := by
  have hspace : (0x20 : UInt8).toNat = 32 := rfl
  have hlast : (0x0d : UInt8).toNat = 13 := rfl
  rw [Decimal.IsDigit] at h
  rw [IsSpace, ← UInt8.toNat_inj, UInt8.le_iff_toNat_le, UInt8.le_iff_toNat_le]
  omega

/-- **The id file is read back.** -/
theorem readId_digits (id : StidType) : readId (Decimal.digits id.toNat) = id := by
  have hdigit : ∀ byte ∈ Decimal.digits id.toNat, Decimal.IsDigit byte :=
    fun _ => Decimal.isDigit_of_mem_digits
  have hvalue := Decimal.value_digits id.toNat
  have hlt : id.toNat < 2 ^ 32 := id.toNat_lt
  generalize hdigits : Decimal.digits id.toNat = numeral at hdigit hvalue
  cases numeral with
  | nil => exact absurd hdigits (Decimal.digits_ne_nil _)
  | cons byte rest =>
      have hbyte := hdigit byte List.mem_cons_self
      have hdrop : (byte :: rest).dropWhile IsSpace = byte :: rest :=
        List.dropWhile_cons_of_neg (by simpa using not_isSpace_of_isDigit hbyte)
      have htake : (byte :: rest).takeWhile Decimal.IsDigit = byte :: rest :=
        List.takeWhile_eq_self_iff.mpr fun b hb => by simpa using hdigit b hb
      have hsign : readSign (byte :: rest) = (false, byte :: rest) := by
        unfold readSign
        split
        · rename_i heq
          obtain ⟨rfl, -⟩ := List.cons.inj heq
          exact absurd hbyte (by decide)
        · rename_i heq
          obtain ⟨rfl, -⟩ := List.cons.inj heq
          exact absurd hbyte (by decide)
        · rfl
      rw [readId, hdrop, hsign]
      dsimp only
      rw [htake, hvalue, if_pos hlt, if_neg Bool.false_ne_true, UInt32.ofNat_toNat]

end Mp2p.Storage

namespace Mp2p.Master

open Masks Network DB DB.Tools

/-! ### What the master does for a registration -/

section Records

variable {w w' : World Record} {mof : MetaOnFilesItem} {mos : MetaOnStoragesItem}

/-- No record of a storage is written over. -/
def KeepsStorages (db db' : Database Record) : Prop :=
  ∀ id si, db.lookup (storageKey id) = some (.storage si) →
    db'.lookup (storageKey id) = some (.storage si)

theorem StoragesConsistent.lt_count {db : Database Record} (h : StoragesConsistent db mos)
    {id : StidType}
    {si : StorageItem} (hsi : db.lookup (storageKey id) = some (.storage si)) : id < mos.count := by
  have hmem : storageKey id ∈ db := by
    rw [← AList.lookup_isSome, hsi]
    rfl
  obtain ⟨id', hlt, hdigits⟩ := h.id_of_key _ hmem
  rwa [UInt32.toNat_inj.mp (Decimal.digits_injective hdigits)]

theorem StoragesConsistent.exists_readStorages {db : Database Record}
    (h : StoragesConsistent db mos)
    {ids : List StidType} (hids : ∀ id ∈ ids, id < mos.count) :
    ∃ storages, readStorages db ids = some storages ∧
      ∀ st, st ∈ storages ↔ st.id ∈ ids ∧ db.lookup (storageKey st.id) = some (.storage st) := by
  induction ids with
  | nil => exact ⟨[], rfl, fun st => by simp⟩
  | cons i rest ih =>
      obtain ⟨storages, hread, hmem⟩ := ih fun id hid => hids id (List.mem_cons_of_mem _ hid)
      obtain ⟨si, hsi, rfl⟩ := h.storage_of_id i (hids i List.mem_cons_self)
      refine ⟨si :: storages, ?_, fun st => ?_⟩
      · rw [readStorages] at hread ⊢
        rw [List.mapM_cons, hsi, hread]
        rfl
      · rw [List.mem_cons, List.mem_cons, hmem]
        constructor
        · rintro (rfl | ⟨hid, hst⟩)
          · exact ⟨.inl rfl, hsi⟩
          · exact ⟨.inr hid, hst⟩
        · rintro ⟨hid | hid, hst⟩
          · rw [hid, hsi, Option.some_inj, Record.storage.injEq] at hst
            exact .inl hst.symm
          · exact .inr ⟨hid, hst⟩

/-- Every storage with a record is listed, and nothing else. -/
theorem StoragesConsistent.exists_allStorages {db : Database Record}
    (h : StoragesConsistent db mos) :
    ∃ storages, allStorages db = some storages ∧
      ∀ st, st ∈ storages ↔ db.lookup (storageKey st.id) = some (.storage st) := by
  have hrange (n : ℕ) (hn : n < mos.count.toNat) : (UInt32.ofNat n).toNat = n :=
    UInt32.toNat_ofNat_of_lt (hn.trans mos.count.toNat_lt)
  obtain ⟨storages, hread, hmem⟩ := @StoragesConsistent.exists_readStorages mos db h
    ((List.range mos.count.toNat).map UInt32.ofNat) (by
      intro id hid
      obtain ⟨n, hn, rfl⟩ := List.mem_map.mp hid
      rw [List.mem_range] at hn
      rwa [UInt32.lt_iff_toNat_lt, hrange n hn])
  refine ⟨storages, ?_, fun st => ?_⟩
  · rw [allStorages, h.storages]
    exact hread
  · rw [hmem, and_iff_right_iff_imp]
    intro hst
    have hlt := UInt32.lt_iff_toNat_lt.mp (h.lt_count hst)
    exact List.mem_map.mpr ⟨st.id.toNat, List.mem_range.mpr hlt, UInt32.ofNat_toNat⟩

/-- The address of a number is that of the storage in its record. -/
theorem storageAddr_of_mem {env : Env} {storages : List StorageItem} {si : StorageItem}
    (hmem : si ∈ storages) (hunique : ∀ st ∈ storages, st.id = si.id → st = si) :
    storageAddr env storages si.id = si.addrGet env := by
  induction storages with
  | nil => cases hmem
  | cons st rest ih =>
      rw [storageAddr, List.findSome?_cons]
      by_cases hid : st.id = si.id
      · rw [if_pos hid, hunique st List.mem_cons_self hid]
        cases haddr : si.addrGet env with
        | some addr => rfl
        | none =>
            refine List.findSome?_eq_none_iff.mpr fun st' hst' => ?_
            split_ifs with hid'
            · rw [hunique st' (List.mem_cons_of_mem _ hst') hid', haddr]
            · rfl
      · rw [if_neg hid]
        have hrest : si ∈ rest := (List.mem_cons.mp hmem).resolve_left fun heq => hid (by rw [heq])
        exact ih hrest fun st' hst' => hunique st' (List.mem_cons_of_mem _ hst')

theorem Consistent.keepsStorages (h : Consistent w mof mos) (heffect : Effect w w') :
    KeepsStorages w.database w'.database := by
  intro id si hsi
  have hfileKey (name : Bytes) : storageKey id ≠ fileKey name := fileKey_ne_storageKey.symm
  have hfilesKey : storageKey id ≠ filesKey := filesKey_ne_storageKey.symm
  have hstoragesKey : storageKey id ≠ storagesKey := storageKey_ne_storagesKey
  cases heffect with
  | unchanged hdatabase => rwa [hdatabase]
  | created mof' fi hfiles hfree hid hdatabase =>
      rwa [hdatabase, AList.lookup_insert_ne (hfileKey _), AList.lookup_insert_ne hfilesKey]
  | acked mof' req fname fi hfiles hname hfile hdatabase =>
      rwa [hdatabase, AList.lookup_insert_ne (hfileKey _)]
  | registered mos' new hstorages hid hdatabase =>
      have hlt := h.storages.lt_count hsi
      rw [h.storages.storages, Option.some_inj, Record.storages.injEq] at hstorages
      have hne : storageKey id ≠ storageKey new.id := by
        intro heq
        rw [storageKey_injective heq, hid, ← hstorages] at hlt
        exact UInt32.lt_irrefl _ hlt
      rwa [hdatabase, AList.lookup_insert_ne hstoragesKey, AList.lookup_insert_ne hne]

theorem Keeps.keepsStorages (h : Keeps w) (event : Event) :
    KeepsStorages w.database (event.apply w).database := by
  obtain ⟨mof, mos, hconsistent, htable⟩ := h
  cases event with
  | request r => exact hconsistent.keepsStorages (effect_handle w r)
  | restart =>
      rw [Event.apply,
        restart_eq htable hconsistent.storages.storages hconsistent.files.files]
      exact fun _ _ hsi => hsi

/-- What a registration comes to: nothing, or the next number, with a record of where the storage
is. -/
theorem handle_idReq {r : Request} {port : PortType} {avspace : AvspaceType}
    (h : Keeps w) (hkind : kindOf r.packet = .idReq)
    (hread : readIdReq r.packet = some ⟨port, avspace⟩) :
    handle w r = w ∨ ∃ address id, r.env.remoteAddress = some address ∧
      (∀ si, w.database.lookup (storageKey id) ≠ some (.storage si)) ∧
      (handle w r).database.lookup (storageKey id) = some (.storage ⟨id, address, port, avspace⟩) ∧
      (handle w r).sent = w.sent ++ [fidInfoPacket id] := by
  obtain ⟨mof, mos, hconsistent, -⟩ := h
  have hmos : (w.database.lookup storagesKey).bind Coding.storages? = some mos := by
    rw [hconsistent.storages.storages]
    rfl
  rw [handle, recvDispatcher_eq, hkind, handlerOf, run_smIdReq, hmos]
  dsimp only
  cases haddress : r.env.remoteAddress with
  | none => exact .inl rfl
  | some address =>
      rw [hread]
      refine .inr ⟨address, mos.count, rfl, fun si hsi => ?_, ?_, rfl⟩
      · exact UInt32.lt_irrefl _ (hconsistent.storages.lt_count hsi)
      · exact (AList.lookup_insert_ne storageKey_ne_storagesKey).trans (AList.lookup_insert _)

end Records

end Mp2p.Master

namespace Mp2p.System.Registration

open Masks Network Master

/-! ### What arrives -/

theorem idReq_of_arrival {port : PortType} {avspace : AvspaceType} {p : Packet}
    (h : arrival (Storage.idReqPacket port avspace) = some p) :
    kindOf p = .idReq ∧ readIdReq p = some ⟨port, avspace⟩ := by
  let m : Message := .idReq port avspace
  have hm : m.size < 2 ^ 32 := by change 10 < 2 ^ 32; decide
  have harrival : arrival m.packet = some p := h
  rw [arrival_message m hm, Option.some_inj] at harrival
  refine ⟨?_, harrival ▸ overlay_image (SM.IdReq.mk port avspace)⟩
  have hheader : p.header = (Storage.idReqPacket port avspace).header := header_of_arrival h
  have hsize : p.sizeGet = 10 := congrArg PacketHeader.size hheader
  have hfromto : p.fromtoGet = SM.fromto := congrArg (fun h => h.type.fromto) hheader
  have hwhat : p.whatGet = SM.idReqW := congrArg (fun h => h.type.what) hheader
  rw [kindOf, hsize, hfromto, hwhat]
  rfl

theorem fidInfo_of_arrival {stid : StidType} {p : Packet}
    (h : arrival (fidInfoPacket stid) = some p) : Storage.readFidInfo p = some ⟨stid⟩ := by
  let m : Message := .fidInfo stid
  have hm : m.size < 2 ^ 32 := by change 4 < 2 ^ 32; decide
  have harrival : arrival m.packet = some p := h
  rw [arrival_message m hm, Option.some_inj] at harrival
  exact harrival ▸ overlay_image (MS.FidInfo.mk stid)

/-! ### Where a number may be -/

section Owners

variable {S : Type} {owner owner' : StidType → Option S} {s : S} {process : Process}

/-- A storage has in its file, and runs with, a number that belongs to it. Only with 0 it may run
without. -/
structure Fits (owner : StidType → Option S) (s : S) (process : Process) : Prop where
  file : ∀ contents, process.idFile = some contents → contents ≠ [] →
    ∃ id, contents = Decimal.digits id.toNat ∧ owner id = some s
  waiting : ∀ session, process.phase = .waiting session → process.idFile = none
  running : ∀ id, process.phase = .running id → id = 0 ∨ owner id = some s
  resumed : ∀ id contents, process.phase = .running id → process.idFile = some contents →
    contents ≠ [] → Storage.readId contents = id

def Extends (owner owner' : StidType → Option S) : Prop :=
  ∀ id s, owner id = some s → owner' id = some s

theorem fits_start (s : S) : Fits owner s ⟨none, .stopped⟩ where
  file := fun _ hfile => by cases hfile
  waiting := fun _ _ => rfl
  running := fun _ hphase => by cases hphase
  resumed := fun _ _ hphase => by cases hphase

theorem Fits.mono (h : Fits owner s process) (hextends : Extends owner owner') :
    Fits owner' s process where
  file := by
    intro contents hfile hne
    obtain ⟨id, hcontents, hid⟩ := h.file contents hfile hne
    exact ⟨id, hcontents, hextends _ _ hid⟩
  waiting := h.waiting
  running := fun id hphase => (h.running id hphase).imp_right (hextends _ _)
  resumed := h.resumed

theorem Fits.stop (h : Fits owner s process) : Fits owner s { process with phase := .stopped } where
  file := h.file
  waiting := fun _ hphase => by cases hphase
  running := fun _ hphase => by cases hphase
  resumed := fun _ _ hphase => by cases hphase

theorem Fits.ask (h : Fits owner s process) (hfile : process.idFile = none) (session : ℕ) :
    Fits owner s { process with phase := .waiting session } where
  file := h.file
  waiting := fun _ _ => hfile
  running := fun _ hphase => by cases hphase
  resumed := fun _ _ hphase => by cases hphase

theorem Fits.giveUp (h : Fits owner s process) {session : ℕ}
    (hwaiting : process.phase = .waiting session) :
    Fits owner s { process with phase := .running 0 } where
  file := h.file
  waiting := fun _ hphase => by cases hphase
  running := fun id hphase => .inl (Phase.running.inj hphase).symm
  resumed := by
    intro id contents _ hfile
    rw [h.waiting session hwaiting] at hfile
    cases hfile

/-- What the file says is an id the storage was given, and nothing is 0. -/
theorem Fits.resume (h : Fits owner s process) {contents : Bytes}
    (hfile : process.idFile = some contents) :
    Fits owner s { process with phase := .running (Storage.readId contents) } where
  file := h.file
  waiting := fun _ hphase => by cases hphase
  running := by
    intro id hphase
    rw [← Phase.running.inj hphase]
    by_cases hne : contents = []
    · rw [hne]
      exact .inl rfl
    · obtain ⟨id, hcontents, hid⟩ := h.file contents hfile hne
      rw [hcontents, Storage.readId_digits]
      exact .inr hid
  resumed := by
    intro id contents' hphase hfile' _
    have hsame : contents = contents' := Option.some_inj.mp (hfile.symm.trans hfile')
    rw [← hsame]
    exact Phase.running.inj hphase

theorem Fits.receive {id : StidType} (hid : owner id = some s) {file : Option Bytes}
    (hfile : Storage.Wrote id file) : Fits owner s ⟨file, .running id⟩ where
  file := by
    intro contents hcontents hne
    rcases hfile with hnone | hempty | hdigits
    · rw [hnone] at hcontents
      cases hcontents
    · rw [hempty, Option.some_inj] at hcontents
      exact absurd hcontents.symm hne
    · rw [hdigits, Option.some_inj] at hcontents
      exact ⟨id, hcontents.symm, hid⟩
  waiting := fun _ hphase => by cases hphase
  running := fun id' hphase => .inr (Phase.running.inj hphase ▸ hid)
  resumed := by
    intro id' contents hphase hcontents hne
    rw [← Phase.running.inj hphase]
    rcases hfile with hnone | hempty | hdigits
    · rw [hnone] at hcontents
      cases hcontents
    · rw [hempty, Option.some_inj] at hcontents
      exact absurd hcontents.symm hne
    · rw [hdigits, Option.some_inj] at hcontents
      rw [← hcontents, Storage.readId_digits]

end Owners

section Invariant

variable {S : Type} [DecidableEq S] {host : S → Bytes} {port : S → PortType} {st st' : State S}
  {owner : StidType → Option S}

/-- Each number belongs to one storage at most. Its record says where that storage is, and wherever
else it is, it is the storage's. -/
structure Owned (host : S → Bytes) (port : S → PortType) (st : State S)
    (owner : StidType → Option S) : Prop where
  record : ∀ id s, owner id = some s → ∃ avspace,
    st.master.database.lookup (DB.storageKey id) = some (.storage ⟨id, host s, port s, avspace⟩)
  requests : ∀ entry ∈ st.requests, ∃ avspace,
    entry.2.2 = Storage.idReqPacket (port entry.2.1) avspace
  answers : ∀ entry ∈ st.answers, ∃ id, entry.2.2 = fidInfoPacket id ∧
    owner id = some entry.2.1
  processes : ∀ s, Fits owner s (st.processes s)

omit [DecidableEq S] in
theorem owned_start : Owned host port State.start fun _ => none where
  record := fun _ _ hid => by cases hid
  requests := fun _ hentry => by cases hentry
  answers := fun _ hentry => by cases hentry
  processes := fun s => fits_start s

theorem Owned.setProcess (h : Owned host port st owner) {s : S} {process : Process}
    (hfits : Fits owner s process) : Owned host port (st.setProcess s process) owner where
  record := h.record
  requests := h.requests
  answers := h.answers
  processes := by
    intro s'
    change Fits owner s' (Function.update st.processes s process s')
    by_cases heq : s' = s
    · rw [heq, Function.update_self]
      exact hfits
    · rw [Function.update_of_ne heq]
      exact h.processes s'

omit [DecidableEq S] in
theorem Owned.other (h : Owned host port st owner) (hkeeps : Keeps st.master) (event : Event) :
    Owned host port { st with master := event.apply st.master } owner where
  record := by
    intro id s hid
    obtain ⟨avspace, hsi⟩ := h.record id s hid
    exact ⟨avspace, hkeeps.keepsStorages event id _ hsi⟩
  requests := h.requests
  answers := h.answers
  processes := h.processes

omit [DecidableEq S] in
theorem Owned.answer (h : Owned host port st owner) (hkeeps : Keeps st.master) {session : ℕ} {s : S}
    {packet : Packet} {requests : List (ℕ × S × Packet)} {r : Request}
    (hrequests : st.requests.Perm ((session, s, packet) :: requests))
    (harrival : arrival packet = some r.packet)
    (haddress : ∀ address, r.env.remoteAddress = some address → address = host s) :
    ∃ owner', Extends owner owner' ∧
      Owned host port { st.answered session s r with requests } owner' := by
  have hrest : ∀ entry ∈ requests, ∃ avspace,
      entry.2.2 = Storage.idReqPacket (port entry.2.1) avspace := fun entry hentry =>
    h.requests entry (hrequests.mem_iff.mpr (List.mem_cons_of_mem _ hentry))
  obtain ⟨avspace, hpacket⟩ : ∃ avspace, packet = Storage.idReqPacket (port s) avspace :=
    h.requests _ (hrequests.mem_iff.mpr List.mem_cons_self)
  rw [hpacket] at harrival
  obtain ⟨hkind, hread⟩ := idReq_of_arrival harrival
  rcases handle_idReq hkeeps hkind hread with hsame | ⟨address, id, hhost, hfresh, hsi, hsent⟩
  · refine ⟨owner, fun _ _ hid => hid, ?_⟩
    have hanswers : (st.answered session s r).answers = st.answers := by
      rw [State.answered, hsame, List.drop_length, List.map_nil, List.append_nil]
    refine ⟨?_, hrest, ?_, h.processes⟩
    · change ∀ id s, owner id = some s → ∃ avspace, (handle st.master r).database.lookup _ = _
      rw [hsame]
      exact h.record
    · rw [hanswers]
      exact h.answers
  · obtain rfl := haddress address hhost
    have hextends : Extends owner (Function.update owner id (some s)) := by
      intro id' s' hid'
      by_cases heq : id' = id
      · obtain ⟨avspace', hsi'⟩ := h.record id' s' hid'
        exact absurd (heq ▸ hsi') (hfresh _)
      · rwa [Function.update_of_ne heq]
    have hanswers : (st.answered session s r).answers =
        st.answers ++ [(session, s, fidInfoPacket id)] := by
      rw [State.answered, hsent, List.drop_left]
      rfl
    refine ⟨_, hextends, ?_, hrest, ?_, fun s' => (h.processes s').mono hextends⟩
    · intro id' s' hid'
      by_cases heq : id' = id
      · rw [heq, Function.update_self, Option.some_inj] at hid'
        rw [heq, ← hid']
        exact ⟨avspace, hsi⟩
      · rw [Function.update_of_ne heq] at hid'
        obtain ⟨avspace', hsi'⟩ := h.record id' s' hid'
        exact ⟨avspace', hkeeps.keepsStorages (.request r) id' _ hsi'⟩
    · intro entry hentry
      rw [hanswers, List.mem_append, List.mem_singleton] at hentry
      rcases hentry with hold | rfl
      · obtain ⟨id', hpacket, hid'⟩ := h.answers entry hold
        exact ⟨id', hpacket, hextends _ _ hid'⟩
      · exact ⟨id, rfl, Function.update_self _ _ _⟩

/-- **One step.** A number is given to one storage at most, and stays its own. -/
theorem Owned.step (h : Owned host port st owner) (hkeeps : Keeps st.master)
    (hstep : Step host port st st') :
    ∃ owner', Extends owner owner' ∧ Owned host port st' owner' := by
  have hsame : Extends owner owner := fun _ _ hid => hid
  cases hstep with
  | resume s contents hstopped hfile =>
      exact ⟨owner, hsame, h.setProcess ((h.processes s).resume hfile)⟩
  | ask s avspace hstopped hfile =>
      have hprocess := h.setProcess ((h.processes s).ask hfile st.sessions)
      refine ⟨owner, hsame, hprocess.record, ?_, hprocess.answers, hprocess.processes⟩
      intro entry hentry
      rcases List.mem_append.mp hentry with hold | hnew
      · exact h.requests entry hold
      · rw [List.mem_singleton.mp hnew]
        exact ⟨avspace, rfl⟩
  | answer session s packet requests r hrequests harrival haddress =>
      exact h.answer hkeeps hrequests harrival haddress
  | other event => exact ⟨owner, hsame, h.other hkeeps event⟩
  | receive session s packet p info file answers hwaiting hanswers harrival hread hfile =>
      obtain ⟨id, hpacket, hid⟩ : ∃ id, packet = fidInfoPacket id ∧ owner id = some s :=
        h.answers _ (hanswers.mem_iff.mpr List.mem_cons_self)
      rw [hpacket] at harrival
      rw [fidInfo_of_arrival harrival, Option.some_inj] at hread
      obtain rfl := hread
      have hprocess := h.setProcess (Fits.receive hid hfile)
      refine ⟨owner, hsame, hprocess.record, hprocess.requests, ?_, hprocess.processes⟩
      intro entry hentry
      exact h.answers entry (hanswers.mem_iff.mpr (List.mem_cons_of_mem _ hentry))
  | giveUp session s hwaiting =>
      exact ⟨owner, hsame, h.setProcess ((h.processes s).giveUp hwaiting)⟩
  | stop s => exact ⟨owner, hsame, h.setProcess (h.processes s).stop⟩

/-! ### Runs -/

omit [DecidableEq S] in
theorem keeps_start : Keeps (State.start : State S).master := ⟨_, _, consistent_initial, rfl⟩

/-- What a step is for the master: nothing, a request or a restart. -/
theorem master_step (hstep : Step host port st st') :
    st'.master = st.master ∨ ∃ event : Event, st'.master = event.apply st.master := by
  cases hstep with
  | answer session s packet requests r => exact .inr ⟨.request r, rfl⟩
  | other event => exact .inr ⟨event, rfl⟩
  | _ => exact .inl rfl

theorem sent_le_step (hstep : Step host port st st') :
    uploads st.master ≤ uploads st'.master ∧
      registrations st.master ≤ registrations st'.master := by
  rcases master_step hstep with hsame | ⟨event, hevent⟩
  · rw [hsame]
    exact ⟨le_rfl, le_rfl⟩
  · rw [hevent]
    exact sent_le_event st.master event

theorem sent_le_run (hrun : Relation.ReflTransGen (Step host port) st st') :
    uploads st.master ≤ uploads st'.master ∧
      registrations st.master ≤ registrations st'.master := by
  induction hrun with
  | refl => exact ⟨le_rfl, le_rfl⟩
  | tail _ hstep ih =>
      have hle := sent_le_step hstep
      exact ⟨ih.1.trans hle.1, ih.2.trans hle.2⟩

theorem keeps_step (h : Keeps st.master) (hstep : Step host port st st')
    (huploads : uploads st'.master < 2 ^ 64)
    (hregistrations : registrations st'.master < 2 ^ 32) : Keeps st'.master := by
  rcases master_step hstep with hsame | ⟨event, hevent⟩
  · rw [hsame]
    exact h
  · rw [hevent] at huploads hregistrations ⊢
    exact h.event event huploads hregistrations

/-- An id file stays as it is, since only a storage without one waits for a number. -/
theorem Owned.idFile_step (h : Owned host port st owner) (hstep : Step host port st st') {s : S}
    {contents : Bytes} (hfile : (st.processes s).idFile = some contents) :
    (st'.processes s).idFile = some contents := by
  have hkept {s' : S} {process : Process}
      (hprocess : s = s' → process.idFile = (st.processes s').idFile) :
      ((st.setProcess s' process).processes s).idFile = some contents := by
    change (Function.update st.processes s' process s).idFile = some contents
    by_cases heq : s = s'
    · rw [heq, Function.update_self, hprocess heq, ← heq, hfile]
    · rw [Function.update_of_ne heq, hfile]
  cases hstep with
  | receive session s' packet p info file answers hwaiting =>
      refine hkept fun heq => ?_
      rw [heq, (h.processes s').waiting session hwaiting] at hfile
      cases hfile
  | answer session s' packet requests r => exact hfile
  | other event => exact hfile
  | _ => exact hkept fun _ => rfl

/-- The numbers belong to storages now, and the later ones as well. -/
theorem Owned.run (h : Owned host port st owner) (hkeeps : Keeps st.master)
    (hrun : Relation.ReflTransGen (Step host port) st st') (huploads : uploads st'.master < 2 ^ 64)
    (hregistrations : registrations st'.master < 2 ^ 32) :
    Keeps st'.master ∧ (∃ owner', Owned host port st' owner') ∧
      ∀ s contents, (st.processes s).idFile = some contents →
        (st'.processes s).idFile = some contents := by
  induction hrun with
  | refl => exact ⟨hkeeps, ⟨owner, h⟩, fun _ _ hfile => hfile⟩
  | tail _ hstep ih =>
      have hle := sent_le_step hstep
      obtain ⟨hkeeps, ⟨owner, h⟩, hfiles⟩ :=
        ih (hle.1.trans_lt huploads) (hle.2.trans_lt hregistrations)
      obtain ⟨owner', -, h'⟩ := h.step hkeeps hstep
      exact ⟨keeps_step hkeeps hstep huploads hregistrations, ⟨owner', h'⟩,
        fun s contents hfile => h.idFile_step hstep (hfiles s contents hfile)⟩

omit [DecidableEq S] in
theorem Owned.of_goesBy (h : Owned host port st owner) {s : S} {id : StidType}
    (hid : GoesBy st s id) : owner id = some s := by
  rcases hid with ⟨contents, hne, hfile, hread⟩ | ⟨hphase, hne⟩
  · obtain ⟨id', hcontents, hid'⟩ := (h.processes s).file contents hfile hne
    rw [hcontents, Storage.readId_digits] at hread
    rwa [← hread]
  · exact ((h.processes s).running id hphase).resolve_left hne

/-- Every storage goes by an id of its own, and whoever asks the master for the address of the id
is sent to that storage. -/
structure Identified (host : S → Bytes) (port : S → PortType) (st : State S) : Prop where
  unique : ∀ s s' id, GoesBy st s id → GoesBy st s' id → s = s'
  addressed : ∀ s id, GoesBy st s id → ∃ storages,
    DB.Tools.allStorages st.master.database = some storages ∧ ∀ env : DB.Env,
      storageAddr env storages id = (env.resolve (host s)).map fun ipv6 => ⟨ipv6, port s⟩

omit [DecidableEq S] in
theorem Owned.identified (h : Owned host port st owner) (hkeeps : Keeps st.master) :
    Identified host port st where
  unique := by
    intro s s' id hs hs'
    exact Option.some_inj.mp ((h.of_goesBy hs).symm.trans (h.of_goesBy hs'))
  addressed := by
    intro s id hid
    obtain ⟨avspace, hsi⟩ := h.record id s (h.of_goesBy hid)
    obtain ⟨mof, mos, hconsistent, -⟩ := hkeeps
    obtain ⟨storages, hall, hmem⟩ := hconsistent.storages.exists_allStorages
    refine ⟨storages, hall, fun env => ?_⟩
    refine storageAddr_of_mem ((hmem ⟨id, host s, port s, avspace⟩).mpr hsi) fun st' hst' heq => ?_
    have hst := (hmem st').mp hst'
    rw [heq, hsi, Option.some_inj, DB.Record.storage.injEq] at hst
    exact hst.symm

/-- **Registration.** Whatever breaks, stops or is started again, and in whatever order the storages
are answered, no two storages go by one id and the master sends everybody who is to find the id to
its storage. A storage with a number in its id file keeps it from then on and runs with no other. -/
theorem storages_identified (hreach : Reachable host port st)
    (hlater : Relation.ReflTransGen (Step host port) st st')
    (huploads : uploads st'.master < 2 ^ 64)
    (hregistrations : registrations st'.master < 2 ^ 32) :
    Identified host port st' ∧
      ∀ s contents, (st.processes s).idFile = some contents → contents ≠ [] →
        (st'.processes s).idFile = some contents ∧
        ∀ id, (st'.processes s).phase = .running id → id = Storage.readId contents := by
  have hle := sent_le_run hlater
  obtain ⟨hkeeps, ⟨owner, h⟩, -⟩ := owned_start.run keeps_start hreach
    (hle.1.trans_lt huploads) (hle.2.trans_lt hregistrations)
  obtain ⟨hkeeps', ⟨owner', h'⟩, hfiles⟩ := h.run hkeeps hlater huploads hregistrations
  refine ⟨h'.identified hkeeps', fun s contents hfile hne => ?_⟩
  have hfile' := hfiles s contents hfile
  exact ⟨hfile', fun id hphase => ((h'.processes s).resumed id contents hphase hfile' hne).symm⟩

end Invariant

/-! ### Two storages -/

def twoHosts (s : Bool) : Bytes := if s then DB.ascii "::2" else DB.ascii "::1"

def onePort (_ : Bool) : PortType := 4242

def requestOf (s : Bool) : Request :=
  let p := Storage.idReqPacket (onePort s) 1000
  ⟨received p.header p.payload, ⟨0, fun _ => some (List.Vector.replicate 16 0), id, List.Perm.refl,
    some (twoHosts s), List.Vector.replicate 16 0⟩, 0⟩

def oneAsked : State Bool :=
  { State.start with
    master := handle .initial (requestOf true)
    processes := Function.update State.start.processes false ⟨none, .waiting 0⟩
    sessions := 1
    requests := [(0, false, Storage.idReqPacket 4242 1000)] }

def oneAnswered : State Bool := { oneAsked.answered 0 false (requestOf false) with requests := [] }

def oneRegistered : State Bool :=
  { oneAnswered.setProcess false ⟨some (Decimal.digits 1), .running 1⟩ with answers := [] }

def startedAgain : State Bool :=
  let stopped := oneRegistered.setPhase false .stopped
  let restarted := { stopped with master := stopped.master.restart }
  let resumed := restarted.setPhase false (.running (Storage.readId (Decimal.digits 1)))
  let asked := { resumed.setPhase true (.waiting 1) with
    sessions := 2
    requests := [(1, true, Storage.idReqPacket 4242 5)] }
  asked.setPhase true (.running 0)

theorem reachable_oneRegistered : Reachable twoHosts onePort oneRegistered := by
  have hasked : Reachable twoHosts onePort oneAsked :=
    .tail (.single (.ask false 1000 rfl rfl)) (.other (.request (requestOf true)))
  have harrival : arrival (Storage.idReqPacket 4242 1000) = some (requestOf false).packet :=
    arrival_message (.idReq 4242 1000) (by decide)
  have hanswered : Step twoHosts onePort oneAsked oneAnswered :=
    .answer 0 false _ [] (requestOf false) (.refl _) harrival fun address haddress =>
      (Option.some_inj.mp haddress).symm
  have hregistered : Step twoHosts onePort oneAnswered oneRegistered :=
    .receive 0 false (fidInfoPacket 1) _ ⟨1⟩ _ [] rfl
      (by rw [show oneAnswered.answers = [(0, false, fidInfoPacket 1)] by decide])
      (arrival_message (.fidInfo 1) (by decide)) (overlay_image (MS.FidInfo.mk 1)) (.inr (.inr rfl))
  exact .tail (.tail hasked hanswered) hregistered

theorem reachable_startedAgain :
    Relation.ReflTransGen (Step twoHosts onePort) oneRegistered startedAgain :=
  .tail (.tail (.tail (.tail (.single (.stop false)) (.other .restart))
    (.resume false (Decimal.digits 1) rfl rfl)) (.ask true 5 rfl rfl)) (.giveUp 1 true rfl)

theorem storages_identified_startedAgain :
    Identified twoHosts onePort startedAgain ∧
      ∀ s contents, (oneRegistered.processes s).idFile = some contents → contents ≠ [] →
        (startedAgain.processes s).idFile = some contents ∧
        ∀ id, (startedAgain.processes s).phase = .running id → id = Storage.readId contents :=
  storages_identified reachable_oneRegistered reachable_startedAgain (by decide) (by decide)

end Mp2p.System.Registration
