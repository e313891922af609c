import Mp2p.Lib.KeyedStore
import Mp2p.Proof.Messages
import Mp2p.Proof.StorageAnswers

/-!
# A storage is a keyed store

The numbers of a part are the key and its payload the value. The paths the two handlers write down
agree and tell all keys apart, so the directory represents the store, and an upload whose hash checks
is one write to it.
-/

namespace Mp2p.Storage

open Masks Network Files

/-! ### Paths -/

theorem downloadPath_eq (s : Setup) : downloadPath s = uploadPath s := by
  funext partid
  simp only [downloadPath, uploadPath, List.flatten_cons, List.flatten_nil, List.append_nil,
    List.append_assoc]

theorem dot_notMem_digits (n : ℕ) : (0x2e : UInt8) ∉ Decimal.digits n := fun h =>
  absurd (Decimal.isDigit_of_mem_digits h) (by decide)

theorem uploadPath_injective (s : Setup) : Function.Injective (uploadPath s) := by
  intro a b h
  rw [uploadPath, uploadPath, List.append_assoc, List.append_assoc _ _ ([0x2e] ++ _)] at h
  have hnames := List.append_cancel_left h
  obtain ⟨hfid, -, hpartnum⟩ := (List.append_cons_inj_of_notMem (dot_notMem_digits _)
    (dot_notMem_digits _)).mp hnames
  have hfid := UInt64.toNat_inj.mp (Decimal.digits_injective hfid)
  have hpartnum := UInt32.toNat_inj.mp (Decimal.digits_injective hpartnum)
  cases a
  cases b
  simp only at hfid hpartnum
  rw [hfid, hpartnum]

/-! ### Packets -/

structure Uploads (r : Request) (part : CS.UpAct) (data : Bytes) : Prop where
  fromto : r.packet.fromtoGet = CS.fromto
  what : r.packet.whatGet = CS.upActW
  read : readUpAct r.packet = some (part, data)

structure Downloads (r : Request) (partid : PartId) : Prop where
  fromto : r.packet.fromtoGet = CS.fromto
  what : r.packet.whatGet = CS.downActW
  read : readDownAct r.packet = some ⟨partid⟩

def Checks (s : Setup) (part : CS.UpAct) (data : Bytes) : Prop :=
  hashBufferHex s.sha1 data (UInt64.ofNat data.length) = some part.sha1

instance (s : Setup) (part : CS.UpAct) (data : Bytes) : Decidable (Checks s part data) :=
  inferInstanceAs (Decidable (_ = _))

/-- The part of an upload whose hash is looked at and checks. The address of the client is asked for
before that, and an exception ends the handler when there is none. -/
def accepted (s : Setup) (r : Request) : Option (PartId × Bytes) :=
  if r.packet.fromtoGet = CS.fromto ∧ r.packet.whatGet = CS.upActW ∧ r.env.remoteAddress.isSome then
    (readUpAct r.packet).bind fun upload =>
      if Checks s upload.1 upload.2 then some (upload.1.partid, upload.2) else none
  else none

/-- The payload of the most recent upload of a part whose hash checked. -/
def mostRecent (s : Setup) (requests : List Request) : PartId → Option Bytes :=
  KeyedStore.last (requests.filterMap (accepted s))

/-- A packet a storage gets with files that can be written and mapped, and a payload in an upload. -/
structure Regular (r : Request) : Prop where
  delivered : Delivered r.packet
  nonempty : ∀ part data, Uploads r part data → data ≠ []
  written : ∀ path data, r.env.written path data = some data
  mappable : ∀ length, length ≠ 0 → r.env.mappable length = true

section Storing

variable {s : Setup} {w : World} {r : Request} {part : CS.UpAct} {data : Bytes} {partid : PartId}

theorem accepted_of_checks (h : Uploads r part data) (haddress : r.env.remoteAddress.isSome)
    (hchecks : Checks s part data) : accepted s r = some (part.partid, data) := by
  rw [accepted, if_pos ⟨h.fromto, h.what, haddress⟩, h.read, Option.bind_some, if_pos hchecks]

theorem exists_uploads_of_accepted (h : accepted s r = some (partid, data)) :
    ∃ part, Uploads r part data ∧ part.partid = partid := by
  rw [accepted] at h
  split_ifs at h with hkind
  obtain ⟨⟨part, payload⟩, hread, hchecks⟩ := Option.bind_eq_some_iff.mp h
  rw [Option.ite_none_right_eq_some, Option.some_inj, Prod.mk.injEq] at hchecks
  obtain ⟨-, rfl, rfl⟩ := hchecks
  exact ⟨part, ⟨hkind.1, hkind.2.1, hread⟩, rfl⟩

/-! ### One packet -/

theorem pos_of_isSome {n : ℕ} (hn : 0 < n) (h : n ≤ r.packet.sizeGet.toNat) :
    ¬r.packet.sizeGet < 1 := by
  rw [UInt32.lt_iff_toNat_lt]
  exact fun hlt => absurd hlt (by change ¬_ < 1; omega)

theorem recvDispatcher_of_uploads (hdelivered : Delivered r.packet) (h : Uploads r part data) :
    recvDispatcher s r = csUpAct s r := by
  have hsize := (isSome_readUpAct hdelivered).mp (by rw [h.read]; rfl)
  rw [recvDispatcher, if_neg (pos_of_isSome (by omega) hsize), h.what, h.fromto]
  rfl

theorem recvDispatcher_of_downloads (hdelivered : Delivered r.packet) (h : Downloads r partid) :
    recvDispatcher s r = csDownAct s r := by
  have hsize := (isSome_readDownAct hdelivered).mp (by rw [h.read]; rfl)
  rw [recvDispatcher, if_neg (pos_of_isSome (by omega) hsize), h.what, h.fromto]
  rfl

def NotWrite : Command → Prop
  | .write _ _ => False
  | _ => True

theorem directory_exec {command : Command} (h : NotWrite command) (w : World) :
    (exec command w).2.directory = w.directory := by
  cases command with
  | write path data => exact h.elim
  | _ => rfl

theorem notWrite_sendError (packet : Packet) (code : ErrorCode) :
    (sendError packet code).All NotWrite := by
  refine Program.all_bind (Program.all_bind (Program.all_ofOption _ _) fun _ => ?_) fun _ =>
    Program.all_pure _
  exact Program.all_perform trivial

theorem notWrite_csDownAct (s : Setup) (r : Request) : (csDownAct s r).All NotWrite := by
  refine Program.all_bind (Program.all_ofOption _ _) fun request => ?_
  refine Program.all_bind ?_ fun opened => ?_
  · refine Program.all_bind (Program.all_perform trivial) fun contents => ?_
    refine Program.all_bind (Program.all_ofOption _ _) fun contents => ?_
    dsimp only
    split
    · exact Program.all_pure _
    · exact Program.all_throw _
  · refine Program.all_bind (Program.all_ofOption _ _) fun hash => ?_
    refine Program.all_bind (Program.all_perform trivial) fun _ => ?_
    cases (recvAck r.env.stream).1 with
    | lost => exact Program.all_pure _
    | accepted p => exact Program.all_pure _
    | threw p => exact Program.all_throw _
    | fault => exact Program.all_throw _

/-- What an upload does, with or without an address of the client. -/
theorem handle_of_uploads (hdelivered : Delivered r.packet) (h : Uploads r part data) :
    handle s w r =
      if r.env.remoteAddress.isSome then
        if Checks s part data then ((storePart s r part.partid data).run exec w).2
        else sending w [(.client, ackPacket SC.fromto .hashFailed)]
      else w := by
  rw [handle, recvDispatcher_of_uploads hdelivered h, run_csUpAct hdelivered h.fromto,
    readPartId_of_readUpAct hdelivered h.read]
  cases r.env.remoteAddress with
  | none => rfl
  | some address =>
      dsimp only [Option.isSome_some]
      rw [h.read, if_pos rfl]
      dsimp only
      by_cases hchecks : Checks s part data
      · rw [if_pos hchecks]
        exact congrArg Prod.snd (if_pos hchecks)
      · rw [if_neg hchecks]
        exact congrArg Prod.snd (if_neg hchecks)

theorem directory_storePart (hwritten : ∀ path data, r.env.written path data = some data)
    (hfromto : r.packet.fromtoGet = CS.fromto) :
    ((storePart s r partid data).run exec w).2.directory =
      w.directory.insert (uploadPath s partid) data := by
  have hsaved : (saving w r.env (uploadPath s partid) data).directory =
      w.directory.insert (uploadPath s partid) data := by
    rw [saving, hwritten]
  rw [run_storePart hfromto]
  split_ifs
  · exact hsaved
  · exact hsaved

theorem directory_of_not_accepted (hdelivered : Delivered r.packet) (h : accepted s r = none) :
    (handle s w r).directory = w.directory := by
  by_cases hupload : ∃ part data, Uploads r part data
  · obtain ⟨part, data, hupload⟩ := hupload
    rw [handle_of_uploads hdelivered hupload]
    split_ifs with haddress hchecks
    · rw [accepted_of_checks hupload haddress hchecks] at h
      cases h
    · rfl
    · rfl
  have hkept {p : Handler KeepAlive} (hp : p.All NotWrite) :
      (p.run exec w).2.directory = w.directory :=
    Program.wp_of_all (fun _ hc w => directory_exec hc w) hp w
  rw [handle, recvDispatcher]
  split_ifs with hsize hack hup hdown
  · exact hkept (notWrite_sendError _ _)
  · rfl
  · rw [run_csUpAct hdelivered hup.1]
    cases readPartId r.packet with
    | none => rfl
    | some partid =>
        cases r.env.remoteAddress with
        | none => rfl
        | some address =>
            cases hread : readUpAct r.packet with
            | none => rfl
            | some upload => exact absurd ⟨upload.1, upload.2, hup.1, hup.2, hread⟩ hupload
  · exact hkept (notWrite_csDownAct s r)
  · rfl

/-- **One packet.** An accepted upload is one write to the store and nothing else is any. -/
theorem represents_handle {store : PartId → Option Bytes} (hr : Regular r)
    (h : KeyedStore.Represents (uploadPath s) w.directory store) :
    KeyedStore.Represents (uploadPath s) (handle s w r).directory
      (match accepted s r with
        | none => store
        | some (partid, data) => Function.update store partid (some data)) := by
  cases haccepted : accepted s r with
  | none =>
      rw [directory_of_not_accepted hr.delivered haccepted]
      exact h
  | some upload =>
      obtain ⟨partid, data⟩ := upload
      obtain ⟨part, hupload, rfl⟩ := exists_uploads_of_accepted haccepted
      have hdirectory : (handle s w r).directory =
          w.directory.insert (uploadPath s part.partid) data := by
        rw [handle_of_uploads hr.delivered hupload]
        rw [accepted] at haccepted
        split_ifs at haccepted with hkind
        rw [hupload.read, Option.bind_some, Option.ite_none_right_eq_some] at haccepted
        rw [if_pos hkind.2.2, if_pos haccepted.1]
        exact directory_storePart hr.written hupload.fromto
      rw [hdirectory]
      exact h.insert (uploadPath_injective s) _ _

/-! ### Whole runs -/

theorem represents_handleAll {requests : List Request}
    (hfresh : ∀ partid, w.directory.lookup (uploadPath s partid) = none)
    (hrequests : ∀ r ∈ requests, Regular r) :
    KeyedStore.Represents (uploadPath s) (handleAll s w requests).directory
      (mostRecent s requests) := by
  induction requests using List.reverseRecOn with
  | nil => exact hfresh
  | append_singleton requests r ih =>
      rw [List.forall_mem_append, List.forall_mem_singleton] at hrequests
      have hstep := represents_handle hrequests.2 (ih hrequests.1)
      rw [handleAll, List.foldl_append, List.foldl_cons, List.foldl_nil, ← handleAll, mostRecent,
        List.filterMap_append]
      cases haccepted : accepted s r with
      | none =>
          rw [haccepted] at hstep
          rw [List.filterMap_cons_none haccepted, List.filterMap_nil, List.append_nil]
          exact hstep
      | some upload =>
          rw [haccepted] at hstep
          rw [List.filterMap_cons_some haccepted, List.filterMap_nil, KeyedStore.last_concat]
          exact hstep

theorem length_of_mostRecent {requests : List Request} (hrequests : ∀ r ∈ requests, Regular r)
    (h : mostRecent s requests partid = some data) :
    0 < data.length ∧ data.length + 32 < 2 ^ 32 := by
  obtain ⟨r, hr, haccepted⟩ := List.mem_filterMap.mp (KeyedStore.mem_of_last h)
  obtain ⟨part, hupload, -⟩ := exists_uploads_of_accepted haccepted
  have hregular := hrequests r hr
  have hlt := r.packet.sizeGet.toNat_lt
  have hlength := (length_of_readUpAct hregular.delivered hupload.read).1
  exact ⟨List.length_pos_of_ne_nil (hregular.nonempty part data hupload), by omega⟩

theorem sent_of_downloads {w : World} (hr : Regular r) (h : Downloads r partid)
    (hheld : w.directory.lookup (uploadPath s partid) = some data) (hpos : 0 < data.length)
    (hlt : data.length < 2 ^ 32) :
    ∃ hash, hashBufferHex s.sha1 data (UInt64.ofNat data.length) = some hash ∧
      handle s w r = sending w [(.client, partDataPacket partid hash data)] := by
  obtain ⟨hash, hhash⟩ := exists_hashBufferHex s.sha1 hlt
  refine ⟨hash, hhash, ?_⟩
  have hlength : (UInt64.ofNat data.length).toUInt32.toNat = data.length := by
    rw [UInt64.toNat_toUInt32, UInt64.toNat_ofNat']
    omega
  have hne : (UInt64.ofNat data.length).toUInt32 ≠ 0 := by
    intro hzero
    rw [hzero] at hlength
    exact absurd hlength hpos.ne
  have hopen : (openFile r.env (downloadPath s partid)).run exec w =
      (.ok (data, UInt64.ofNat data.length), w) := by
    rw [run_openFile, downloadPath_eq, hheld]
    dsimp only
    rw [if_pos (hr.mappable _ hne), hlength, List.take_length]
  rw [handle, recvDispatcher_of_downloads hr.delivered h, run_csDownAct, h.read]
  dsimp only
  rw [hopen]
  dsimp only
  rw [hhash]

theorem sent_of_not_held {w : World} (hr : Regular r) (h : Downloads r partid)
    (hnone : w.directory.lookup (uploadPath s partid) = none) : handle s w r = w := by
  rw [handle, recvDispatcher_of_downloads hr.delivered h, run_csDownAct, h.read]
  dsimp only
  rw [run_openFile, downloadPath_eq, hnone]

/-! ### The store a client sees -/

/-- What is promised of a packet behind packets that left a world. -/
structure Faithful (s : Setup) (requests : List Request) (w : World) (r : Request) : Prop where
  /-- A part is sent as the most recent upload left it, and none that was not uploaded. -/
  replies : ∀ partid, Downloads r partid →
    mostRecent s requests partid = none ∧ (handle s w r).sent = w.sent ∨
    ∃ data hash, mostRecent s requests partid = some data ∧
      hashBufferHex s.sha1 data (UInt64.ofNat data.length) = some hash ∧
      (handle s w r).sent = w.sent ++ [(.client, partDataPacket partid hash data)] ∧
      (partDataPacket partid hash data).payload = Layout.image (SC.UpAct.mk partid hash) ++ data
  /-- An upload with another hash is refused. -/
  rejects : ∀ part data, Uploads r part data → ¬Checks s part data →
    (handle s w r).directory = w.directory ∧
      (∀ packet, (Peer.master, packet) ∈ (handle s w r).sent → (Peer.master, packet) ∈ w.sent) ∧
      (r.env.remoteAddress.isSome →
        (handle s w r).sent = w.sent ++ [(.client, ackPacket SC.fromto .hashFailed)])
  /-- An upload changes no other part. -/
  separates : ∀ part data, Uploads r part data → ∀ partid, partid ≠ part.partid →
    (handle s w r).directory.lookup (uploadPath s partid) =
      w.directory.lookup (uploadPath s partid)

/-- **A faithful keyed store.** Whatever packets a storage handles, each is handled as by a store
that holds the most recent accepted payload under the numbers of its part. -/
theorem faithful_handleAll {requests : List Request}
    (hfresh : ∀ partid, w.directory.lookup (uploadPath s partid) = none)
    (hrequests : ∀ r ∈ requests, Regular r) (hr : Regular r) :
    Faithful s requests (handleAll s w requests) r where
  replies partid hdownload := by
    have hheld := represents_handleAll hfresh hrequests partid
    cases hrecent : mostRecent s requests partid with
    | none =>
        rw [hrecent] at hheld
        exact .inl ⟨rfl, by rw [sent_of_not_held hr hdownload hheld]⟩
    | some data =>
        rw [hrecent] at hheld
        obtain ⟨hpos, hlt⟩ := length_of_mostRecent hrequests hrecent
        obtain ⟨hash, hhash, hsent⟩ := sent_of_downloads hr hdownload hheld hpos (by omega)
        refine .inr ⟨data, hash, rfl, hhash, by rw [hsent]; rfl, ?_⟩
        exact Message.payload_packet (.partData partid hash data)
          (by rw [Message.size, sizeof_partData]; omega)
  rejects part data hupload hchecks := by
    rw [handle_of_uploads hr.delivered hupload, if_neg hchecks]
    split_ifs with haddress
    · refine ⟨rfl, fun packet hpacket => ?_, fun _ => rfl⟩
      obtain hpacket | hpacket := List.mem_append.mp hpacket
      · exact hpacket
      · rw [List.mem_singleton, Prod.mk.injEq] at hpacket
        cases hpacket.1
    · exact ⟨rfl, fun _ hpacket => hpacket, fun h => absurd h haddress⟩
  separates part data hupload partid hne := by
    rw [handle_of_uploads hr.delivered hupload]
    split_ifs
    · rw [directory_storePart hr.written hupload.fromto]
      exact AList.lookup_insert_ne ((uploadPath_injective s).ne hne)
    · rfl
    · rfl

end Storing

def steady : Env where
  remoteAddress := some []
  masterReachable := true
  written _ data := some data
  mappable length := length != 0
  stream := []

def abcHash : Sha1Type :=
  ⟨[0xa9, 0x99, 0x3e, 0x36, 0x47, 0x06, 0x81, 0x6a, 0xba, 0x3e, 0x25, 0x71, 0x78, 0x50, 0xc2,
    0x6c, 0x9c, 0xd0, 0xd8, 0x9d], rfl⟩

def abcStorage : Setup := ⟨7, [0x73], fun _ => abcHash⟩

def delivering (packet : Packet) : Request := ⟨received packet.header packet.payload, steady⟩

theorem regular_delivering {packet : Packet}
    (hdelivered : packet.payload.length = packet.header.size.toNat)
    (hsize : packet.header.size.toNat ≠ 32) : Regular (delivering packet) where
  delivered := hdelivered
  nonempty part data hupload hempty := by
    have hwhole : Delivered (delivering packet).packet := hdelivered
    have hlength := (length_of_readUpAct hwhole hupload.read).1
    rw [hempty] at hlength
    exact hsize hlength.symm
  written _ _ := rfl
  mappable length hlength := by
    exact bne_iff_ne.mpr hlength

theorem faithful_abc :
    Faithful abcStorage [delivering (Client.upActPacket 1 0 abcHash [97, 98, 99])]
      (handleAll abcStorage ⟨∅, []⟩ [delivering (Client.upActPacket 1 0 abcHash [97, 98, 99])])
      (delivering (Client.downActPacket ⟨1, 0⟩)) :=
  faithful_handleAll (fun _ => rfl)
    (List.forall_mem_singleton.mpr (regular_delivering (by decide) (by decide)))
    (regular_delivering (by decide) (by decide))

end Mp2p.Storage
