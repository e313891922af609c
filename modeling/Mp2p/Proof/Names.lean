import Mp2p.Proof.Metadata
import Mp2p.Proof.Redundancy

/-!
# The names of files

An upload stores its file under the name it carries with a suffix, and tells nobody. A download looks
for a name as it is among the files, a deletion among all keys. What is stored are therefore only
names with a suffix, so the shortest name that was accepted cannot be found.
-/

namespace Mp2p.Master

open Masks Network DB DB.Tools

/-! ### The stored names -/

def Stored (w : World Record) (name : Bytes) : Prop := (w.database.lookup (fileKey name)).isSome

/-- What one request does to the names: nothing, or one more with a suffix, for an upload that is
accepted. -/
inductive Names (r : Request) (w w' : World Record) : Prop where
  | kept (huploads : uploads w' = uploads w) (hstored : ∀ name, Stored w' name ↔ Stored w name)
  | created (req : CM.UpReq) (fname : Bytes) (i : UInt64)
      (hread : readUpReq r.packet = some (req, fname)) (huploads : uploads w' = uploads w + 1)
      (hstored : ∀ name, Stored w' name ↔ name = suffixed fname i ∨ Stored w name)

section Names

variable {r : Request} {w w' : World Record}

theorem names_of_view (h : view w' = view w) : Names r w w' := by
  simp only [view, Prod.mk.injEq] at h
  refine .kept h.2.1 fun name => ?_
  rw [Stored, Stored, h.1]

theorem names_of_minor {p : Handler Record KeepAlive} (h : p.All Minor) :
    Names r w (p.run exec w).2 :=
  names_of_view (Program.wp_of_all (fun _ hc w => view_exec hc w) h w)

theorem stored_put {key : Bytes} {record : Record} (name : Bytes) :
    Stored (w.put key record) name ↔ fileKey name = key ∨ Stored w name := by
  rw [Stored, Stored, World.put, AList.lookup_isSome, AList.lookup_isSome, AList.mem_insert]

theorem names_smPartAck : Names r w ((smPartAck r).run exec w).2 := by
  obtain ⟨req, mof, fname, fi, hack, hview⟩ | ⟨hview, -⟩ := smPartAck_spec w r
  · simp only [view, Prod.mk.injEq] at hview
    refine .kept hview.2.1 fun name => ?_
    rw [Stored, hview.1]
    change Stored (putAck w req fname fi) name ↔ _
    rw [putAck, stored_put, or_iff_right_iff_imp]
    intro hkey
    rw [Stored, hkey, hack.file]
    rfl
  · exact names_of_view hview

theorem uploads_sending {V : Type} (w : World V) (p : Packet) :
    uploads (sending w [p]) = uploads w +
      if p.fromtoGet = MC.fromto ∧ p.whatGet = MC.upPiecesLocW then 1 else 0 :=
  uploads_send w p

theorem names_smIdReq : Names r w ((smIdReq r).run exec w).2 := by
  rw [run_smIdReq]
  cases (w.database.lookup storagesKey).bind Coding.storages? with
  | none => exact names_of_view rfl
  | some mos =>
      dsimp only
      cases r.env.remoteAddress with
      | none => exact names_of_view rfl
      | some hostAddr =>
          dsimp only
          cases readIdReq r.packet with
          | none => exact names_of_view rfl
          | some req =>
              refine .kept ?_ fun name => ?_
              · rw [uploads_sending, if_neg fun h => fromto_ne h.1]
                rfl
              · change Stored ((w.put (storageKey mos.count) _).put storagesKey _) name ↔ _
                rw [stored_put, stored_put, or_iff_right fileKey_ne_storagesKey, storageKey,
                  or_iff_right fileKey_ne_storageKey]

theorem names_afterPlacement {req : CM.UpReq} {fname : Bytes}
    (hread : readUpReq r.packet = some (req, fname)) (fields : List StpField) :
    Names r w ((afterPlacement r (newFile req fname) fields).run exec w).2 := by
  by_cases hmany : fields.length < (newFile req fname).redundancy.toNat
  · rw [run_afterPlacement_of_few hmany]
    exact names_of_minor (minor_sendError _ _)
  rw [run_afterPlacement_of_many hmany]
  obtain ⟨e, hrun⟩ | ⟨i, mof, hfree, hfiles, hrun⟩ := createNewFile_cases r.fuel (newFile req fname) w
  · rw [hrun]
    exact names_of_view rfl
  · rw [hrun]
    refine .created req fname i hread ?_ fun name => ?_
    · rw [uploads_sending, if_pos ⟨rfl, rfl⟩]
      rfl
    · change Stored ((w.put filesKey _).put (fileKey (suffixed fname i)) _) name ↔ _
      rw [stored_put, stored_put, or_iff_right fileKey_ne_filesKey, fileKey_injective.eq_iff]

/-- What minor commands leave alone before a request stays out of what it does. -/
theorem names_congr {w₁ : World Record} (hview : view w₁ = view w) (h : Names r w₁ w') :
    Names r w w' := by
  simp only [view, Prod.mk.injEq] at hview
  have hstored (name : Bytes) : Stored w₁ name ↔ Stored w name := by rw [Stored, Stored, hview.1]
  cases h with
  | kept huploads hkept =>
      exact .kept (huploads.trans hview.2.1) fun name => (hkept name).trans (hstored name)
  | created req fname i hread huploads hnew =>
      refine .created req fname i hread (by rw [huploads, hview.2.1]) fun name => ?_
      rw [hnew, hstored]

theorem names_cmUpReq : Names r w ((cmUpReq r).run exec w).2 := by
  rw [run_cmUpReq]
  cases hread : readUpReq r.packet with
  | none => exact names_of_view rfl
  | some upload =>
      obtain ⟨req, fname⟩ := upload
      dsimp only
      cases partsOfSize w.database req.fsize with
      | none => exact names_of_view rfl
      | some nbParts =>
          dsimp only
          split_ifs with hzero
          · exact names_of_minor (minor_sendError _ _)
          have hplaced := Program.wp_of_all (fun _ hc w => view_exec hc w)
            (minor_getStpfieldsForUpload r.env r.fuel req.fsize) w
          rw [Program.wp] at hplaced
          cases hrun : (getStpfieldsForUpload r.env r.fuel req.fsize).run exec w with
          | mk result w₁ =>
              rw [hrun] at hplaced
              cases result with
              | error e => exact names_of_view hplaced
              | ok fields => exact names_congr hplaced (names_afterPlacement hread fields)

/-- **One request.** Names only come from uploads that are accepted, with a suffix. -/
theorem names_handle (w : World Record) (r : Request) : Names r w (handle w r) := by
  rw [handle]
  simp only [recvDispatcher]
  split_ifs
  · exact names_of_minor (minor_sendError _ _)
  · exact names_of_view rfl
  · exact names_cmUpReq
  · exact names_of_minor (minor_cmDownReq r)
  · exact names_of_minor (minor_cmDelReq r)
  · exact names_smPartAck
  · exact names_smIdReq
  · exact names_of_view rfl

end Names

/-! ### The names that were accepted -/

/-- The request is an upload of a file of this name, and the file is created. -/
def Accepts (w : World Record) (r : Request) (fname : Bytes) : Prop :=
  (∃ req, readUpReq r.packet = some (req, fname)) ∧ uploads (handle w r) = uploads w + 1

def AcceptedBy (requests : List Request) (fname : Bytes) : Prop :=
  ∃ before r after, requests = before ++ r :: after ∧
    Accepts (handleAll .initial before) r fname

theorem accepted_concat {requests : List Request} {r : Request} {fname : Bytes} :
    AcceptedBy (requests ++ [r]) fname ↔
      AcceptedBy requests fname ∨ Accepts (handleAll .initial requests) r fname := by
  constructor
  · rintro ⟨before, r', after, hsplit, haccepts⟩
    obtain rfl | ⟨rest, last, rfl⟩ := List.eq_nil_or_concat' after
    · obtain ⟨rfl, hr⟩ := List.append_inj' hsplit rfl
      rw [List.cons.injEq] at hr
      rw [← hr.1] at haccepts
      exact .inr haccepts
    · rw [← List.cons_append, ← List.append_assoc] at hsplit
      obtain ⟨rfl, -⟩ := List.append_inj' hsplit rfl
      exact .inl ⟨before, r', rest, rfl, haccepts⟩
  · rintro (⟨before, r', after, rfl, haccepts⟩ | haccepts)
    · exact ⟨before, r', after ++ [r], by simp, haccepts⟩
    · exact ⟨requests, r, [], rfl, haccepts⟩

theorem handleAll_concat (w : World Record) (requests : List Request) (r : Request) :
    handleAll w (requests ++ [r]) = handle (handleAll w requests) r := by
  rw [handleAll, handleAll, List.foldl_concat]

theorem stored_handleAll (requests : List Request) :
    (∀ name, Stored (handleAll .initial requests) name →
      ∃ fname i, AcceptedBy requests fname ∧ name = suffixed fname i) ∧
    ∀ fname, AcceptedBy requests fname →
      ∃ i, Stored (handleAll .initial requests) (suffixed fname i) := by
  induction requests using List.reverseRecOn with
  | nil =>
      constructor
      · intro name hstored
        rw [Stored, AList.lookup_isSome, AList.mem_keys] at hstored
        change fileKey name ∈ World.initial.database.keys at hstored
        rw [keys_initial, List.mem_cons, List.mem_pair] at hstored
        obtain hkey | hkey | hkey := hstored
        · exact absurd hkey fileKey_ne_filesKey
        · exact absurd hkey fileKey_ne_storagesKey
        · exact absurd hkey fileKey_ne_storageSizesKey
      · rintro fname ⟨before, r, after, hsplit, -⟩
        simp at hsplit
  | append_singleton requests r ih =>
      obtain ⟨hnames, hstored⟩ := ih
      rw [handleAll_concat]
      cases names_handle (handleAll .initial requests) r with
      | kept huploads hkept =>
          have hnot (fname : Bytes) : ¬Accepts (handleAll .initial requests) r fname := by
            rintro ⟨-, haccepts⟩
            omega
          constructor
          · intro name hname
            obtain ⟨fname, i, haccepted, heq⟩ := hnames name ((hkept name).mp hname)
            exact ⟨fname, i, accepted_concat.mpr (.inl haccepted), heq⟩
          · intro fname haccepted
            obtain haccepted | haccepts := accepted_concat.mp haccepted
            · obtain ⟨i, hi⟩ := hstored fname haccepted
              exact ⟨i, (hkept _).mpr hi⟩
            · exact absurd haccepts (hnot fname)
      | created req fname i hread huploads hnew =>
          constructor
          · intro name hname
            obtain rfl | hname := (hnew name).mp hname
            · exact ⟨fname, i, accepted_concat.mpr (.inr ⟨⟨req, hread⟩, huploads⟩), rfl⟩
            · obtain ⟨fname', i', haccepted, heq⟩ := hnames name hname
              exact ⟨fname', i', accepted_concat.mpr (.inl haccepted), heq⟩
          · intro fname' haccepted
            obtain haccepted | ⟨⟨req', hread'⟩, -⟩ := accepted_concat.mp haccepted
            · obtain ⟨i', hi'⟩ := hstored fname' haccepted
              exact ⟨i', (hnew _).mpr (.inr hi')⟩
            · rw [hread, Option.some_inj, Prod.mk.injEq] at hread'
              rw [← hread'.2]
              exact ⟨i, (hnew _).mpr (.inl rfl)⟩

/-! ### Looking a name up -/

def NotFound (w w' : World Record) : Prop := w'.sent = w.sent ++ [ackPacket MC.fromto .fileNotFound]

structure Carries (r : Request) (name : Bytes) : Prop where
  fromto_eq : r.packet.fromtoGet = CM.fromto
  fname_eq : readFname r.packet = some name

section Lookup

variable {r : Request} {w w' : World Record} {name : Bytes}

theorem not_notFound_of_sent {packets : List Packet} (h : w'.sent = w.sent ++ packets)
    (hother : ackPacket MC.fromto .fileNotFound ∉ packets) : ¬NotFound w w' := by
  intro hnot
  rw [NotFound, h] at hnot
  rw [List.append_cancel_left hnot] at hother
  exact hother List.mem_cons_self

theorem incompleteFile_ne : ackPacket MC.fromto .fileNotFound ≠ ackPacket MC.fromto .incompleteFile :=
  fun h => absurd (congrArg Packet.front h) (by decide)

theorem notFound_cmDownReq_iff (h : Carries r name) :
    NotFound w ((cmDownReq r).run exec w).2 ↔ ¬Stored w name := by
  rw [run_cmDownReq, h.fname_eq, Stored]
  dsimp only
  cases w.database.lookup (fileKey name) with
  | none =>
      rw [run_sendError_client h.fromto_eq]
      exact iff_of_true rfl nofun
  | some json =>
      refine iff_of_false ?_ (not_not_intro rfl)
      dsimp only
      have hsilent : ¬NotFound w w :=
        not_notFound_of_sent (List.append_nil _).symm (List.not_mem_nil)
      cases Coding.file? json with
      | none => exact hsilent
      | some fi =>
          dsimp only
          cases allStorages w.database with
          | none => exact hsilent
          | some storages =>
              dsimp only
              cases downloadFields r.env storages fi.parts with
              | none =>
                  rw [run_sendError_client h.fromto_eq]
                  apply not_notFound_of_sent rfl
                  rw [List.mem_singleton]
                  exact incompleteFile_ne
              | some fields =>
                  apply not_notFound_of_sent rfl
                  rw [List.mem_singleton]
                  intro hsame
                  have hwhat : ackW = MC.downPiecesLocW := congrArg Packet.whatGet hsame
                  exact absurd hwhat (by decide)

theorem notFound_cmDelReq_iff (h : Carries r name) :
    NotFound w ((cmDelReq r).run exec w).2 ↔ w.database.lookup name = none := by
  rw [run_cmDelReq, h.fname_eq]
  dsimp only
  cases w.database.lookup name with
  | none =>
      rw [run_sendError_client h.fromto_eq]
      exact iff_of_true rfl rfl
  | some json =>
      refine iff_of_false ?_ (Option.some_ne_none json)
      dsimp only
      have hsilent : ¬NotFound w w :=
        not_notFound_of_sent (List.append_nil _).symm (List.not_mem_nil)
      cases Coding.file? json with
      | none => exact hsilent
      | some fi =>
          dsimp only
          cases allStorages w.database with
          | none => exact hsilent
          | some storages =>
              have hact : ackPacket MC.fromto .fileNotFound ≠ Packet.ofType MS.fromto MS.delActW := by
                intro hsame
                have hwhat : ackW = MS.delActW := congrArg Packet.whatGet hsame
                exact absurd hwhat (by decide)
              dsimp only
              rw [run_deleteParts]
              dsimp only
              split_ifs
              · exact not_notFound_of_sent rfl fun hmem => hact (List.eq_of_mem_replicate hmem)
              · rw [run_sendError_client h.fromto_eq, sending_sending]
                apply not_notFound_of_sent rfl
                rw [List.mem_append, List.mem_singleton, not_or]
                exact ⟨fun hmem => hact (List.eq_of_mem_replicate hmem), incompleteFile_ne⟩

def carrying (name : Bytes) : Request :=
  ⟨received ⟨UInt32.ofNat name.length, CM.fromto, CM.downReqW⟩ name, anyHost, 0⟩

theorem carries_carrying (hlength : name.length < 2 ^ 32) : Carries (carrying name) name := by
  refine ⟨rfl, ?_⟩
  have hsize : (carrying name).packet.sizeT.toNat = name.length := by
    rw [Packet.sizeT, UInt32.toNat_toUInt64]
    exact UInt32.toNat_ofNat_of_lt' hlength
  rw [readFname, hsize, Window.read_eq_some_iff]
  exact ⟨(Nat.zero_add _).le, List.take_length.symm⟩

end Lookup

/-! ### Addressing a file by its name -/

/-- An accepted name is found by a download and by a deletion, and the two agree about every name, a
deletion being taken to find a key of the family only. -/
structure Addressable (family accepted : Bytes → Prop) (w : World Record) : Prop where
  finds : ∀ fname r, accepted fname → Carries r fname →
    ¬NotFound w ((cmDownReq r).run exec w).2 ∧ ¬NotFound w ((cmDelReq r).run exec w).2
  agree : ∀ name r, Carries r name → (¬NotFound w ((cmDownReq r).run exec w).2 ↔
    ¬NotFound w ((cmDelReq r).run exec w).2 ∧ family name)

def FileFamily (key : Bytes) : Prop := ∃ name, key = fileKey name

section Addressable

variable {requests : List Request} {fname : Bytes}

theorem suffixed_ne_files (tmpName : Bytes) (i : UInt64) : filesKey ≠ suffixed tmpName i := by
  intro heq
  have hdot : (46 : UInt8) ∈ suffixed tmpName i := by
    rw [suffixed]
    exact List.mem_append_left _ (List.mem_append_right _ (by decide))
  rw [← heq] at hdot
  exact absurd hdot (by decide)

theorem files_isSome_handleAll (requests : List Request) :
    ((handleAll .initial requests).database.lookup filesKey).isSome := by
  induction requests using List.reverseRecOn with
  | nil => rfl
  | append_singleton requests r ih =>
      rw [handleAll_concat]
      cases effect_handle (handleAll .initial requests) r with
      | unchanged hdatabase => rwa [hdatabase]
      | created mof fi _ _ _ hdatabase =>
          rw [hdatabase, AList.lookup_insert_ne fileKey_ne_filesKey.symm, AList.lookup_insert]
          rfl
      | acked mof req fname fi _ _ _ hdatabase =>
          rwa [hdatabase, AList.lookup_insert_ne fileKey_ne_filesKey.symm]
      | registered mos si _ _ hdatabase =>
          rwa [hdatabase, AList.lookup_insert_ne filesKey_ne_storagesKey, storageKey,
            AList.lookup_insert_ne filesKey_ne_storageKey]

/-- The key of the metadata is found by a deletion and by no download. -/
theorem not_addressable_all (requests : List Request) :
    ¬Addressable (fun _ => True) (AcceptedBy requests) (handleAll .initial requests) := by
  intro h
  have hcarries : Carries (carrying filesKey) filesKey := carries_carrying (by decide)
  have hagree := h.agree filesKey _ hcarries
  rw [notFound_cmDownReq_iff hcarries, notFound_cmDelReq_iff hcarries, not_not, and_true,
    ← Ne, Option.ne_none_iff_isSome] at hagree
  obtain ⟨tmpName, i, -, heq⟩ :=
    (stored_handleAll requests).1 filesKey (hagree.mpr (files_isSome_handleAll requests))
  exact suffixed_ne_files tmpName i heq

theorem length_lt_of_accepted (hdelivered : ∀ r ∈ requests, Delivered r.packet)
    (h : AcceptedBy requests fname) : fname.length < 2 ^ 32 := by
  obtain ⟨before, r, after, rfl, ⟨req, hread⟩, -⟩ := h
  have hlength : r.packet.front.length = r.packet.sizeGet.toNat :=
    hdelivered r (List.mem_append_right _ List.mem_cons_self)
  obtain ⟨req', -, hrest⟩ := Option.bind_eq_some_iff.mp hread
  obtain ⟨fname', hfname, heq⟩ := Option.bind_eq_some_iff.mp hrest
  cases heq
  have hlen := Window.length_of_read hfname
  have hfit := (Window.read_eq_some_iff.mp hfname).1
  have hlt := r.packet.sizeGet.toNat_lt
  omega

/-- The shortest name that is stored comes from a shorter one that was accepted and is not. -/
theorem exists_accepted_not_stored (h : AcceptedBy requests fname) :
    ∃ fname, AcceptedBy requests fname ∧ ¬Stored (handleAll .initial requests) fname := by
  obtain ⟨hnames, hstored⟩ := stored_handleAll requests
  obtain ⟨i, hi⟩ := hstored fname h
  generalize suffixed fname i = name at hi
  clear h i
  induction hlength : name.length using Nat.strong_induction_on generalizing name with
  | _ length ih =>
      obtain ⟨fname', i', haccepted, heq⟩ := hnames name hi
      by_cases hfname : Stored (handleAll .initial requests) fname'
      · refine ih fname'.length ?_ fname' hfname rfl
        rw [← hlength, heq, suffixed, List.length_append, List.length_append]
        have : (ascii ".__").length = 3 := rfl
        omega
      · exact ⟨fname', haccepted, hfname⟩

/-- **Names.** Over all keys a deletion and a download never agree, and over those of the files an
accepted name is always found only as long as none was accepted. -/
theorem addressable_handleAll_iff (hdelivered : ∀ r ∈ requests, Delivered r.packet) :
    ¬Addressable (fun _ => True) (AcceptedBy requests) (handleAll .initial requests) ∧
    (Addressable FileFamily (AcceptedBy requests) (handleAll .initial requests) ↔
      ∀ fname, ¬AcceptedBy requests fname) := by
  refine ⟨not_addressable_all requests, fun h fname haccepted => ?_, fun hnone => ?_⟩
  · obtain ⟨fname', haccepted', hnot⟩ := exists_accepted_not_stored haccepted
    have hcarries := carries_carrying (length_lt_of_accepted hdelivered haccepted')
    obtain ⟨hdown, -⟩ := h.finds fname' _ haccepted' hcarries
    exact hdown ((notFound_cmDownReq_iff hcarries).mpr hnot)
  · have hempty (name : Bytes) : ¬Stored (handleAll .initial requests) name := by
      intro hstored
      obtain ⟨fname, i, haccepted, -⟩ := (stored_handleAll requests).1 name hstored
      exact hnone fname haccepted
    refine ⟨fun fname r haccepted _ => absurd haccepted (hnone fname), fun name r hcarries => ?_⟩
    rw [notFound_cmDownReq_iff hcarries, notFound_cmDelReq_iff hcarries, not_not]
    refine iff_of_false (hempty name) ?_
    rintro ⟨hfound, key, rfl⟩
    exact hempty key (Option.isSome_iff_ne_none.mpr hfound)

def registerThenUpload (fuel : ℕ) : List Request :=
  [registration 4242 (UInt64.ofNat (2 ^ 64 - 1)), { uploadRequest 1 with fuel }]

theorem delivered_registerThenUpload (fuel : ℕ) :
    ∀ r ∈ registerThenUpload fuel, Delivered r.packet := by
  intro r hr
  obtain rfl | hr := List.mem_cons.mp hr
  · rfl
  · rw [List.mem_singleton.mp hr]
    rfl

theorem addressable_registerThenUpload :
    ¬Addressable (fun _ => True) (AcceptedBy (registerThenUpload 2))
      (handleAll .initial (registerThenUpload 2)) ∧
    (Addressable FileFamily (AcceptedBy (registerThenUpload 2))
      (handleAll .initial (registerThenUpload 2)) ↔
      ∀ fname, ¬AcceptedBy (registerThenUpload 2) fname) :=
  addressable_handleAll_iff (delivered_registerThenUpload 2)

def oneRegistered : World Record := handle .initial (registration 4242 (UInt64.ofNat (2 ^ 64 - 1)))

theorem prepared_oneRegistered : Prepared anyHost 5 oneRegistered [hugeStorage 0 4242] where
  table := rfl
  files := ⟨_, rfl⟩
  storages_eq := rfl
  distinct := List.pairwise_singleton _ _
  takeAll := fun part hpart st hst => (prepared_twoRegistered 5).takeAll part hpart st
    (List.mem_of_mem_take (i := 1) hst)
  valid := nofun
  cached := nofun

theorem exists_accepts_oneRegistered :
    ∃ fuel, Accepts oneRegistered { uploadRequest 1 with fuel } [120] := by
  obtain ⟨fuel, hcases⟩ := @cmUpReq_cases (uploadRequest 1) ⟨5, 1⟩ [120] oneRegistered
    [hugeStorage 0 4242] rfl rfl le_rfl prepared_oneRegistered
  have hrun : handle oneRegistered { uploadRequest 1 with fuel } =
      ((cmUpReq { uploadRequest 1 with fuel }).run exec oneRegistered).2 := rfl
  have hread : readUpReq (uploadRequest 1).packet = some (⟨5, 1⟩, [120]) := rfl
  refine ⟨fuel, ⟨⟨5, 1⟩, hread⟩, ?_⟩
  obtain ⟨hfew, -⟩ | ⟨-, -, hcreated⟩ := hcases fuel le_rfl _ hrun
  · exact absurd hfew (by decide)
  obtain ⟨name, fi, hfree, hfile, -⟩ := hcreated.mp ⟨0, rfl⟩
  cases names_handle oneRegistered { uploadRequest 1 with fuel } with
  | created req fname i hread huploads hstored => exact huploads
  | kept huploads hstored =>
      have hold := (hstored name).mp (by rw [Stored, hfile]; rfl)
      rw [Stored, hfree] at hold
      cases hold

/-- The one file is accepted under a name that a download then does not find. -/
theorem not_addressable_registerThenUpload : ∃ fuel, AcceptedBy (registerThenUpload fuel) [120] ∧
    NotFound (handleAll .initial (registerThenUpload fuel))
      ((cmDownReq (carrying [120])).run exec (handleAll .initial (registerThenUpload fuel))).2 := by
  obtain ⟨fuel, haccepts⟩ := exists_accepts_oneRegistered
  refine ⟨fuel, ⟨[_], _, [], rfl, haccepts⟩, ?_⟩
  rw [notFound_cmDownReq_iff (carries_carrying (by decide))]
  intro hstored
  obtain ⟨fname, i, -, heq⟩ := (stored_handleAll (registerThenUpload fuel)).1 [120] hstored
  have hlength := congrArg List.length heq
  rw [suffixed, List.length_append, List.length_append] at hlength
  have hdots : (ascii ".__").length = 3 := rfl
  have hone : [(120 : UInt8)].length = 1 := rfl
  omega

end Addressable

end Mp2p.Master
