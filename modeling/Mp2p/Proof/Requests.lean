import Mp2p.Proof.Acknowledgements
import Mp2p.Proof.Fates
import Mp2p.Proof.Lengths

/-!
# How every request ends

For each kind of packet, when its handler faults and when it returns, whatever the fuel. Everything
that decides it is in the packet, the database and the static variables before the request.
-/

namespace Mp2p.Master

open Masks Network DB DB.Tools Fuel

/-! ### Kinds of packets -/

inductive Kind where
  | invalid
  | ignored
  | upReq
  | downReq
  | delReq
  | partAck
  | idReq
  deriving DecidableEq, Repr

def kindOf (packet : Packet) : Kind :=
  if packet.sizeGet < 1 then .invalid
  else if packet.whatGet = ackW then .ignored
  else if packet.fromtoGet = CM.fromto ∧ packet.whatGet = CM.upReqW then .upReq
  else if packet.fromtoGet = CM.fromto ∧ packet.whatGet = CM.downReqW then .downReq
  else if packet.fromtoGet = CM.fromto ∧ packet.whatGet = CM.delReqW then .delReq
  else if packet.fromtoGet = SM.fromto ∧ packet.whatGet = SM.partAckW then .partAck
  else if packet.fromtoGet = SM.fromto ∧ packet.whatGet = SM.idReqW then .idReq
  else .ignored

def handlerOf {V : Type} [Coding V] : Kind → Request → Handler V KeepAlive
  | .invalid, r => sendError r.packet .invalidPacket
  | .ignored, _ => pure .no
  | .upReq, r => cmUpReq r
  | .downReq, r => cmDownReq r
  | .delReq, r => cmDelReq r
  | .partAck, r => smPartAck r
  | .idReq, r => smIdReq r

theorem recvDispatcher_eq {V : Type} [Coding V] (r : Request) :
    recvDispatcher (V := V) r = handlerOf (kindOf r.packet) r := by
  have hpartAck : CM.downReqW = SM.partAckW := rfl
  have hidReq : CM.delReqW = SM.idReqW := rfl
  rw [recvDispatcher, kindOf]
  by_cases hsize : r.packet.sizeGet < 1
  · rw [if_pos hsize, if_pos hsize]
    rfl
  rw [if_neg hsize, if_neg hsize]
  by_cases hack : r.packet.whatGet = ackW
  · rw [if_pos hack, if_pos hack]
    rfl
  rw [if_neg hack, if_neg hack]
  by_cases hup : r.packet.fromtoGet = CM.fromto ∧ r.packet.whatGet = CM.upReqW
  · rw [if_pos hup, if_pos hup]
    rfl
  rw [if_neg hup, if_neg hup]
  by_cases hdown : r.packet.fromtoGet = CM.fromto ∧ r.packet.whatGet = CM.downReqW
  · rw [if_pos hdown, if_pos hdown]
    rfl
  rw [if_neg hdown, if_neg hdown]
  by_cases hdel : r.packet.fromtoGet = CM.fromto ∧ r.packet.whatGet = CM.delReqW
  · rw [if_pos hdel, if_pos hdel]
    rfl
  rw [if_neg hdel, if_neg hdel]
  rw [hpartAck] at hdown
  rw [hidReq] at hdel
  simp only [or_and_right, hdown, hdel, false_or]
  split_ifs
  · rfl
  · rfl
  · rfl

theorem fromtoInverse_isSome_iff {fromto : FromtoType} :
    (fromtoInverse fromto).isSome ↔ fromto ≤ 5 := by
  have heq (code : FromtoType) : fromto = code ↔ fromto.toNat = code.toNat := UInt8.toNat_inj.symm
  have hlast : (5 : FromtoType).toNat = 5 := rfl
  rw [fromtoInverse, UInt8.le_iff_toNat_le, hlast]
  simp only [heq, CM.fromto, MC.fromto, CS.fromto, SC.fromto, MS.fromto, SM.fromto]
  split_ifs
  all_goals simp at *
  all_goals omega

theorem fromto_of_kind {packet : Packet} {kind : Kind} (h : kindOf packet = kind)
    (hkind : kind = .upReq ∨ kind = .downReq ∨ kind = .delReq) :
    packet.fromtoGet = CM.fromto := by
  rw [kindOf] at h
  split_ifs at h with _ _ hup hdown hdel
  all_goals first
    | exact hup.1
    | exact hdown.1
    | exact hdel.1
    | (rw [← h] at hkind; simp at hkind)

theorem fromto_of_partAck {packet : Packet} (h : kindOf packet = .partAck) :
    packet.fromtoGet = SM.fromto := by
  rw [kindOf] at h
  split_ifs at h with _ _ _ _ _ hack
  exact hack.1

/-! ### How a handler ends -/

/-- What keeps a handler from a fault and what makes it return, whatever its fuel. -/
def Settled (w : World Record) (r : Request) (p : Request → Handler Record KeepAlive)
    (safe served : Prop) :
    Prop :=
  Fuel.Settled .stuck .fault (fun fuel => (p { r with fuel }).run exec w) safe served

theorem fault_ne_stuck : Halt.fault ≠ Halt.stuck := nofun

theorem exception_ne_fault : Halt.exception ≠ Halt.fault := nofun

section Settling

variable {w : World Record} {r : Request} {p : Request → Handler Record KeepAlive}
  {safe served : Prop}

theorem outcome_exception (hsafe : safe) (hserved : ¬served) :
    Outcome (α := KeepAlive) Halt.fault (.error .exception) safe served :=
  outcome_error exception_ne_fault hsafe hserved

/-- A handler that does not look at the fuel. -/
theorem ends_of_eq {result : Except Halt KeepAlive × World Record}
    (h : ∀ fuel, (p { r with fuel }).run exec w = result) :
    Fuel.Ends .stuck (fun fuel => (p { r with fuel }).run exec w) result := by
  have hrun : (fun fuel => (p { r with fuel }).run exec w) = fun _ => result := funext h
  rw [hrun]
  exact .const _

theorem settled_of_eq {result : Except Halt KeepAlive × World Record}
    (h : ∀ fuel, (p { r with fuel }).run exec w = result)
    (houtcome : Outcome .fault result.1 safe served) : Settled w r p safe served :=
  (ends_of_eq h).settled houtcome

end Settling

/-! ### Uploads -/

/-- An upload that is given no piece and still creates its file. -/
structure Pieceless (w : World Record) (req : CM.UpReq) (fname : Bytes) : Prop where
  storages : NoStorages w
  redundancy : req.rdcy = 0
  parts : ∃ nbParts, partsOfSize w.database req.fsize = some nbParts ∧ nbParts ≠ 0
  creatable : Creatable w fname

/-- When an upload is answered: with an error for want of storages, or with its pieces. -/
def UploadServed (env : Env) (w : World Record) (req : CM.UpReq) (fname : Bytes) : Prop :=
  ∃ nbParts, partsOfSize w.database req.fsize = some nbParts ∧
    (nbParts = 0 ∨ NoStorages w ∧ req.rdcy ≠ 0 ∨
      ∃ statics, staticsInUse env w = some statics ∧ Placeable env req.fsize nbParts statics ∧
        ((piecesGiven env req.fsize nbParts statics).length < req.rdcy.toNat ∨ Creatable w fname))

section Upload

variable {w : World Record} {r : Request} {req : CM.UpReq} {fname : Bytes}

theorem creatable_congr {w' : World Record} (h : w'.database = w.database) :
    Creatable w' fname ↔ Creatable w fname := by
  rw [Creatable, Creatable, h]

theorem afterPlacement_fate (hfromto : r.packet.fromtoGet = CM.fromto) (fields : List StpField)
    (w : World Record) :
    fields.length < req.rdcy.toNat ∧ (∃ w', Fuel.Ends .stuck (fun fuel =>
      (afterPlacement { r with fuel } (newFile req fname) fields).run exec w) (.ok .no, w')) ∨
    ¬fields.length < req.rdcy.toNat ∧ ¬Creatable w fname ∧
      (Fuel.Never .stuck (fun fuel =>
        (afterPlacement { r with fuel } (newFile req fname) fields).run exec w) ∨
      Fuel.Ends .stuck (fun fuel =>
        (afterPlacement { r with fuel } (newFile req fname) fields).run exec w)
        (.error .exception, w)) ∨
    ¬fields.length < req.rdcy.toNat ∧ Creatable w fname ∧ ∃ w', Fuel.Ends .stuck (fun fuel =>
        (afterPlacement { r with fuel } (newFile req fname) fields).run exec w)
        (if fields = [] then .error .fault else .ok .no, w') := by
  by_cases hfew : fields.length < req.rdcy.toNat
  · refine .inl ⟨hfew, sending w [ackPacket MC.fromto .redundancy], ?_⟩
    have hrun (fuel : ℕ) : (afterPlacement { r with fuel } (newFile req fname) fields).run exec w =
        (.ok .no, sending w [ackPacket MC.fromto .redundancy]) := by
      rw [run_afterPlacement_of_few hfew]
      exact run_sendError_client hfromto _ w
    exact ends_of_eq (p := fun r => afterPlacement r (newFile req fname) fields) hrun
  set answer : FileItem → World Record → ℕ → Except Halt KeepAlive × World Record := fun fi w _ =>
    (if fields = [] then .error .fault else .ok .no, sending w [upPiecesLocPacket fi.id fields])
  have hrun : (fun fuel => (afterPlacement { r with fuel } (newFile req fname) fields).run exec w) =
      Fuel.andThen (fun fuel => (createNewFile fuel (newFile req fname)).run exec w) answer := by
    funext fuel
    rw [run_afterPlacement_of_many hfew, Fuel.andThen]
    cases (createNewFile fuel (newFile req fname)).run exec w with
    | mk result w' =>
        cases result with
        | error e => rfl
        | ok fi => rfl
  rw [hrun]
  obtain ⟨hnot, hnever | hends⟩ | ⟨hcreatable, fi, w', hends⟩ :=
    createNewFile_fate (newFile req fname) w
  · exact .inr (.inl ⟨hfew, hnot, .inl hnever.andThen⟩)
  · exact .inr (.inl ⟨hfew, hnot, .inr hends.andThen_error⟩)
  · exact .inr (.inr ⟨hfew, hcreatable, _, hends.andThen (.const (answer fi w' 0))⟩)

theorem cmUpReq_eq_andThen (hread : readUpReq r.packet = some (req, fname)) {nbParts : PartnumType}
    (hparts : partsOfSize w.database req.fsize = some nbParts) (hzero : nbParts ≠ 0) :
    (fun fuel => (cmUpReq { r with fuel }).run exec w) =
      Fuel.andThen (fun fuel => (getStpfieldsForUpload r.env fuel req.fsize).run exec w)
        fun fields w fuel =>
          (afterPlacement { r with fuel } (newFile req fname) fields).run exec w := by
  funext fuel
  rw [run_cmUpReq]
  dsimp only
  rw [hread]
  dsimp only
  rw [hparts]
  dsimp only
  rw [if_neg hzero, Fuel.andThen]
  cases (getStpfieldsForUpload r.env fuel req.fsize).run exec w with
  | mk result w' =>
      cases result with
      | error e => rfl
      | ok fields => rfl

theorem uploadServed_iff {env : Env} {nbParts : PartnumType}
    (hparts : partsOfSize w.database req.fsize = some nbParts) (hzero : nbParts ≠ 0) :
    UploadServed env w req fname ↔ NoStorages w ∧ req.rdcy ≠ 0 ∨
      ∃ statics, staticsInUse env w = some statics ∧ Placeable env req.fsize nbParts statics ∧
        ((piecesGiven env req.fsize nbParts statics).length < req.rdcy.toNat ∨
          Creatable w fname) := by
  constructor
  · rintro ⟨nbParts', hsome, hrest⟩
    rw [hparts, Option.some_inj] at hsome
    rw [← hsome] at hrest
    exact hrest.resolve_left hzero
  · intro h
    exact ⟨nbParts, hparts, .inr h⟩

theorem settled_of_noStorages (hfromto : r.packet.fromtoGet = CM.fromto)
    (hread : readUpReq r.packet = some (req, fname)) {nbParts : PartnumType}
    (hparts : partsOfSize w.database req.fsize = some nbParts) (hzero : nbParts ≠ 0)
    (hnone : NoStorages w) (hstatics : staticsInUse r.env w = none)
    (hends : Fuel.Ends .stuck
      (fun fuel => (getStpfieldsForUpload r.env fuel req.fsize).run exec w) (.ok [], World.reset w)) :
    Settled w r cmUpReq (¬Pieceless w req fname) (UploadServed r.env w req fname) := by
  have hrun := cmUpReq_eq_andThen hread hparts hzero
  have hdatabase : Creatable (World.reset w) fname ↔ Creatable w fname := creatable_congr rfl
  have hrdcy : ¬([] : List StpField).length < req.rdcy.toNat ↔ req.rdcy = 0 := by
    rw [List.length_nil, Nat.pos_iff_ne_zero, not_not, ← UInt8.toNat_inj]
    rfl
  have hserved : UploadServed r.env w req fname ↔ req.rdcy ≠ 0 := by
    rw [uploadServed_iff hparts hzero, or_iff_left]
    · exact and_iff_right hnone
    · rintro ⟨statics, hsome, -⟩
      rw [hstatics] at hsome
      cases hsome
  obtain ⟨hfew, w', hafter⟩ | ⟨hmany, hnot, hafter⟩ | ⟨hmany, hcreatable, w', hafter⟩ :=
    @afterPlacement_fate r req fname hfromto [] (World.reset w)
  · have hne : req.rdcy ≠ 0 := fun heq => (hrdcy.mpr heq) hfew
    refine Ends.settled (by rw [hrun]; exact hends.andThen hafter) ?_
    exact outcome_ok KeepAlive.no (fun h => hne h.redundancy) (hserved.mpr hne)
  · have hzeroRdcy := hrdcy.mp hmany
    have hsafe : ¬Pieceless w req fname := fun h => hnot (hdatabase.mpr h.creatable)
    have hrefused : ¬UploadServed r.env w req fname := fun h => hserved.mp h hzeroRdcy
    rw [Settled, hrun]
    exact hends.settled_refused hafter exception_ne_fault hsafe hrefused
  · have hzeroRdcy := hrdcy.mp hmany
    have hpieceless : Pieceless w req fname :=
      ⟨hnone, hzeroRdcy, ⟨nbParts, hparts, hzero⟩, hdatabase.mp hcreatable⟩
    refine Ends.settled (by rw [hrun]; exact hends.andThen hafter) ?_
    exact outcome_fault (not_not_intro hpieceless) fun h => hserved.mp h hzeroRdcy

theorem settled_of_placed (hfromto : r.packet.fromtoGet = CM.fromto)
    (hread : readUpReq r.packet = some (req, fname)) {nbParts : PartnumType}
    (hparts : partsOfSize w.database req.fsize = some nbParts) (hzero : nbParts ≠ 0)
    (hsome : ¬NoStorages w) {statics : Statics} (hstatics : staticsInUse r.env w = some statics)
    (hplaceable : Placeable r.env req.fsize nbParts statics) {fields : List StpField}
    {w' : World Record}
    (hdatabase : w'.database = w.database)
    (hlength : fields.length = (piecesGiven r.env req.fsize nbParts statics).length)
    (hne : fields ≠ []) (hends : Fuel.Ends .stuck
      (fun fuel => (getStpfieldsForUpload r.env fuel req.fsize).run exec w) (.ok fields, w')) :
    Settled w r cmUpReq (¬Pieceless w req fname) (UploadServed r.env w req fname) := by
  have hrun := cmUpReq_eq_andThen hread hparts hzero
  have hsafe : ¬Pieceless w req fname := fun h => hsome h.storages
  have hserved : UploadServed r.env w req fname ↔
      fields.length < req.rdcy.toNat ∨ Creatable w fname := by
    rw [uploadServed_iff hparts hzero, or_iff_right fun h => hsome h.1, hlength]
    constructor
    · rintro ⟨statics', hsome', -, h⟩
      rw [hstatics, Option.some_inj] at hsome'
      rw [hsome']
      exact h
    · intro h
      exact ⟨statics, hstatics, hplaceable, h⟩
  obtain ⟨hfew, w₁, hafter⟩ | ⟨hmany, hnot, hafter⟩ | ⟨-, hcreatable, w₁, hafter⟩ :=
    @afterPlacement_fate r req fname hfromto fields w'
  · refine Ends.settled (by rw [hrun]; exact hends.andThen hafter) ?_
    exact outcome_ok KeepAlive.no hsafe (hserved.mpr (.inl hfew))
  · have hrefused : ¬UploadServed r.env w req fname := fun h =>
      (hserved.mp h).elim hmany fun h => hnot ((creatable_congr hdatabase).mpr h)
    rw [Settled, hrun]
    exact hends.settled_refused hafter exception_ne_fault hsafe hrefused
  · rw [if_neg hne] at hafter
    refine Ends.settled (by rw [hrun]; exact hends.andThen hafter) ?_
    have hcreates := (creatable_congr hdatabase).mp hcreatable
    exact outcome_ok KeepAlive.no hsafe (hserved.mpr (.inr hcreates))

/-- **Uploads.** An upload faults when it is given no piece and still creates its file, and nothing
but the two loops and the records they read keeps it from returning. -/
theorem settled_cmUpReq (hvalid : Statics.Valid w.statics)
    (hfromto : r.packet.fromtoGet = CM.fromto) (hread : readUpReq r.packet = some (req, fname)) :
    Settled w r cmUpReq (¬Pieceless w req fname) (UploadServed r.env w req fname) := by
  cases hparts : partsOfSize w.database req.fsize with
  | none =>
      have hrun (fuel : ℕ) : (cmUpReq { r with fuel }).run exec w = (.error .exception, w) := by
        rw [run_cmUpReq]
        dsimp only
        rw [hread]
        dsimp only
        rw [hparts]
      refine settled_of_eq hrun (outcome_exception (fun h => ?_) fun h => ?_)
      · obtain ⟨nbParts, hsome, -⟩ := h.parts
        rw [hparts] at hsome
        cases hsome
      · obtain ⟨nbParts, hsome, -⟩ := h
        rw [hparts] at hsome
        cases hsome
  | some nbParts =>
      by_cases hzero : nbParts = 0
      · have hrun (fuel : ℕ) : (cmUpReq { r with fuel }).run exec w =
            (.ok .no, sending w [ackPacket MC.fromto .missingStorage]) := by
          rw [run_cmUpReq]
          dsimp only
          rw [hread]
          dsimp only
          rw [hparts]
          dsimp only
          rw [if_pos hzero]
          exact run_sendError_client hfromto _ w
        refine settled_of_eq hrun (outcome_ok KeepAlive.no (fun h => ?_) ?_)
        swap
        · exact ⟨nbParts, hparts, .inl hzero⟩
        obtain ⟨nbParts', hsome, hne⟩ := h.parts
        rw [hparts, Option.some_inj] at hsome
        exact hne (hsome ▸ hzero)
      have hrun := cmUpReq_eq_andThen hread hparts hzero
      obtain ⟨hstatics, hsome, hends⟩ | ⟨hstatics, hnone, hends⟩ |
          ⟨hsome, statics, hstatics, ⟨hplaceable, hnever⟩ |
            ⟨hplaceable, fields, w', hdatabase, hlength, hne, hends⟩⟩ :=
        @getStpfieldsForUpload_fate r.env req.fsize nbParts w hvalid hparts
      · refine Ends.settled (by rw [hrun]; exact hends.andThen_error) ?_
        refine outcome_exception (fun h => hsome h.storages) fun h => ?_
        obtain ⟨hnone, -⟩ | ⟨statics, hin, -⟩ := (uploadServed_iff hparts hzero).mp h
        · exact hsome hnone
        · rw [hstatics] at hin
          cases hin
      · exact settled_of_noStorages hfromto hread hparts hzero hnone hstatics hends
      · have hsafe : ¬Pieceless w req fname := fun h => hsome h.storages
        refine Never.settled (by rw [hrun]; exact hnever.andThen) hsafe fun h => ?_
        obtain ⟨hnone, -⟩ | ⟨statics', hin, hplaceable', -⟩ := (uploadServed_iff hparts hzero).mp h
        · exact hsome hnone
        · rw [hstatics, Option.some_inj] at hin
          exact hplaceable (hin ▸ hplaceable')
      · exact settled_of_placed hfromto hread hparts hzero hsome hstatics hplaceable hdatabase
          hlength (hne hzero) hends

end Upload

/-! ### All kinds -/

theorem length_of_downloadFields {env : Env} {storages : List StorageItem} {parts : List PartItem}
    {fields : List StpField} (h : downloadFields env storages parts = some fields) :
    fields.length = parts.length := by
  unfold downloadFields at h
  induction parts generalizing fields with
  | nil =>
      cases h
      rfl
  | cons part rest ih =>
      rw [List.mapM_cons] at h
      obtain ⟨field, -, hrest⟩ := Option.bind_eq_some_iff.mp h
      obtain ⟨more, hmore, hfields⟩ := Option.bind_eq_some_iff.mp hrest
      cases hfields
      rw [List.length_cons, List.length_cons, ih hmore]

/-- Some storage that does not hold a part can be told to fetch it, or there is none. -/
def Replicates (w : World Record) (env : Env) (stid : StidType) : Prop :=
  ∃ storages, allStorages w.database = some storages ∧
    ∀ st, ((env.shuffle storages).find? fun st => st.id ∉ [stid]) = some st →
      (st.addrGet env).isSome

/-- What keeps the master inside a packet of this kind. -/
def SafeFor (w : World Record) (r : Request) : Kind → Prop
  | .invalid => r.packet.fromtoGet ≤ 5
  | .ignored => True
  | .upReq => 9 ≤ r.packet.sizeGet.toNat ∧
      ∀ req fname, readUpReq r.packet = some (req, fname) → ¬Pieceless w req fname
  | .downReq => ∀ fi storages, w.database.lookup (fileKey r.packet.front) = some (.file fi) →
      allStorages w.database = some storages → fi.parts ≠ []
  | .delReq => True
  | .partAck => ∀ mof, w.database.lookup filesKey = some (.files mof) →
      12 ≤ r.packet.sizeGet.toNat ∧ ∀ fid fname fi, readPartAckFid r.packet = some fid →
        mof.nameById.lookup fid = some fname →
          w.database.lookup (fileKey fname) = some (.file fi) → 16 ≤ r.packet.sizeGet.toNat
  | .idReq => ∀ mos, w.database.lookup storagesKey = some (.storages mos) →
      r.env.remoteAddress.isSome → 10 ≤ r.packet.sizeGet.toNat

/-- What makes the master return from a packet of this kind. -/
def ServedFor (w : World Record) (r : Request) : Kind → Prop
  | .invalid => r.packet.fromtoGet ≤ 5
  | .ignored => True
  | .upReq => ∃ req fname, readUpReq r.packet = some (req, fname) ∧ UploadServed r.env w req fname
  | .downReq => ∀ json, w.database.lookup (fileKey r.packet.front) = some json →
      ∃ fi storages, json = .file fi ∧ allStorages w.database = some storages ∧ fi.parts ≠ []
  | .delReq => ∀ json, w.database.lookup r.packet.front = some json →
      ∃ fi storages, json = .file fi ∧ allStorages w.database = some storages
  | .partAck => ∃ req mof fname fi, Acknowledges w r req mof fname fi ∧
      (fi.redundancy.toNat ≤ 1 ∨ Replicates w r.env req.stid)
  | .idReq => 10 ≤ r.packet.sizeGet.toNat ∧ r.env.remoteAddress.isSome ∧
      ∃ mos, w.database.lookup storagesKey = some (.storages mos)

section Kinds

variable {w : World Record} {r : Request}

theorem settled_invalid (w : World Record) (r : Request) :
    Settled w r (handlerOf .invalid) (SafeFor w r .invalid) (ServedFor w r .invalid) := by
  refine settled_of_eq (fun _ => run_sendError r.packet .invalidPacket w) ?_
  have hdirection := @fromtoInverse_isSome_iff r.packet.fromtoGet
  rw [SafeFor, ServedFor, ← hdirection]
  cases fromtoInverse r.packet.fromtoGet with
  | none => exact outcome_fault nofun nofun
  | some fromtoDst => exact outcome_ok KeepAlive.no rfl rfl

theorem settled_upReq (hvalid : Statics.Valid w.statics) (hdelivered : Delivered r.packet)
    (hkind : kindOf r.packet = .upReq) :
    Settled w r (handlerOf .upReq) (SafeFor w r .upReq) (ServedFor w r .upReq) := by
  have hlength := isSome_readUpReq hdelivered
  cases hread : readUpReq r.packet with
  | none =>
      have hrun (fuel : ℕ) : (cmUpReq { r with fuel }).run exec w = (.error .fault, w) := by
        rw [run_cmUpReq]
        dsimp only
        rw [hread]
      rw [hread] at hlength
      refine settled_of_eq hrun (outcome_fault (fun h => ?_) fun h => ?_)
      · exact absurd (hlength.mpr h.1) nofun
      · obtain ⟨req, fname, hsome, -⟩ := h
        rw [hread] at hsome
        cases hsome
  | some upload =>
      obtain ⟨req, fname⟩ := upload
      rw [hread] at hlength
      have hsettled := settled_cmUpReq hvalid (fromto_of_kind hkind (.inl rfl)) hread
      have hunique {req' : CM.UpReq} {fname' : Bytes}
          (h : readUpReq r.packet = some (req', fname')) : req' = req ∧ fname' = fname := by
        rw [hread, Option.some_inj, Prod.mk.injEq] at h
        exact ⟨h.1.symm, h.2.symm⟩
      have hsafe : SafeFor w r .upReq ↔ ¬Pieceless w req fname := by
        refine ⟨fun h => h.2 req fname hread, fun h => ⟨hlength.mp rfl, ?_⟩⟩
        intro req' fname' hread'
        obtain ⟨rfl, rfl⟩ := hunique hread'
        exact h
      have hserved : ServedFor w r .upReq ↔ UploadServed r.env w req fname := by
        refine ⟨fun h => ?_, fun h => ⟨req, fname, hread, h⟩⟩
        obtain ⟨req', fname', hread', h⟩ := h
        obtain ⟨rfl, rfl⟩ := hunique hread'
        exact h
      rw [hsafe, hserved]
      exact hsettled

theorem settled_downReq (hdelivered : Delivered r.packet) (hkind : kindOf r.packet = .downReq) :
    Settled w r (handlerOf .downReq) (SafeFor w r .downReq) (ServedFor w r .downReq) := by
  refine settled_of_eq (fun _ => run_cmDownReq r w) ?_
  rw [readFname_eq hdelivered, SafeFor, ServedFor]
  simp only [run_sendError_client (fromto_of_kind hkind (.inr (.inl rfl)))]
  cases w.database.lookup (fileKey r.packet.front) with
  | none => exact outcome_ok KeepAlive.no nofun nofun
  | some json =>
      dsimp only
      cases hjson : Coding.file? json with
      | none =>
          refine outcome_exception (fun fi _ h => ?_) fun h => ?_
          · rw [Option.some_inj.mp h] at hjson
            cases hjson
          · obtain ⟨fi, _, rfl, -⟩ := h json rfl
            cases hjson
      | some fi =>
          obtain rfl := Record.file?_eq_some.mp hjson
          dsimp only
          cases allStorages w.database with
          | none =>
              refine outcome_exception nofun fun h => ?_
              obtain ⟨_, _, -, hsome, -⟩ := h _ rfl
              cases hsome
          | some storages =>
              dsimp only
              have hfields := @length_of_downloadFields r.env storages fi.parts
              by_cases hparts : fi.parts = []
              · have hnone : downloadFields r.env storages fi.parts = some [] := by
                  rw [hparts]
                  rfl
                rw [hnone]
                refine outcome_fault (fun h => h fi storages rfl rfl hparts) fun h => ?_
                obtain ⟨fi', _, heq, -, hne⟩ := h _ rfl
                rw [← Record.file.inj heq] at hne
                exact hne hparts
              · have hsafe : ∀ fi' storages', some (Record.file fi) = some (.file fi') →
                    some storages = some storages' → fi'.parts ≠ [] := by
                  intro fi' storages' heq _
                  rwa [← Record.file.inj (Option.some_inj.mp heq)]
                have hserved : ∀ json, some (Record.file fi) = some json → ∃ fi' storages',
                    json = .file fi' ∧ some storages = some storages' ∧ fi'.parts ≠ [] :=
                  fun json h => ⟨fi, storages, (Option.some_inj.mp h).symm, rfl, hparts⟩
                cases hdownload : downloadFields r.env storages fi.parts with
                | none => exact outcome_ok KeepAlive.no hsafe hserved
                | some fields =>
                    have hne : fields ≠ [] := by
                      intro hempty
                      have hlength := hfields hdownload
                      rw [hempty] at hlength
                      exact hparts (List.eq_nil_of_length_eq_zero hlength.symm)
                    dsimp only
                    rw [if_neg hne]
                    exact outcome_ok KeepAlive.no hsafe hserved

theorem settled_delReq (hdelivered : Delivered r.packet) (hkind : kindOf r.packet = .delReq) :
    Settled w r (handlerOf .delReq) (SafeFor w r .delReq) (ServedFor w r .delReq) := by
  refine settled_of_eq (fun _ => run_cmDelReq r w) ?_
  rw [readFname_eq hdelivered, SafeFor, ServedFor]
  simp only [run_deleteParts, run_sendError_client (fromto_of_kind hkind (.inr (.inr rfl)))]
  cases w.database.lookup r.packet.front with
  | none => exact outcome_ok KeepAlive.no trivial nofun
  | some json =>
      dsimp only
      cases hjson : Coding.file? json with
      | none =>
          refine outcome_exception trivial fun h => ?_
          obtain ⟨fi, _, rfl, -⟩ := h json rfl
          cases hjson
      | some fi =>
          dsimp only
          cases allStorages w.database with
          | none =>
              refine outcome_exception trivial fun h => ?_
              obtain ⟨_, _, -, hsome⟩ := h _ rfl
              cases hsome
          | some storages =>
              have hserved : ∀ json', some json = some json' → ∃ fi storages',
                  json' = .file fi ∧ some storages = some storages' := fun json' h =>
                ⟨fi, storages, by rw [← Option.some_inj.mp h, Record.file?_eq_some.mp hjson], rfl⟩
              dsimp only
              split_ifs
              · exact outcome_ok KeepAlive.no trivial hserved
              · exact outcome_ok KeepAlive.no trivial hserved

theorem getElem?_ackParts (req : SM.PartAck) (parts : List PartItem) :
    (ackParts req parts).1[(ackParts req parts).2]? = some (ackItem req) := by
  have hlast : (ackParts req parts).2 = (parts.map (addAck req)).length := by
    rw [ackParts, searchPart_eq]
    simp
  rw [ackParts_fst, hlast, List.getElem?_concat_length]

theorem allStorages_congr {db db' : Database Record}
    (hstorages : db'.lookup storagesKey = db.lookup storagesKey)
    (hstorage : ∀ id, db'.lookup (storageKey id) = db.lookup (storageKey id)) :
    allStorages db' = allStorages db := by
  have hread (ids : List StidType) : readStorages db' ids = readStorages db ids := by
    rw [readStorages, readStorages]
    congr 1
    funext id
    rw [hstorage]
  rw [allStorages, allStorages, hstorages]
  congr 1
  funext mos
  exact hread _

theorem allStorages_put (name : Bytes) (record : Record) :
    allStorages (w.put (fileKey name) record).database = allStorages w.database :=
  allStorages_congr (AList.lookup_insert_ne fileKey_ne_storagesKey.symm)
    fun _ => AList.lookup_insert_ne fileKey_ne_storageKey.symm

/-- An acknowledgement that is recorded is answered, or another storage is told to fetch the part. -/
theorem outcome_afterAck (hfromto : r.packet.fromtoGet = SM.fromto) (req : SM.PartAck)
    (fi : FileItem) (w : World Record) :
    Outcome .fault ((afterAck r req fi (ackItem req)).run exec w).1 True
      (fi.redundancy.toNat ≤ 1 ∨ Replicates w r.env req.stid) := by
  rw [run_afterAck]
  by_cases henough : (ackItem req).locations.length ≥ fi.redundancy.toNat
  · rw [if_pos henough, run_sendAck, hfromto]
    exact outcome_ok KeepAlive.no trivial (.inl henough)
  rw [if_neg henough, run_replicate]
  have hredundancy : ¬fi.redundancy.toNat ≤ 1 := henough
  rw [or_iff_right hredundancy, Replicates]
  cases allStorages w.database with
  | none =>
      refine outcome_exception trivial fun h => ?_
      obtain ⟨_, hsome, -⟩ := h
      cases hsome
  | some storages =>
      dsimp only
      cases hfind : (r.env.shuffle storages).find? fun st => st.id ∉ (ackItem req).locations with
      | none =>
          refine outcome_ok KeepAlive.no trivial ⟨storages, rfl, fun st hst => ?_⟩
          rw [show ((r.env.shuffle storages).find? fun st => st.id ∉ [req.stid]) = none from hfind]
            at hst
          cases hst
      | some st =>
          dsimp only
          cases haddr : st.addrGet r.env with
          | none =>
              refine outcome_exception trivial fun h => ?_
              obtain ⟨_, hsome, hall⟩ := h
              rw [← Option.some_inj.mp hsome] at hall
              have hresolved := hall st hfind
              rw [haddr] at hresolved
              cases hresolved
          | some addr =>
              refine outcome_ok KeepAlive.no trivial ⟨storages, rfl, fun st' hst' => ?_⟩
              rw [show ((r.env.shuffle storages).find? fun st => st.id ∉ [req.stid]) = some st
                from hfind, Option.some_inj] at hst'
              rw [← hst', haddr]
              rfl

/-- How long an acknowledgement must be, by what is read of it. -/
theorem safeFor_partAck_iff (hdelivered : Delivered r.packet) : SafeFor w r .partAck ↔
    ∀ mof, (w.database.lookup filesKey).bind Coding.files? = some mof →
      (readPartAckFid r.packet).isSome ∧ ∀ fid, readPartAckFid r.packet = some fid →
        ∀ fname, mof.nameById.lookup fid = some fname →
          ∀ fi, (w.database.lookup (fileKey fname)).bind Coding.file? = some fi →
            (readPartAck r.packet).isSome := by
  simp only [SafeFor, Record.bind_files?_eq_some, Record.bind_file?_eq_some,
    isSome_readPartAckFid hdelivered, isSome_readPartAck hdelivered]
  refine forall₂_congr fun mof _ => and_congr_right fun _ => ?_
  exact ⟨fun h fid hfid fname hname fi hfile => h fid fname fi hfid hname hfile,
    fun h fid fname fi hfid hname hfile => h fid hfid fname hname fi hfile⟩

theorem servedFor_partAck_iff : ServedFor w r .partAck ↔
    ∃ mof, (w.database.lookup filesKey).bind Coding.files? = some mof ∧
      ∃ fid, readPartAckFid r.packet = some fid ∧ ∃ fname, mof.nameById.lookup fid = some fname ∧
        ∃ fi, (w.database.lookup (fileKey fname)).bind Coding.file? = some fi ∧
          ∃ req, readPartAck r.packet = some req ∧
            (fi.redundancy.toNat ≤ 1 ∨ Replicates w r.env req.stid) := by
  simp only [ServedFor, Record.bind_files?_eq_some, Record.bind_file?_eq_some]
  constructor
  · rintro ⟨req, mof, fname, fi, hack, hserved⟩
    exact ⟨mof, hack.files, req.partid.fid, fid_of_readPartAck hack.request, fname, hack.name, fi,
      hack.file, req, hack.request, hserved⟩
  · rintro ⟨mof, hfiles, fid, hfid, fname, hname, fi, hfile, req, hreq, hserved⟩
    rw [fid_of_readPartAck hreq, Option.some_inj] at hfid
    subst hfid
    exact ⟨req, mof, fname, fi, ⟨hreq, hfiles, hname, hfile⟩, hserved⟩

theorem settled_partAck (hdelivered : Delivered r.packet) (hkind : kindOf r.packet = .partAck) :
    Settled w r (handlerOf .partAck) (SafeFor w r .partAck) (ServedFor w r .partAck) := by
  refine settled_of_eq (fun _ => run_smPartAck r w) ?_
  rw [safeFor_partAck_iff hdelivered, servedFor_partAck_iff]
  obtain hfiles | ⟨mof, hfiles⟩ :=
    Option.eq_none_or_eq_some ((w.database.lookup filesKey).bind Coding.files?)
  · simp only [hfiles]
    exact outcome_exception (by simp) (by simp)
  obtain hfid | ⟨fid, hfid⟩ := Option.eq_none_or_eq_some (readPartAckFid r.packet)
  · simp only [hfiles, hfid]
    exact outcome_fault (by simp) (by simp)
  obtain hname | ⟨fname, hname⟩ := Option.eq_none_or_eq_some (mof.nameById.lookup fid)
  · simp only [hfiles, hfid, hname]
    exact outcome_exception (by simp [hname]) (by simp [hname])
  obtain hfile | ⟨fi, hfile⟩ :=
    Option.eq_none_or_eq_some ((w.database.lookup (fileKey fname)).bind Coding.file?)
  · simp only [hfiles, hfid, hname, hfile]
    exact outcome_exception (by simp [hname, hfile]) (by simp [hname, hfile])
  obtain hreq | ⟨req, hreq⟩ := Option.eq_none_or_eq_some (readPartAck r.packet)
  · simp only [hfiles, hfid, hname, hfile, hreq]
    exact outcome_fault (by simp [hname, hfile]) (by simp)
  simp only [hfiles, hfid, hname, hfile, hreq, getElem?_ackParts]
  have houtcome := outcome_afterAck (fromto_of_partAck hkind) req fi
    (w.put (fileKey fname) (.file { fi with parts := (ackParts req fi.parts).1 }))
  rw [Replicates, allStorages_put, ← Replicates] at houtcome
  refine ⟨houtcome.ne_iff.trans (by simp), houtcome.ok_iff.trans ?_⟩
  simp [hname, hfile]

theorem settled_idReq (hdelivered : Delivered r.packet) :
    Settled w r (handlerOf .idReq) (SafeFor w r .idReq) (ServedFor w r .idReq) := by
  refine settled_of_eq (fun _ => run_smIdReq r w) ?_
  have hlength := isSome_readIdReq hdelivered
  rw [SafeFor, ServedFor]
  cases hstorages : (w.database.lookup storagesKey).bind Coding.storages? with
  | none =>
      have hnone {mos : MetaOnStoragesItem}
          (h : w.database.lookup storagesKey = some (.storages mos)) : False := by
        rw [h] at hstorages
        cases hstorages
      exact outcome_exception (fun mos h => (hnone h).elim) fun h => h.2.2.elim fun mos h => hnone h
  | some mos =>
      have hlookup := Record.bind_storages?_eq_some.mp hstorages
      dsimp only
      cases r.env.remoteAddress with
      | none => exact outcome_exception nofun fun h => absurd h.2.1 nofun
      | some hostAddr =>
          dsimp only
          rw [← hlength]
          cases readIdReq r.packet with
          | none =>
              refine outcome_fault (fun h => ?_) fun h => Bool.noConfusion h.1
              exact Bool.noConfusion (h mos hlookup rfl)
          | some req => exact outcome_ok KeepAlive.no (fun _ _ _ => rfl) ⟨rfl, rfl, mos, hlookup⟩

/-- **Requests.** For every packet that was delivered, what keeps the master inside it and what
makes it return. -/
theorem settled_recvDispatcher (hvalid : Statics.Valid w.statics)
    (hdelivered : Delivered r.packet) :
    Settled w r recvDispatcher (SafeFor w r (kindOf r.packet))
      (ServedFor w r (kindOf r.packet)) := by
  have hhandler (fuel : ℕ) : recvDispatcher { r with fuel } =
      handlerOf (kindOf r.packet) { r with fuel } := recvDispatcher_eq { r with fuel }
  have h : Settled w r (handlerOf (kindOf r.packet)) (SafeFor w r (kindOf r.packet))
      (ServedFor w r (kindOf r.packet)) := by
    cases hkind : kindOf r.packet with
    | invalid => exact settled_invalid w r
    | ignored => exact settled_of_eq (fun _ => rfl) (outcome_ok KeepAlive.no trivial trivial)
    | upReq => exact settled_upReq hvalid hdelivered hkind
    | downReq => exact settled_downReq hdelivered hkind
    | delReq => exact settled_delReq hdelivered hkind
    | partAck => exact settled_partAck hdelivered hkind
    | idReq => exact settled_idReq hdelivered
  unfold Settled
  simp only [hhandler]
  exact h

end Kinds

end Mp2p.Master
