import Mp2p.Proof.Answers
import Mp2p.Proof.Balance

/-!
# What the redundancy is compared with

An upload is refused when its redundancy is larger than the number of fields of its placement. The
fields are one for each storage that was given a part, so the number is that of the cached storages
or that of the parts, whichever is smaller.
-/

namespace Mp2p.Master

open Masks Network DB DB.Tools

/-! ### The number of fields -/

section Fields

variable {env : Env} {fileSize : FsizeType} {nbParts : PartnumType} {storages : List StorageItem}
  {current cursor : ℕ} {tmpValues : Placement} {places : List ℕ}

theorem length_of_places
    (h : Places env fileSize nbParts storages current cursor tmpValues places)
    (hdistinct : DistinctAddresses storages) :
    tmpValues.length = places.toFinset.card := by
  have hat (st : StorageItem) : st ∈ storagesAt storages places ↔
      ∃ place ∈ places, storages[place]? = some st := List.mem_filterMap
  have hentries : (tmpValues.map Prod.fst).toFinset = (storagesAt storages places).toFinset := by
    ext st
    rw [List.mem_toFinset, List.mem_toFinset, List.mem_map]
    constructor
    · rintro ⟨f, hf, rfl⟩
      exact h.tallies.mem f hf
    · intro hst
      obtain ⟨f, hf, hsame⟩ := h.tallies.covered st hst
      obtain ⟨p, -, hp⟩ := (hat f.1).mp (h.tallies.mem f hf)
      obtain ⟨q, -, hq⟩ := (hat st).mp hst
      obtain rfl := eq_of_sameAddress hdistinct hp hq hsame
      rw [hp, Option.some_inj] at hq
      exact ⟨f, hf, hq⟩
  have hnodup : (tmpValues.map Prod.fst).Nodup := by
    rw [List.Nodup, List.pairwise_map]
    refine h.tallies.distinct.imp ?_
    intro f g hdiffer heq
    rw [heq] at hdiffer
    exact hdiffer (.refl _)
  have himage : (storagesAt storages places).toFinset.image some =
      places.toFinset.image (storages[·]?) := by
    ext st
    simp only [Finset.mem_image, List.mem_toFinset, hat]
    constructor
    · rintro ⟨st, ⟨place, hplace, hst⟩, rfl⟩
      exact ⟨place, hplace, hst⟩
    · rintro ⟨place, hplace, rfl⟩
      have hst := List.getElem?_eq_getElem (h.lt hplace)
      exact ⟨_, ⟨place, hplace, hst⟩, hst.symm⟩
  have hinj : Set.InjOn (fun place : ℕ => storages[place]?) places.toFinset := by
    intro p hp q hq heq
    have hst := List.getElem?_eq_getElem (h.lt (List.mem_toFinset.mp hp))
    have hst' := List.getElem?_eq_getElem (h.lt (List.mem_toFinset.mp hq))
    dsimp only at heq
    rw [hst'] at heq
    exact eq_of_sameAddress hdistinct heq hst' (.refl _)
  calc tmpValues.length = (tmpValues.map Prod.fst).length := (List.length_map _).symm
    _ = (tmpValues.map Prod.fst).toFinset.card := (List.toFinset_card_of_nodup hnodup).symm
    _ = ((storagesAt storages places).toFinset.image some).card := by
        rw [hentries, Finset.card_image_of_injective _ (Option.some_injective _)]
    _ = places.toFinset.card := by rw [himage, Finset.card_image_of_injOn hinj]

theorem length_fields {fields : List StpField}
    (h : Places env fileSize nbParts storages current cursor tmpValues places)
    (hdistinct : DistinctAddresses storages) (hall : TakeAll env fileSize nbParts storages)
    (hn : 0 < storages.length) (hfields : placementFields env tmpValues = some fields) :
    fields.length = min storages.length nbParts.toNat := by
  have hlength := (placementFields_eq_some_iff.mp hfields).length_eq
  rw [← hlength, length_of_places h hdistinct, (h.turns hall hn).1, RoundRobin.card_turns hn]

theorem exists_rounds_of_takeAll {w : World Record} (hvalid : Statics.Valid w.statics)
    (hcached : w.statics.iteratorInitialized = true)
    (hparts : partsOfSize w.database fileSize = some nbParts) (hmax : nbParts.toNat + 1 < 2 ^ 32)
    (hdistinct : DistinctAddresses w.statics.storages)
    (hall : TakeAll env fileSize nbParts w.statics.storages) :
    ∃ rounds fields cursor, fields.length = min w.statics.storages.length nbParts.toNat ∧
      ∀ fuel, placeCached env fuel fileSize w = if fuel ≤ rounds then (.error .stuck, w)
        else (.ok fields, { w with statics := { w.statics with currentRoundRobin := cursor } }) := by
  obtain ⟨hn, hcurrent⟩ := hvalid hcached
  obtain ⟨hnone, -⟩ | ⟨-, places, cursor, rounds, hassign, hrounds⟩ :=
    @placePartsLog_cases env fileSize nbParts w.statics.storages w.statics.currentRoundRobin hn
      hcurrent
  · obtain heq | hnone := hnone
    · omega
    · obtain ⟨r, hr⟩ : ∃ r, roundRobin env fileSize nbParts w.statics.storages
          w.statics.currentRoundRobin = some r :=
        RoundRobin.exists_assign_of_forall hn fun part hpart position => hall.takesPart hpart
      rw [hr] at hnone
      cases hnone
  · have hplaces : Places env fileSize nbParts w.statics.storages w.statics.currentRoundRobin cursor
      _ places := ⟨hassign, rfl⟩
    obtain ⟨fields, hfields⟩ := exists_fields hplaces.resolved
    refine ⟨rounds, fields, cursor, length_fields hplaces hdistinct hall hn hfields, fun fuel => ?_⟩
    rw [placeCached, hparts]
    dsimp only
    rw [placeParts_eq _ _ _ _ _ _ _ _ [], hrounds]
    split_ifs with hfew
    · rfl
    · dsimp only [Except.map]
      rw [hfields]
      rfl

end Fields

/-! ### The check -/

def listInUse (w : World Record) (storages : List StorageItem) : List StorageItem :=
  if w.statics.iteratorInitialized then w.statics.storages else storages

/-- The storages of a database, each at an address of its own, resolvable and with room for every
part of a file, of which some may be cached. -/
structure Prepared (env : Env) (fileSize : FsizeType) (w : World Record)
    (storages : List StorageItem) :
    Prop where
  table : w.database.lookup storageSizesKey = some (.storageSizes Master.storageSizes)
  files : ∃ mof, w.database.lookup filesKey = some (.files mof)
  storages_eq : allStorages w.database = some storages
  distinct : DistinctAddresses storages
  takeAll : TakeAll env fileSize (Master.numberOfParts Master.storageSizes fileSize) storages
  valid : Statics.Valid w.statics
  cached : w.statics.iteratorInitialized = true → w.statics.storages.Sublist storages

section Check

variable {r : Request} {req : CM.UpReq} {fname : Bytes} {w : World Record}
  {storages : List StorageItem}

theorem Prepared.partsOfSize_eq {env : Env} {fileSize : FsizeType}
    (h : Prepared env fileSize w storages) : partsOfSize w.database fileSize =
      some (Master.numberOfParts Master.storageSizes fileSize) := by
  rw [partsOfSize, h.table]
  rfl

theorem Prepared.exists_fields {env : Env} {fileSize : FsizeType}
    (h : Prepared env fileSize w storages) :
    ∃ rounds fields w₁, fields.length = min (listInUse w storages).length
        (Master.numberOfParts Master.storageSizes fileSize).toNat ∧
      w₁.database = w.database ∧ w₁.sent = w.sent ∧
      ∀ fuel, rounds < fuel →
        (getStpfieldsForUpload env fuel fileSize).run exec w = (.ok fields, w₁) := by
  have hparts := h.partsOfSize_eq
  have hmax : (Master.numberOfParts Master.storageSizes fileSize).toNat + 1 < 2 ^ 32 := by
    have := (tableRow fileSize).lt_two_pow
    omega
  -- Over a cached list the placement ends; the two cases below only differ in where the list is from.
  have hcached : ∀ w₁ : World Record, w₁.database = w.database → w₁.sent = w.sent →
      Statics.Valid w₁.statics → w₁.statics.iteratorInitialized = true →
      w₁.statics.storages.Sublist storages →
      (∀ fuel, (getStpfieldsForUpload env fuel fileSize).run exec w =
        placeCached env fuel fileSize w₁) →
      ∃ rounds fields w₂, fields.length = min w₁.statics.storages.length
          (Master.numberOfParts Master.storageSizes fileSize).toNat ∧
        w₂.database = w.database ∧ w₂.sent = w.sent ∧
        ∀ fuel, rounds < fuel →
          (getStpfieldsForUpload env fuel fileSize).run exec w = (.ok fields, w₂) := by
    intro w₁ hdatabase hsent hvalid hinit hsub hrun
    obtain ⟨rounds, fields, cursor, hlength, hrounds⟩ := exists_rounds_of_takeAll hvalid hinit
      (by rwa [hdatabase]) hmax (h.distinct.sublist hsub) fun part hpart st hst =>
        h.takeAll part hpart st (hsub.subset hst)
    refine ⟨rounds, fields, { w₁ with statics := { w₁.statics with currentRoundRobin := cursor } },
      hlength, hdatabase, hsent, fun fuel hfuel => ?_⟩
    rw [hrun, hrounds, if_neg (Nat.not_le_of_lt hfuel)]
  by_cases hinit : w.statics.iteratorInitialized = true
  · have hlist : listInUse w storages = w.statics.storages := if_pos hinit
    rw [hlist]
    exact hcached w rfl rfl h.valid hinit (h.cached hinit) fun fuel =>
      run_of_cached hinit env fuel fileSize
  · have hlist : listInUse w storages = storages := if_neg hinit
    rw [hlist]
    have hstart := run_initRoundRobin env w
    rw [if_neg hinit, h.storages_eq] at hstart
    cases hstorages : storages with
    | nil =>
        rw [hstorages] at hstart
        refine ⟨0, [], World.reset w, (Nat.zero_min _).symm, rfl, rfl, fun fuel _ => ?_⟩
        rw [run_getStpfieldsForUpload, hstart]
    | cons st rest =>
        rw [← hstorages]
        refine hcached { w with statics := freshStatics env storages } rfl rfl
          (valid_freshStatics env (by rw [hstorages]; exact List.cons_ne_nil _ _)) rfl
          (List.Sublist.refl _) fun fuel => ?_
        rw [hstorages] at hstart ⊢
        rw [run_getStpfieldsForUpload, hstart]

def RedundancyError (w w' : World Record) : Prop :=
  w'.sent = w.sent ++ [ackPacket MC.fromto .redundancy]

/-- The file of the request is in the database, under a name that was free. -/
def FileCreated (req : CM.UpReq) (w w' : World Record) : Prop :=
  ∃ name fi, w.database.lookup (fileKey name) = none ∧
    w'.database.lookup (fileKey name) = some (.file fi) ∧
    fi.fileSize = req.fsize ∧ fi.redundancy = req.rdcy

/-- The request is refused for its redundancy exactly when that is above this number of storages, and
otherwise the file is created. -/
def CountsStorages (r : Request) (req : CM.UpReq) (w : World Record) (storages : ℕ) : Prop :=
  ∃ rounds, ∀ fuel, rounds ≤ fuel →
    (RedundancyError w ((cmUpReq { r with fuel }).run exec w).2 ↔ storages < req.rdcy.toNat) ∧
    (¬storages < req.rdcy.toNat →
      FileCreated req w ((cmUpReq { r with fuel }).run exec w).2)

theorem not_redundancyError_of_sent {w' : World Record} (h : w'.sent = w.sent) :
    ¬RedundancyError w w' := by
  intro herror
  rw [RedundancyError, h] at herror
  simp at herror

theorem not_fileCreated_of_database {w' : World Record} (h : w'.database = w.database) :
    ¬FileCreated req w w' := by
  rintro ⟨name, fi, hfree, hfile, -⟩
  rw [h, hfree] at hfile
  cases hfile

theorem run_afterPlacement {fields : List StpField} {mof : MetaOnFilesItem} {name : Bytes}
    (fi : FileItem) (hmany : ¬fields.length < fi.redundancy.toNat) (hne : fields ≠ [])
    (hfiles : w.database.lookup filesKey = some (.files mof))
    (hname : (searchName fi.name r.fuel 0).run exec w = (.ok name, w)) :
    (afterPlacement r fi fields).run exec w =
      (.ok .no, sending (World.created w mof { fi with name := name, id := mof.count })
        [upPiecesLocPacket mof.count fields]) := by
  rw [run_afterPlacement_of_created hmany hne (run_createNewFile hfiles hname)]

theorem run_afterPlacement_of_stuck {fields : List StpField} (fi : FileItem)
    (hmany : ¬fields.length < fi.redundancy.toNat)
    (hstuck : (searchName fi.name r.fuel 0).run exec w = (.error .stuck, w)) :
    (afterPlacement r fi fields).run exec w = (.error .stuck, w) := by
  rw [run_afterPlacement_of_many hmany, createNewFile, Program.run_bind, hstuck]

/-- How the request ends with enough fuel: it is refused, or a file is created, or the search for a
name goes on. -/
theorem cmUpReq_cases (hread : readUpReq r.packet = some (req, fname))
    (hfromto : r.packet.fromtoGet = CM.fromto) (hrdcy : 1 ≤ req.rdcy.toNat)
    (h : Prepared r.env req.fsize w storages) :
    ∃ rounds, ∀ fuel, rounds ≤ fuel → ∀ w', w' = ((cmUpReq { r with fuel }).run exec w).2 →
      (min (listInUse w storages).length
          (Master.numberOfParts Master.storageSizes req.fsize).toNat < req.rdcy.toNat ∧
        RedundancyError w w') ∨
      (req.rdcy.toNat ≤ min (listInUse w storages).length
          (Master.numberOfParts Master.storageSizes req.fsize).toNat ∧ ¬RedundancyError w w' ∧
        ((∃ i, Free w.database fname i) ↔ FileCreated req w w')) := by
  obtain ⟨rounds, fields, w₁, hlength, hdatabase, hsent, hrun⟩ := h.exists_fields
  obtain ⟨mof, hfiles⟩ := h.files
  rw [← hdatabase] at hfiles
  have hnonzero : Master.numberOfParts Master.storageSizes req.fsize ≠ 0 := by
    intro hzero
    have hpos := (tableRow req.fsize).pos
    rw [hzero] at hpos
    exact absurd hpos (Nat.lt_irrefl 0)
  have hcm (fuel : ℕ) (hfuel : rounds < fuel) : (cmUpReq { r with fuel }).run exec w =
      (afterPlacement { r with fuel } (newFile req fname) fields).run exec w₁ := by
    rw [run_cmUpReq]
    dsimp only
    rw [hread]
    dsimp only
    rw [h.partsOfSize_eq]
    dsimp only
    rw [if_neg hnonzero, hrun fuel hfuel]
  rw [← hlength]
  by_cases hmany : fields.length < req.rdcy.toNat
  · refine ⟨rounds + 1, fun fuel hfuel w' hw' => .inl ⟨hmany, ?_⟩⟩
    have hrefused : (afterPlacement { r with fuel } (newFile req fname) fields).run exec w₁ =
        (sendError r.packet .redundancy).run exec w₁ := run_afterPlacement_of_few hmany
    rw [hw', hcm fuel hfuel, hrefused, run_sendError_client hfromto, RedundancyError, sending, hsent]
  have hle := Nat.le_of_not_lt hmany
  obtain ⟨hnone, hstuck⟩ | ⟨i, hfree, hsearch⟩ := run_searchName fname w₁
  · refine ⟨rounds + 1, fun fuel hfuel w' hw' => .inr ?_⟩
    have hend := run_afterPlacement_of_stuck (r := { r with fuel }) (newFile req fname) hmany
      (hstuck fuel)
    rw [hcm fuel hfuel, hend] at hw'
    subst hw'
    refine ⟨hle, not_redundancyError_of_sent hsent, ?_⟩
    rw [← hdatabase]
    exact iff_of_false (not_exists.mpr hnone) (not_fileCreated_of_database hdatabase)
  · have hne : fields ≠ [] := by
      intro hnil
      rw [hnil, List.length_nil] at hle
      omega
    refine ⟨rounds + 1 + i.toNat + 1, fun fuel hfuel w' hw' => .inr ?_⟩
    have hname : (searchName (newFile req fname).name fuel 0).run exec w₁ =
        (.ok (suffixed fname i), w₁) := by
      have hrun := hsearch fuel
      rwa [if_neg (by omega)] at hrun
    have hend := run_afterPlacement (r := { r with fuel }) (newFile req fname) hmany hne hfiles
      hname
    rw [hcm fuel (by omega), hend] at hw'
    subst hw'
    refine ⟨hle, ?_, ?_⟩
    · rw [RedundancyError, sending, World.created]
      intro hsame
      change w₁.sent ++ _ = _ at hsame
      rw [hsent] at hsame
      have hpacket := List.append_cancel_left hsame
      rw [List.cons.injEq] at hpacket
      have hwhat : MC.upPiecesLocW = ackW := congrArg Packet.whatGet hpacket.1
      exact absurd hwhat (by decide)
    · rw [hdatabase] at hfree
      refine iff_of_true ⟨i, hfree⟩ ⟨suffixed fname i, _, hfree, AList.lookup_insert _, rfl, rfl⟩

theorem Prepared.length_listInUse_le {env : Env} {fileSize : FsizeType}
    (h : Prepared env fileSize w storages) :
    (listInUse w storages).length ≤ storages.length := by
  rw [listInUse]
  split_ifs with hinit
  · exact (h.cached hinit).length_le
  · exact le_rfl

/-- **What the check compares.** With the storages of a database prepared for a file, the redundancy
is compared with their number exactly when it is above it, or no larger than the number of storages
in use and the number of parts, with a suffix that makes the name a free one. -/
theorem countsStorages_iff (hread : readUpReq r.packet = some (req, fname))
    (hfromto : r.packet.fromtoGet = CM.fromto) (hrdcy : 1 ≤ req.rdcy.toNat)
    (h : Prepared r.env req.fsize w storages) :
    CountsStorages r req w storages.length ↔
      storages.length < req.rdcy.toNat ∨
        req.rdcy.toNat ≤ (listInUse w storages).length ∧
        req.rdcy.toNat ≤ (Master.numberOfParts Master.storageSizes req.fsize).toNat ∧
        ∃ i, Free w.database fname i := by
  obtain ⟨bound, hcases⟩ := cmUpReq_cases hread hfromto hrdcy h
  have hle := h.length_listInUse_le
  constructor
  · rintro ⟨rounds, hcounts⟩
    obtain ⟨herror, hcreated⟩ := hcounts (max rounds bound) (le_max_left _ _)
    obtain ⟨-, hrefused⟩ | ⟨hmin, -, hfree⟩ := hcases _ (le_max_right _ _) _ rfl
    · exact .inl (herror.mp hrefused)
    · by_cases hfew : storages.length < req.rdcy.toNat
      · exact .inl hfew
      · rw [le_min_iff] at hmin
        exact .inr ⟨hmin.1, hmin.2, hfree.mpr (hcreated hfew)⟩
  · intro hcondition
    refine ⟨bound, fun fuel hfuel => ?_⟩
    obtain ⟨hmin, hrefused⟩ | ⟨hmin, haccepted, hfree⟩ := hcases _ hfuel _ rfl
    · have hfew : storages.length < req.rdcy.toNat := by
        obtain hfew | ⟨huse, hparts, -⟩ := hcondition
        · exact hfew
        · exact absurd hmin (Nat.not_lt_of_le (le_min huse hparts))
      exact ⟨iff_of_true hrefused hfew, fun hmany => absurd hfew hmany⟩
    · have hmany : ¬storages.length < req.rdcy.toNat := by
        have huse := hmin.trans (min_le_left _ _)
        omega
      obtain hfew | ⟨-, -, hsuffix⟩ := hcondition
      · exact absurd hfew hmany
      · exact ⟨iff_of_false haccepted hmany, fun _ => hfree.mp hsuffix⟩

def twoHuge : List StorageItem := [hugeStorage 0 4242, hugeStorage 1 4243]

def twoRegistered : World Record :=
  ((World.initial.put (storageKey 0) (.storage (hugeStorage 0 4242))).put (storageKey 1)
    (.storage (hugeStorage 1 4243))).put storagesKey (.storages ⟨2, 0⟩)

theorem prepared_twoRegistered (fileSize : FsizeType) :
    Prepared anyHost fileSize twoRegistered twoHuge where
  table := rfl
  files := ⟨_, rfl⟩
  storages_eq := rfl
  distinct := distinctAddresses_twoStorages
  takeAll := undisturbed_twoStorages (w := twoStorages) rfl 0 fileSize _ rfl
  valid := nofun
  cached := nofun

def uploadRequest (rdcy : RdcyType) : Request :=
  ⟨received (Client.upReqPacket 5 rdcy [120]).header (Client.upReqPacket 5 rdcy [120]).payload,
    anyHost, 0⟩

theorem countsStorages_one :
    CountsStorages (uploadRequest 1) ⟨5, 1⟩ twoRegistered twoHuge.length ↔
      twoHuge.length < (1 : RdcyType).toNat ∨
        (1 : RdcyType).toNat ≤ (listInUse twoRegistered twoHuge).length ∧
        (1 : RdcyType).toNat ≤ (Master.numberOfParts Master.storageSizes 5).toNat ∧
        ∃ i, Free twoRegistered.database [120] i :=
  @countsStorages_iff (uploadRequest 1) ⟨5, 1⟩ [120] twoRegistered twoHuge rfl rfl le_rfl
    (prepared_twoRegistered 5)

/-- Two storages do not do for a file in one part. -/
theorem not_countsStorages_two : ¬CountsStorages (uploadRequest 2) ⟨5, 2⟩ twoRegistered 2 := by
  intro h
  obtain ⟨rounds, hcounts⟩ := h
  obtain ⟨bound, hcases⟩ := @cmUpReq_cases (uploadRequest 2) ⟨5, 2⟩ [120] twoRegistered twoHuge rfl
    rfl one_le_two (prepared_twoRegistered 5)
  obtain ⟨herror, -⟩ := hcounts (max rounds bound) (le_max_left _ _)
  obtain ⟨-, hrefused⟩ | ⟨hmin, -⟩ := hcases _ (le_max_right _ _) _ rfl
  · exact absurd (herror.mp hrefused) (Nat.lt_irrefl 2)
  · exact absurd (hmin.trans (min_le_right _ _)) (by decide)

end Check

end Mp2p.Master
