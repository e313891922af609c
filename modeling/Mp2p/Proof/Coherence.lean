import Mp2p.Proof.Names
import Mp2p.Proof.Statics

/-!
# The cached storages and the database

A placement goes over a copy of the storage records. `get_all_storages` has the copy made again, a
registration does not: the copy is that of the database in every run in which nobody registers while
it is in use, and in no other.
-/

namespace Mp2p.Master

open Masks Network DB DB.Tools

/-- The cached storages are those of the database. -/
def Coherent (w : World Record) : Prop := allStorages w.database = some w.statics.storages

/-- The handler of a request gets to the distribution of the parts of a file, in the world `w'`. -/
structure Distributes (r : Request) (w w' : World Record) : Prop where
  kind : kindOf r.packet = .upReq
  request : ∃ req fname nbParts, readUpReq r.packet = some (req, fname) ∧
    partsOfSize w.database req.fsize = some nbParts ∧ nbParts ≠ 0
  ready : (initRoundRobin r.env).run exec w = (.ok true, w')

structure Registers (r : Request) : Prop where
  kind : kindOf r.packet = .idReq
  address : r.env.remoteAddress.isSome
  request : (readIdReq r.packet).isSome

section Cache

variable {r : Request} {w w' : World Record}

/-- From there the handler goes over the cached storages. -/
theorem run_of_distributes (h : Distributes r w w') :
    ∃ req fname, readUpReq r.packet = some (req, fname) ∧
      (recvDispatcher r).run exec w = match placeCached r.env r.fuel req.fsize w' with
        | (.error e, w₁) => (.error e, w₁)
        | (.ok fields, w₁) => (afterPlacement r (newFile req fname) fields).run exec w₁ := by
  obtain ⟨req, fname, nbParts, hread, hparts, hne⟩ := h.request
  have hplacing : (getStpfieldsForUpload r.env r.fuel req.fsize).run exec w =
      placeCached r.env r.fuel req.fsize w' := by
    rw [run_getStpfieldsForUpload, h.ready]
  refine ⟨req, fname, hread, ?_⟩
  rewrite [recvDispatcher_eq, h.kind, handlerOf, run_cmUpReq, hread]
  dsimp only
  rewrite [hparts]
  dsimp only
  rewrite [if_neg hne, hplacing]
  cases placeCached r.env r.fuel req.fsize w' with
  | mk result w₁ =>
      cases result with
      | error e => rfl
      | ok fields => rfl

/-! ### One request -/

theorem allStorages_cmUpReq (r : Request) (w : World Record) :
    allStorages ((cmUpReq r).run exec w).2.database = allStorages w.database := by
  rw [run_cmUpReq]
  cases readUpReq r.packet with
  | none => rfl
  | some upload =>
      obtain ⟨req, fname⟩ := upload
      dsimp only
      cases partsOfSize w.database req.fsize with
      | none => rfl
      | some nbParts =>
          dsimp only
          by_cases hzero : nbParts = 0
          · rw [if_pos hzero]
            exact allStorages_of_all (resetting_sendError _ _)
          rw [if_neg hzero]
          have hview := Program.wp_of_all (fun _ hc w => view_exec hc w)
            (minor_getStpfieldsForUpload r.env r.fuel req.fsize) w
          cases hrun : (getStpfieldsForUpload r.env r.fuel req.fsize).run exec w with
          | mk result w' =>
              rw [Program.wp, hrun] at hview
              have hdatabase : w'.database = w.database := congrArg Prod.fst hview
              cases result with
              | error e => exact congrArg allStorages hdatabase
              | ok fields =>
                  calc allStorages ((afterPlacement r (newFile req fname) fields).run exec w').2.database
                      = allStorages w'.database := allStorages_of_all (resetting_afterPlacement _ _ _)
                    _ = allStorages w.database := congrArg allStorages hdatabase

/-- Only a registration changes what the database lists. -/
theorem allStorages_handle (hr : ¬Registers r) :
    allStorages (handle w r).database = allStorages w.database := by
  rw [handle, recvDispatcher_eq]
  by_cases hup : kindOf r.packet = .upReq
  · rw [hup]
    exact allStorages_cmUpReq r w
  by_cases hid : kindOf r.packet = .idReq
  · have hunread : r.env.remoteAddress = none ∨ readIdReq r.packet = none := by
      by_contra hboth
      push Not at hboth
      apply hr
      exact ⟨hid, Option.isSome_iff_ne_none.mpr hboth.1, Option.isSome_iff_ne_none.mpr hboth.2⟩
    rw [hid, handlerOf, run_smIdReq]
    cases (w.database.lookup storagesKey).bind Coding.storages? with
    | none => rfl
    | some mos =>
        dsimp only
        obtain haddress | hread := hunread
        · rw [haddress]
        · rw [hread]
          cases r.env.remoteAddress with
          | none => rfl
          | some hostAddr => rfl
  · exact allStorages_of_all (resetting_handlerOf hup hid r)

/-- A placement leaves the list it finds in use, or one it has just read. -/
theorem cached_getStpfieldsForUpload (env : Env) (fuel : ℕ) (fileSize : FsizeType)
    (hcached : ((getStpfieldsForUpload env fuel fileSize).run exec w).2.statics.iteratorInitialized =
      true) :
    (w.statics.iteratorInitialized = true ∧ w.statics.storages =
      ((getStpfieldsForUpload env fuel fileSize).run exec w).2.statics.storages) ∨
    allStorages w.database =
      some ((getStpfieldsForUpload env fuel fileSize).run exec w).2.statics.storages := by
  have hplace (w₁ : World Record) : (placeCached env fuel fileSize w₁).2.statics.storages =
      w₁.statics.storages := by
    rw [placeCached]
    cases partsOfSize w₁.database fileSize with
    | none => rfl
    | some nbParts =>
        dsimp only
        cases placeParts env fileSize nbParts w₁.statics.storages fuel 1
          w₁.statics.currentRoundRobin [] with
        | error e => rfl
        | ok placed => rfl
  rw [run_getStpfieldsForUpload] at hcached ⊢
  obtain ⟨hinit, hrun⟩ | ⟨hinit, ⟨hnone, hrun⟩ | ⟨hnil, hrun⟩ | ⟨storages, -, hstorages, hrun⟩⟩ :=
    initRoundRobin_cases env w
  · rw [hrun]
    exact .inl ⟨hinit, (hplace w).symm⟩
  · rw [hrun] at hcached
    rw [hinit] at hcached
    cases hcached
  · rw [hrun] at hcached
    cases hcached
  · rw [hrun, hstorages]
    dsimp only
    rw [hplace]
    exact .inr rfl

def CacheCoherent (w : World Record) : Prop := w.statics.iteratorInitialized = true → Coherent w

theorem cacheCoherent_of_resets (h : CacheCoherent w) (hresets : Resets w w')
    (hdatabase : allStorages w'.database = allStorages w.database) : CacheCoherent w' := by
  intro hinit
  obtain heq | hreset := hresets
  · rw [heq] at hinit
    rw [Coherent, hdatabase, heq]
    exact h hinit
  · rw [hreset] at hinit
    cases hinit

theorem cacheCoherent_getStpfieldsForUpload (h : CacheCoherent w) (env : Env) (fuel : ℕ)
    (fileSize : FsizeType) :
    CacheCoherent ((getStpfieldsForUpload env fuel fileSize).run exec w).2 := by
  intro hinit
  have hview := Program.wp_of_all (fun _ hc w => view_exec hc w)
    (minor_getStpfieldsForUpload env fuel fileSize) w
  have hdatabase : ((getStpfieldsForUpload env fuel fileSize).run exec w).2.database = w.database :=
    congrArg Prod.fst hview
  rw [Coherent, hdatabase]
  obtain ⟨hused, hlist⟩ | hread := cached_getStpfieldsForUpload env fuel fileSize hinit
  · rw [← hlist]
    exact h hused
  · exact hread

theorem cacheCoherent_handle (h : CacheCoherent w)
    (hr : Registers r → w.statics.iteratorInitialized = false) : CacheCoherent (handle w r) := by
  by_cases hregisters : Registers r
  · rw [handle, recvDispatcher_eq, hregisters.kind, handlerOf]
    apply cacheCoherent_of_resets (w := { ((smIdReq r).run exec w).2 with statics := w.statics })
    · intro hinit
      rw [hr hregisters] at hinit
      cases hinit
    · exact .inl (statics_smIdReq r w)
    · rfl
  have hdatabase := @allStorages_handle r w hregisters
  by_cases hup : kindOf r.packet = .upReq
  · rw [handle, recvDispatcher_eq, hup, handlerOf] at hdatabase ⊢
    obtain hresets | ⟨fileSize, hresets⟩ := @resets_cmUpReq w r
    · exact cacheCoherent_of_resets h hresets hdatabase
    · apply cacheCoherent_of_resets (cacheCoherent_getStpfieldsForUpload h _ _ _) hresets
      have hview := Program.wp_of_all (fun _ hc w => view_exec hc w)
        (minor_getStpfieldsForUpload r.env r.fuel fileSize) w
      rw [hdatabase]
      exact congrArg allStorages (congrArg Prod.fst hview).symm
  · exact cacheCoherent_of_resets h (resets_handle hup) hdatabase

theorem length_of_readStorages {db : Database Record} {ids : List StidType}
    {storages : List StorageItem}
    (h : readStorages db ids = some storages) : storages.length = ids.length := by
  induction ids generalizing storages with
  | nil =>
      cases h
      rfl
  | cons id rest ih =>
      rw [readStorages, List.mapM_cons] at h
      simp only [Option.bind_eq_bind, Option.bind_eq_some_iff, Option.pure_def,
        Option.some_inj] at h
      obtain ⟨st, -, sts, hrest, rfl⟩ := h
      rw [List.length_cons, List.length_cons, ih hrest]

theorem length_of_allStorages {db : Database Record} {storages : List StorageItem}
    (h : allStorages db = some storages) :
    ∃ mos, (db.lookup storagesKey).bind Coding.storages? = some mos ∧
      storages.length = mos.count.toNat := by
  obtain ⟨mos, hmos, hread⟩ := Option.bind_eq_some_iff.mp h
  use mos, hmos
  rw [length_of_readStorages hread, List.length_map, List.length_range]

theorem lookup_put_storages (w : World Record) (mos : MetaOnStoragesItem) :
    ((w.put storagesKey (.storages mos)).database.lookup storagesKey).bind Coding.storages? =
      some mos := by
  rw [World.put, AList.lookup_insert]
  rfl

/-- A registration that is not followed by a new copy makes the database list another storage. -/
theorem not_coherent_of_registers (h : Coherent w) (hr : Registers r) : ¬Coherent (handle w r) := by
  intro hafter
  obtain ⟨hostAddr, haddress⟩ := Option.isSome_iff_exists.mp hr.address
  obtain ⟨req, hread⟩ := Option.isSome_iff_exists.mp hr.request
  obtain ⟨mos, hmos, hlength⟩ := length_of_allStorages h
  have hrun := run_smIdReq r w
  rw [hmos, haddress, hread] at hrun
  rw [Coherent, handle, recvDispatcher_eq, hr.kind, handlerOf, statics_smIdReq, hrun] at hafter
  obtain ⟨mos', hmos', hlength'⟩ := length_of_allStorages hafter
  have hcount : mos'.count = mos.count + 1 := by
    have hput := hmos'.symm.trans (lookup_put_storages _ _)
    rw [Option.some_inj] at hput
    rw [hput]
  have hlt := mos.count.toNat_lt
  have hone : (1 : StidType).toNat = 1 := rfl
  rw [hcount, hlength, UInt32.toNat_add, hone] at hlength'
  omega

/-! ### Runs -/

theorem storageSizesKey_ne_storagesKey : storageSizesKey ≠ storagesKey := by decide

theorem storageSizesKey_ne_storageKey (id : StidType) : storageSizesKey ≠ storageKey id :=
  ne_of_getElem? 2 (by change some 111 ≠ some 46; decide)

theorem lookup_storageSizes_of_effect (h : Effect w w') :
    w'.database.lookup storageSizesKey = w.database.lookup storageSizesKey := by
  cases h with
  | unchanged hdatabase => rw [hdatabase]
  | created mof fi hfiles hfree hid hdatabase =>
      rw [hdatabase, AList.lookup_insert_ne fileKey_ne_storageSizesKey.symm,
        AList.lookup_insert_ne (by decide)]
  | acked mof req fname fi hfiles hname hfile hdatabase =>
      rw [hdatabase, AList.lookup_insert_ne fileKey_ne_storageSizesKey.symm]
  | registered mos si hstorages hid hdatabase =>
      rw [hdatabase, AList.lookup_insert_ne storageSizesKey_ne_storagesKey,
        AList.lookup_insert_ne (storageSizesKey_ne_storageKey _)]

theorem lookup_storageSizes_handleAll (requests : List Request) :
    (handleAll .initial requests).database.lookup storageSizesKey =
      some (.storageSizes Master.storageSizes) := by
  induction requests using List.reverseRecOn with
  | nil => rfl
  | append_singleton requests r ih =>
      rw [handleAll_concat, lookup_storageSizes_of_effect (effect_handle _ r), ih]

/-- While a list is cached, an upload that comes in is distributed over it. -/
theorem distributes_of_cached {requests : List Request}
    (hcached : (handleAll .initial requests).statics.iteratorInitialized = true) :
    Distributes (uploadRequest 1) (handleAll .initial requests) (handleAll .initial requests) where
  kind := rfl
  request := by
    use ⟨5, 1⟩, [120], 1, rfl
    rw [partsOfSize, lookup_storageSizes_handleAll]
    exact ⟨rfl, by decide⟩
  ready := by
    rw [run_initRoundRobin, if_pos hcached]

theorem coherent_of_distributes (h : CacheCoherent w) (hdistributes : Distributes r w w') :
    Coherent w' := by
  have hready := hdistributes.ready
  obtain ⟨hinit, hrun⟩ | ⟨-, ⟨-, hrun⟩ | ⟨-, hrun⟩ | ⟨storages, -, hstorages, hrun⟩⟩ :=
    initRoundRobin_cases r.env w
  · rw [hrun] at hready
    cases hready
    exact h hinit
  · rw [hrun] at hready
    cases hready
  · rw [hrun] at hready
    cases hready
  · rw [hrun] at hready
    cases hready
    exact hstorages

theorem cacheCoherent_handleAll {requests : List Request}
    (h : ∀ before r, before ++ [r] <+: requests → Registers r →
      (handleAll .initial before).statics.iteratorInitialized = false) :
    CacheCoherent (handleAll .initial requests) := by
  induction requests using List.reverseRecOn with
  | nil => exact nofun
  | append_singleton requests r ih =>
      rw [handleAll_concat]
      apply cacheCoherent_handle
      · apply ih
        intro before r' hstart
        apply h before r'
        exact List.IsPrefix.trans hstart (List.prefix_append _ _)
      · exact h requests r List.prefix_rfl

/-- **The cache is coherent.** At every moment of a run an upload is distributed over the storages
of the database exactly when nobody registers, in the whole run, while a list is cached. -/
theorem coherent_iff (requests : List Request) :
    (∀ before, before <+: requests → ∀ r w', Distributes r (handleAll .initial before) w' →
      Coherent w') ↔
    ∀ before r, before ++ [r] <+: requests → Registers r →
      (handleAll .initial before).statics.iteratorInitialized = false := by
  constructor
  · intro h before r hprefix hr
    apply Bool.eq_false_of_not_eq_true
    intro hcached
    have hbefore := h before ((List.prefix_append _ _).trans hprefix) _ _
      (distributes_of_cached hcached)
    have hcached' : (handleAll .initial (before ++ [r])).statics.iteratorInitialized = true := by
      rw [handleAll_concat, handle, recvDispatcher_eq, hr.kind, handlerOf, statics_smIdReq]
      exact hcached
    have hafter := h (before ++ [r]) hprefix _ _ (distributes_of_cached hcached')
    rw [handleAll_concat] at hafter
    exact not_coherent_of_registers hbefore hr hafter
  · intro h before hprefix r w' hdistributes
    apply coherent_of_distributes _ hdistributes
    apply cacheCoherent_handleAll
    intro before' r' hprefix'
    exact h before' r' (hprefix'.trans hprefix)

def lateStorage : List Request :=
  [registration 4242 1000, { uploadRequest 1 with fuel := 2 }, registration 4243 1000]

/-- The next upload only sees the first storage. -/
theorem not_coherent_lateStorage :
    ¬∀ requests r w', Distributes r (handleAll .initial requests) w' → Coherent w' := by
  intro h
  have hcached : (handleAll .initial lateStorage).statics.iteratorInitialized = true := by
    decide +kernel
  have hcoherent := h lateStorage _ _ (distributes_of_cached hcached)
  obtain ⟨mos, hmos, hlength⟩ := length_of_allStorages hcoherent
  have hone : (handleAll .initial lateStorage).statics.storages.length = 1 := by
    decide +kernel
  have htwo : ((handleAll .initial lateStorage).database.lookup storagesKey).bind
      Coding.storages? = some ⟨2, 2000⟩ := by
    decide +kernel
  rw [htwo] at hmos
  cases hmos
  rw [hone] at hlength
  exact absurd hlength (by decide)

end Cache

end Mp2p.Master
