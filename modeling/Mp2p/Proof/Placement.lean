import Mp2p.Master.Callbacks
import Mp2p.Proof.PartSize
import Mp2p.Proof.Procedures
import Mp2p.Proof.Upload

/-!
# Every part is placed once

The cursor of the round robin outlives the calls, the list it is in is read again after every
`get_all_storages`, and the client rebuilds ranges of parts from the counts. Through all of this the
cursor stays in the list, and the ranges are a partition of the parts.
-/

namespace Mp2p.DB.Tools

open Masks Network

/-! ### What a placement that ends has done -/

section Placed

variable {env : Env} {fileSize : FsizeType} {nbParts : PartnumType} {storages : List StorageItem}
  {current fuel : ℕ}

theorem resolved_nil (env : Env) : Resolved env [] := nofun

/-- The round robin the loop is over a list of storages. -/
def roundRobin (env : Env) (fileSize : FsizeType) (nbParts : PartnumType)
    (storages : List StorageItem) (current : ℕ) : Option (List ℕ × ℕ) :=
  RoundRobin.assign storages.length (takesPart env fileSize nbParts storages) nbParts.toNat 0 current

/-- **The loop, from its start.** It never ends with anything but what the round robin comes to, and
when the round robin gives all parts away, enough fuel makes it end. -/
theorem placePartsLog_cases (hn : 0 < storages.length) (hcurrent : current ≤ storages.length) :
    (nbParts.toNat + 1 = 2 ^ 32 ∨ roundRobin env fileSize nbParts storages current = none) ∧
      (∀ fuel, placePartsLog env fileSize nbParts storages fuel 1 current [] [] =
        .error .stuck) ∨
    nbParts.toNat + 1 < 2 ^ 32 ∧ ∃ places cursor rounds,
      roundRobin env fileSize nbParts storages current = some (places, cursor) ∧
      ∀ fuel, placePartsLog env fileSize nbParts storages fuel 1 current [] [] =
        if fuel ≤ rounds then .error .stuck
        else .ok (cursor, (storagesAt storages places).foldl give [], places) := by
  have hlt := nbParts.toNat_lt
  by_cases hmax : nbParts.toNat + 1 = 2 ^ 32
  · exact .inl ⟨.inl hmax, stuck_of_max (resolved_nil env) hmax hn hcurrent⟩
  cases hassign : roundRobin env fileSize nbParts storages current with
  | none =>
      exact .inl ⟨.inr rfl, stuck_of_assign (resolved_nil env) hn hcurrent rfl (Nat.zero_add _)
        (by omega) hassign⟩
  | some r =>
      obtain ⟨rounds, hrounds⟩ := @exists_rounds_of_assign env fileSize nbParts storages 1 current []
        [] (resolved_nil env) hcurrent 0 nbParts.toNat r.2 r.1 rfl (Nat.zero_add _) (by omega) hassign
      exact .inr ⟨by omega, r.1, r.2, rounds, rfl, hrounds⟩

structure Places (env : Env) (fileSize : FsizeType) (nbParts : PartnumType)
    (storages : List StorageItem) (current cursor : ℕ) (tmpValues : Placement)
    (places : List ℕ) : Prop where
  assign : roundRobin env fileSize nbParts storages current = some (places, cursor)
  tmpValues_eq : tmpValues = (storagesAt storages places).foldl give []

theorem places_of_log (hn : 0 < storages.length) (hcurrent : current ≤ storages.length)
    {cursor : ℕ} {tmpValues : Placement} {log : List ℕ}
    (h : placePartsLog env fileSize nbParts storages fuel 1 current [] [] =
      .ok (cursor, tmpValues, log)) :
    Places env fileSize nbParts storages current cursor tmpValues log := by
  obtain ⟨-, hstuck⟩ | ⟨-, places, cursor', rounds, hassign, hrounds⟩ :=
    @placePartsLog_cases env fileSize nbParts storages current hn hcurrent
  · rw [hstuck] at h
    cases h
  · rw [hrounds] at h
    split_ifs at h
    cases h
    exact ⟨hassign, rfl⟩

theorem exists_places (hn : 0 < storages.length) (hcurrent : current ≤ storages.length)
    {cursor : ℕ} {tmpValues : Placement}
    (h : placeParts env fileSize nbParts storages fuel 1 current [] = .ok (cursor, tmpValues)) :
    ∃ places, Places env fileSize nbParts storages current cursor tmpValues places := by
  rw [placeParts_eq env fileSize nbParts storages fuel 1 current [] []] at h
  cases hlog : placePartsLog env fileSize nbParts storages fuel 1 current [] [] with
  | error e =>
      rw [hlog] at h
      cases h
  | ok r =>
      rw [hlog] at h
      cases h
      exact ⟨r.2.2, places_of_log hn hcurrent hlog⟩

theorem stuck_of_error (hn : 0 < storages.length) (hcurrent : current ≤ storages.length) {e : Halt}
    (h : placeParts env fileSize nbParts storages fuel 1 current [] = .error e) : e = .stuck := by
  rw [placeParts_eq env fileSize nbParts storages fuel 1 current [] []] at h
  obtain ⟨-, hstuck⟩ | ⟨-, places, cursor, rounds, -, hrounds⟩ :=
    @placePartsLog_cases env fileSize nbParts storages current hn hcurrent
  · rw [hstuck] at h
    cases h
    rfl
  · rw [hrounds] at h
    split_ifs at h
    · cases h
      rfl
    · cases h

section Facts

variable {cursor : ℕ} {tmpValues : Placement} {places : List ℕ}

theorem Places.length_eq (h : Places env fileSize nbParts storages current cursor tmpValues places) :
    places.length = nbParts.toNat :=
  RoundRobin.length_of_assign h.assign

theorem Places.lt (h : Places env fileSize nbParts storages current cursor tmpValues places)
    {place : ℕ} (hplace : place ∈ places) : place < storages.length :=
  RoundRobin.lt_of_mem_assign h.assign hplace

theorem Places.cursor_le (h : Places env fileSize nbParts storages current cursor tmpValues places)
    (hcurrent : current ≤ storages.length) : cursor ≤ storages.length :=
  RoundRobin.cursor_le_of_assign h.assign hcurrent

theorem length_storagesAt (hlt : ∀ place ∈ places, place < storages.length) :
    (storagesAt storages places).length = places.length := by
  induction places with
  | nil => rfl
  | cons place places ih =>
      rw [List.forall_mem_cons] at hlt
      rw [storagesAt, List.filterMap_cons_some (List.getElem?_eq_getElem hlt.1), ← storagesAt,
        List.length_cons, List.length_cons, ih hlt.2]

theorem mem_of_mem_storagesAt {st : StorageItem} (h : st ∈ storagesAt storages places) :
    st ∈ storages := by
  obtain ⟨place, -, hst⟩ := List.mem_filterMap.mp h
  exact List.mem_of_getElem? hst

theorem Places.tallies (h : Places env fileSize nbParts storages current cursor tmpValues places) :
    Tallies tmpValues (storagesAt storages places) := by
  rw [h.tmpValues_eq]
  apply tallies_give_all
  rw [length_storagesAt fun _ => h.lt, h.length_eq]
  exact nbParts.toNat_lt

theorem Places.total (h : Places env fileSize nbParts storages current cursor tmpValues places) :
    (tmpValues.map fun f => f.2.toNat).sum = nbParts.toNat := by
  rw [h.tallies.total, length_storagesAt fun _ => h.lt, h.length_eq]

end Facts

theorem resolved_of_assign {count task cursor : ℕ} {places : List ℕ}
    (h : RoundRobin.assign storages.length (takesPart env fileSize nbParts storages) count task
      current = some (places, cursor)) :
    ∀ st ∈ storagesAt storages places, (st.addrGet env).isSome := by
  induction count generalizing task current places with
  | zero =>
      cases h
      exact nofun
  | succ count ih =>
      obtain ⟨place, rest, hnext, hrest, hplaces⟩ := RoundRobin.assign_succ_eq_some_iff.mp h
      dsimp only at hplaces hrest
      subst hplaces
      have hst := List.getElem?_eq_getElem (RoundRobin.lt_of_next hnext)
      have htakes := RoundRobin.accepts_of_next hnext
      rw [takesPart_of_getElem hst, takes, Bool.and_eq_true] at htakes
      rw [storagesAt, List.filterMap_cons_some hst, ← storagesAt, List.forall_mem_cons]
      exact ⟨htakes.2, ih hrest⟩

theorem Places.resolved {cursor : ℕ} {tmpValues : Placement} {places : List ℕ}
    (h : Places env fileSize nbParts storages current cursor tmpValues places) :
    Resolved env tmpValues := fun f hf =>
  resolved_of_assign h.assign f.1 (h.tallies.mem f hf)

theorem placementFields_eq_some_iff {tmpValues : Placement} {fields : List StpField} :
    placementFields env tmpValues = some fields ↔
      List.Forall₂ (fun f field => f.1.addrGet env = some field.addr ∧ field.nb = f.2) tmpValues
        fields := by
  unfold placementFields
  induction tmpValues generalizing fields with
  | nil => simp [eq_comm]
  | cons f rest ih =>
      rw [List.mapM_cons]
      simp only [Option.bind_eq_bind, Option.bind_eq_some_iff, Option.map_eq_some_iff,
        Option.pure_def, Option.some_inj]
      constructor
      · rintro ⟨_, ⟨addr, haddr, rfl⟩, fields, hrest, rfl⟩
        exact .cons ⟨haddr, rfl⟩ (ih.mp hrest)
      · intro h
        cases h with
        | cons hfield hrest =>
            exact ⟨_, ⟨_, hfield.1, rfl⟩, _, ih.mpr hrest, by rw [← hfield.2]⟩

theorem exists_fields {tmpValues : Placement} (h : Resolved env tmpValues) :
    ∃ fields, placementFields env tmpValues = some fields := by
  unfold placementFields
  induction tmpValues with
  | nil => exact ⟨[], rfl⟩
  | cons f rest ih =>
      rw [Resolved, List.forall_mem_cons] at h
      obtain ⟨addr, haddr⟩ := Option.isSome_iff_exists.mp h.1
      obtain ⟨fields, hfields⟩ := ih h.2
      refine ⟨⟨addr, f.2⟩ :: fields, ?_⟩
      rw [List.mapM_cons, haddr, hfields]
      rfl

end Placed

/-! ### One call -/

section Call

variable {env : Env} {fuel : ℕ} {fileSize : FsizeType} {w w' : World Record}
  {fields : List StpField}

/-- The placement of a call over a cached list. -/
structure Placed (env : Env) (fileSize : FsizeType) (w w' : World Record) (fields : List StpField)
    (nbParts : PartnumType) (tmpValues : Placement) (places : List ℕ) : Prop where
  parts : partsOfSize w.database fileSize = some nbParts
  places : Places env fileSize nbParts w.statics.storages w.statics.currentRoundRobin
    w'.statics.currentRoundRobin tmpValues places
  fields : placementFields env tmpValues = some fields
  world : w' = { w with statics := { w.statics with
    currentRoundRobin := w'.statics.currentRoundRobin } }

theorem placed_of_placeCached (hvalid : Statics.Valid w.statics)
    (hcached : w.statics.iteratorInitialized = true)
    (h : placeCached env fuel fileSize w = (.ok fields, w')) :
    ∃ nbParts tmpValues places, Placed env fileSize w w' fields nbParts tmpValues places := by
  obtain ⟨hn, hcurrent⟩ := hvalid hcached
  rw [placeCached] at h
  cases hparts : partsOfSize w.database fileSize with
  | none =>
      rw [hparts] at h
      cases h
  | some nbParts =>
      rw [hparts] at h
      dsimp only at h
      cases hplace : placeParts env fileSize nbParts w.statics.storages fuel 1
          w.statics.currentRoundRobin [] with
      | error e =>
          rw [hplace] at h
          cases h
      | ok r =>
          rw [hplace, Prod.mk.injEq] at h
          obtain ⟨places, hplaces⟩ := exists_places hn hcurrent hplace
          obtain ⟨hfields, rfl⟩ := h
          refine ⟨nbParts, r.2, places, hparts, hplaces, ?_, rfl⟩
          cases hmap : placementFields env r.2 with
          | none =>
              rw [hmap] at hfields
              cases hfields
          | some fields' =>
              rw [hmap] at hfields
              cases hfields
              rfl

theorem not_fault_placeCached (hvalid : Statics.Valid w.statics)
    (hcached : w.statics.iteratorInitialized = true) :
    (placeCached env fuel fileSize w).1 ≠ .error .fault := by
  obtain ⟨hn, hcurrent⟩ := hvalid hcached
  rw [placeCached]
  cases partsOfSize w.database fileSize with
  | none =>
      intro h
      cases h
  | some nbParts =>
      dsimp only
      cases hplace : placeParts env fileSize nbParts w.statics.storages fuel 1
          w.statics.currentRoundRobin [] with
      | error e =>
          rw [stuck_of_error hn hcurrent hplace]
          intro h
          cases h
      | ok r =>
          dsimp only
          cases placementFields env r.2 with
          | none =>
              intro h
              cases h
          | some fields =>
              intro h
              cases h

theorem valid_placeCached (hvalid : Statics.Valid w.statics)
    (hcached : w.statics.iteratorInitialized = true) :
    Statics.Valid (placeCached env fuel fileSize w).2.statics := by
  obtain ⟨hn, hcurrent⟩ := hvalid hcached
  rw [placeCached]
  cases partsOfSize w.database fileSize with
  | none => exact hvalid
  | some nbParts =>
      dsimp only
      cases hplace : placeParts env fileSize nbParts w.statics.storages fuel 1
          w.statics.currentRoundRobin [] with
      | error e => exact hvalid
      | ok r =>
          obtain ⟨places, hplaces⟩ := exists_places hn hcurrent hplace
          exact fun _ => ⟨hn, hplaces.cursor_le hcurrent⟩

theorem initRoundRobin_cases (env : Env) (w : World Record) :
    (w.statics.iteratorInitialized = true ∧ (initRoundRobin env).run exec w = (.ok true, w)) ∨
    (w.statics.iteratorInitialized = false ∧
      (allStorages w.database = none ∧ (initRoundRobin env).run exec w = (.error .exception, w) ∨
        allStorages w.database = some [] ∧
          (initRoundRobin env).run exec w = (.ok false, World.reset w) ∨
        ∃ storages, storages ≠ [] ∧ allStorages w.database = some storages ∧
          (initRoundRobin env).run exec w =
            (.ok true, { w with statics := freshStatics env storages }))) := by
  rw [run_initRoundRobin]
  by_cases hinit : w.statics.iteratorInitialized = true
  · exact .inl ⟨hinit, if_pos hinit⟩
  · rw [if_neg hinit]
    refine .inr ⟨Bool.eq_false_of_not_eq_true hinit, ?_⟩
    cases hstorages : allStorages w.database with
    | none => exact .inl ⟨rfl, rfl⟩
    | some storages =>
        cases storages with
        | nil => exact .inr (.inl ⟨rfl, rfl⟩)
        | cons st rest => exact .inr (.inr ⟨st :: rest, List.cons_ne_nil _ _, rfl, rfl⟩)

/-- A call either places over a cached list, or there are no storages, or it throws. -/
theorem getStpfieldsForUpload_cases (env : Env) (fuel : ℕ) (fileSize : FsizeType) (w : World Record)
    (hvalid : Statics.Valid w.statics) :
    (∃ w₁ : World Record, (w₁.database = w.database ∧ w₁.sent = w.sent) ∧
      w₁.statics.iteratorInitialized = true ∧ Statics.Valid w₁.statics ∧
      (getStpfieldsForUpload env fuel fileSize).run exec w = placeCached env fuel fileSize w₁) ∨
    (getStpfieldsForUpload env fuel fileSize).run exec w = (.ok [], World.reset w) ∨
    (getStpfieldsForUpload env fuel fileSize).run exec w = (.error .exception, w) := by
  rw [run_getStpfieldsForUpload]
  obtain ⟨hinit, hrun⟩ | ⟨-, ⟨-, hrun⟩ | ⟨-, hrun⟩ | ⟨storages, hne, -, hrun⟩⟩ :=
    initRoundRobin_cases env w
  · rw [hrun]
    exact .inl ⟨w, ⟨rfl, rfl⟩, hinit, hvalid, rfl⟩
  · rw [hrun]
    exact .inr (.inr rfl)
  · rw [hrun]
    exact .inr (.inl rfl)
  · rw [hrun]
    exact .inl ⟨{ w with statics := freshStatics env storages }, ⟨rfl, rfl⟩, rfl,
      valid_freshStatics env hne, rfl⟩

theorem valid_getStpfieldsForUpload (env : Env) (fuel : ℕ) (fileSize : FsizeType)
    (hvalid : Statics.Valid w.statics) :
    Statics.Valid ((getStpfieldsForUpload env fuel fileSize).run exec w).2.statics := by
  obtain ⟨w₁, -, hcached, hvalid₁, hrun⟩ | hrun | hrun :=
    getStpfieldsForUpload_cases env fuel fileSize w hvalid
  · rw [hrun]
    exact valid_placeCached hvalid₁ hcached
  · rw [hrun]
    exact valid_reset w
  · rw [hrun]
    exact hvalid

end Call

/-! ### Any order of calls -/

/-- What may happen to a master between two placements. -/
inductive Op where
  /-- `get_stpfields_for_upload` -/
  | place (env : Env) (fuel : ℕ) (fileSize : FsizeType)
  /-- `get_all_storages` -/
  | list
  /-- `sm_id_req` -/
  | register (r : Master.Request)

def Op.apply (w : World Record) : Op → World Record
  | place env fuel fileSize => ((getStpfieldsForUpload env fuel fileSize).run exec w).2
  | list => (getAllStorages.run exec w).2
  | register r => ((Master.smIdReq r).run exec w).2

def applyAll (w : World Record) (ops : List Op) : World Record := ops.foldl Op.apply w

def NotStatics : Command Record → Prop
  | .setStatics _ => False
  | _ => True

theorem statics_exec {command : Command Record} (h : NotStatics command) (w : World Record) :
    (exec command w).2.statics = w.statics := by
  cases command with
  | setStatics statics => exact h.elim
  | _ => rfl

theorem statics_smIdReq (r : Master.Request) (w : World Record) :
    ((Master.smIdReq r).run exec w).2.statics = w.statics := by
  refine Program.wp_of_all (fun _ hc w => statics_exec hc w) (p := Master.smIdReq r) ?_ w
  refine Program.all_bind
    (Program.all_bind (Program.all_perform trivial) fun _ => Program.all_ofOption _ _) fun json => ?_
  refine Program.all_bind (Program.all_ofOption _ _) fun mos => ?_
  refine Program.all_bind (Program.all_ofOption _ _) fun hostAddr => ?_
  refine Program.all_bind (Program.all_ofOption _ _) fun req => ?_
  refine Program.all_bind (Program.all_perform trivial) fun _ => ?_
  refine Program.all_bind (Program.all_perform trivial) fun _ => ?_
  exact Program.all_bind (Program.all_perform trivial) fun _ => Program.all_pure _

theorem valid_apply {w : World Record} (hvalid : Statics.Valid w.statics) (op : Op) :
    Statics.Valid (op.apply w).statics := by
  cases op with
  | place env fuel fileSize => exact valid_getStpfieldsForUpload env fuel fileSize hvalid
  | list =>
      rw [Op.apply, run_getAllStorages]
      cases allStorages w.database with
      | none => exact hvalid
      | some storages => exact valid_reset w
  | register r =>
      rw [Op.apply, statics_smIdReq]
      exact hvalid

theorem valid_applyAll {w : World Record} (hvalid : Statics.Valid w.statics) (ops : List Op) :
    Statics.Valid (applyAll w ops).statics := by
  induction ops generalizing w with
  | nil => exact hvalid
  | cons op ops ih => exact ih (valid_apply hvalid op)

/-- The ranges are the parts, each in one of them, and each range starts where the next one ends. -/
structure Partition (parts : ℕ) (ranges : List (ℕ × ℕ)) : Prop where
  disjoint : ranges.Pairwise fun r r' => ∀ part, ¬((r.1 ≤ part ∧ part < r.2) ∧
    (r'.1 ≤ part ∧ part < r'.2))
  consecutive : ∀ k r r', ranges[k]? = some r → ranges[k + 1]? = some r' → r.1 = r'.2
  covered : ∀ part, (∃ r ∈ ranges, r.1 ≤ part ∧ part < r.2) ↔ part < parts

/-- The fields of a call split the parts of the file among storages of the cached list. -/
structure SplitsParts (w : World Record) (env : Env) (fileSize : FsizeType)
    (fields : List StpField) :
    Prop where
  intro ::
  exists_placement : ∃ tmpValues : Placement, placementFields env tmpValues = some fields ∧
    (∀ f ∈ tmpValues, f.1 ∈ w.statics.storages ∧ 0 < f.2.toNat) ∧
    tmpValues.Pairwise fun f g => ¬(f.1.hostAddr = g.1.hostAddr ∧ f.1.port = g.1.port)
  total : ∃ nbParts, partsOfSize w.database fileSize = some nbParts ∧
    Client.totalParts fields = nbParts.toNat
  ranges : Partition (Client.totalParts fields)
    (Client.partRanges (Client.totalParts fields) fields)

theorem consecutive_partRanges (parts : ℕ) (stplist : List StpField) (k : ℕ) (r r' : ℕ × ℕ)
    (hr : (Client.partRanges parts stplist)[k]? = some r)
    (hr' : (Client.partRanges parts stplist)[k + 1]? = some r') : r.1 = r'.2 := by
  induction stplist generalizing parts k with
  | nil => cases hr
  | cons field rest ih =>
      rw [Client.partRanges, List.getElem?_cons_succ] at hr'
      cases k with
      | zero =>
          rw [Client.partRanges, List.getElem?_cons_zero, Option.some_inj] at hr
          cases rest with
          | nil => cases hr'
          | cons field' rest =>
              rw [Client.partRanges, List.getElem?_cons_zero, Option.some_inj] at hr'
              rw [← hr, ← hr']
      | succ k =>
          rw [Client.partRanges, List.getElem?_cons_succ] at hr
          exact ih _ k hr hr'

theorem partition_partRanges (stplist : List StpField) :
    Partition (Client.totalParts stplist)
      (Client.partRanges (Client.totalParts stplist) stplist) := by
  refine ⟨?_, consecutive_partRanges _ _, fun part => ⟨?_, Client.exists_range⟩⟩
  · refine (Client.pairwise_partRanges _ stplist).imp fun {r r'} hle part => ?_
    rintro ⟨⟨hlow, -⟩, -, hhigh⟩
    omega
  · rintro ⟨r, hr, -, hhigh⟩
    exact hhigh.trans_le (Client.snd_le_of_mem_partRanges hr)

theorem totalParts_of_placementFields {env : Env} {tmpValues : Placement} {fields : List StpField}
    (h : placementFields env tmpValues = some fields) :
    Client.totalParts fields = (tmpValues.map fun f => f.2.toNat).sum := by
  rw [placementFields_eq_some_iff] at h
  induction h with
  | nil => rfl
  | cons hfield _ ih => rw [Client.totalParts_cons, ih, List.map_cons, List.sum_cons, hfield.2]

theorem splitsParts_of_placed {env : Env} {fileSize : FsizeType} {w w' : World Record}
    {fields : List StpField} {nbParts : PartnumType} {tmpValues : Placement} {places : List ℕ}
    (h : Placed env fileSize w w' fields nbParts tmpValues places) :
    SplitsParts w' env fileSize fields := by
  have hstorages : w'.statics.storages = w.statics.storages := by rw [h.world]
  have hdatabase : w'.database = w.database := by rw [h.world]
  refine ⟨⟨tmpValues, h.fields, fun f hf => ⟨?_, h.places.tallies.pos hf⟩,
    h.places.tallies.distinct⟩, ⟨nbParts, ?_, ?_⟩, partition_partRanges fields⟩
  · rw [hstorages]
    exact mem_of_mem_storagesAt (h.places.tallies.mem f hf)
  · rw [hdatabase, h.parts]
  · rw [totalParts_of_placementFields h.fields, h.places.total]

/-- **Every part is placed once.** Whatever placements, listings and registrations came before, a
placement never leaves the cached list with its cursor, and when it returns over a cached list its
fields split the parts of the file among storages of that list. -/
theorem splitsParts_applyAll {w : World Record} (hstart : w.statics.iteratorInitialized = false)
    (ops : List Op) (env : Env) (fuel : ℕ) (fileSize : FsizeType) :
    ((getStpfieldsForUpload env fuel fileSize).run exec (applyAll w ops)).1 ≠ .error .fault ∧
      ∀ fields w', (getStpfieldsForUpload env fuel fileSize).run exec (applyAll w ops) =
        (.ok fields, w') → w'.statics.iteratorInitialized = true →
          SplitsParts w' env fileSize fields := by
  have hvalid : Statics.Valid (applyAll w ops).statics := by
    apply valid_applyAll
    intro hcached
    rw [hstart] at hcached
    cases hcached
  obtain ⟨w₁, -, hcached, hvalid₁, hrun⟩ | hrun | hrun :=
    getStpfieldsForUpload_cases env fuel fileSize _ hvalid
  · rw [hrun]
    refine ⟨not_fault_placeCached hvalid₁ hcached, fun fields w' hreturns _ => ?_⟩
    obtain ⟨nbParts, tmpValues, places, hplaced⟩ := placed_of_placeCached hvalid₁ hcached hreturns
    exact splitsParts_of_placed hplaced
  · rw [hrun]
    refine ⟨nofun, fun fields w' hreturns hcached => ?_⟩
    cases hreturns
    cases hcached
  · rw [hrun]
    exact ⟨nofun, fun fields w' hreturns => nomatch hreturns⟩

def anyHost : Env :=
  ⟨0, fun _ => some (List.Vector.replicate 16 0), id, List.Perm.refl, some (ascii "::1"),
    List.Vector.replicate 16 0⟩

def registration (port : PortType) (avspace : AvspaceType) : Master.Request :=
  ⟨received (Storage.idReqPacket port avspace).header (Storage.idReqPacket port avspace).payload,
    anyHost, 0⟩

theorem splitsParts_two_storages :
    ((getStpfieldsForUpload anyHost 2 5).run exec (applyAll .initial
      [.register (registration 4242 1000), .list, .register (registration 4243 1000)])).1 ≠
        .error .fault ∧
      ∀ fields w', (getStpfieldsForUpload anyHost 2 5).run exec (applyAll .initial
        [.register (registration 4242 1000), .list, .register (registration 4243 1000)]) =
        (.ok fields, w') → w'.statics.iteratorInitialized = true →
          SplitsParts w' anyHost 5 fields :=
  splitsParts_applyAll rfl _ anyHost 2 5

/-! ### The loop may not end -/

/-- The placement of a file of this size comes to an end, one way or another. -/
def Terminates (env : Env) (fileSize : FsizeType) (w : World Record) : Prop :=
  ∃ fuel, ((getStpfieldsForUpload env fuel fileSize).run exec w).1 ≠ .error .stuck

theorem run_of_cached {w : World Record} (hcached : w.statics.iteratorInitialized = true)
    (env : Env)
    (fuel : ℕ) (fileSize : FsizeType) :
    (getStpfieldsForUpload env fuel fileSize).run exec w = placeCached env fuel fileSize w := by
  rw [run_getStpfieldsForUpload, run_initRoundRobin, if_pos hcached]

/-- A placement over a cached list comes to what its loop comes to. -/
theorem run_of_cached_parts {env : Env} {fileSize : FsizeType} {nbParts : PartnumType}
    {w : World Record}
    (hcached : w.statics.iteratorInitialized = true)
    (hparts : partsOfSize w.database fileSize = some nbParts) (fuel : ℕ) :
    (getStpfieldsForUpload env fuel fileSize).run exec w =
      match placeParts env fileSize nbParts w.statics.storages fuel 1
        w.statics.currentRoundRobin [] with
      | .error e => (.error e, w)
      | .ok (current, tmpValues) =>
          ((placementFields env tmpValues).elim (.error .exception) .ok,
            { w with statics := { w.statics with currentRoundRobin := current } }) := by
  rewrite [run_of_cached hcached, placeCached, hparts]
  rfl

/-- Whether the storages take every part of a file. -/
def TakeEveryPart (env : Env) (fileSize : FsizeType) (nbParts : PartnumType)
    (storages : List StorageItem) : Prop :=
  ∀ part < nbParts.toNat, ∃ st ∈ storages,
    ¬st.availableSpace < getPartSize fileSize (UInt32.ofNat part) nbParts ∧
      (st.addrGet env).isSome

theorem exists_takesPart_iff {env : Env} {fileSize : FsizeType} {nbParts : PartnumType}
    {storages : List StorageItem} {part : ℕ} :
    (∃ place < storages.length, takesPart env fileSize nbParts storages part place = true) ↔
      ∃ st ∈ storages, ¬st.availableSpace < getPartSize fileSize (UInt32.ofNat part) nbParts ∧
        (st.addrGet env).isSome := by
  constructor
  · rintro ⟨place, hlt, htakes⟩
    rw [takesPart_of_getElem (List.getElem?_eq_getElem hlt), takes] at htakes
    refine ⟨_, List.getElem_mem hlt, ?_⟩
    simpa using htakes
  · rintro ⟨st, hst, htakes⟩
    obtain ⟨place, hlt, hplace⟩ := List.getElem_of_mem hst
    refine ⟨place, hlt, ?_⟩
    rw [takesPart_of_getElem (List.getElem?_eq_getElem hlt), hplace, takes]
    simpa using htakes

theorem roundRobin_eq_none_iff {env : Env} {fileSize : FsizeType} {nbParts : PartnumType}
    {storages : List StorageItem} {current : ℕ} :
    roundRobin env fileSize nbParts storages current = none ↔
      ¬TakeEveryPart env fileSize nbParts storages := by
  rw [← Option.not_isSome_iff_eq_none, roundRobin, RoundRobin.assign_isSome_iff, TakeEveryPart]
  simp only [exists_takesPart_iff, Nat.zero_add]

theorem terminates_cached_iff {env : Env} {fileSize : FsizeType} {nbParts : PartnumType}
    {w : World Record}
    (hvalid : Statics.Valid w.statics) (hcached : w.statics.iteratorInitialized = true)
    (hparts : partsOfSize w.database fileSize = some nbParts) :
    Terminates env fileSize w ↔
      nbParts.toNat + 1 < 2 ^ 32 ∧ TakeEveryPart env fileSize nbParts w.statics.storages := by
  obtain ⟨hn, hcurrent⟩ := hvalid hcached
  have hrun := @run_of_cached_parts env fileSize nbParts w hcached hparts
  unfold Terminates
  obtain ⟨hnone, hstuck⟩ | ⟨hmax, places, cursor, rounds, hassign, hrounds⟩ :=
    @placePartsLog_cases env fileSize nbParts w.statics.storages w.statics.currentRoundRobin hn
      hcurrent
  · refine iff_of_false ?_ ?_
    · rintro ⟨fuel, hends⟩
      rw [hrun, placeParts_eq _ _ _ _ _ _ _ _ [], hstuck] at hends
      exact hends rfl
    · rintro ⟨hmax, htake⟩
      obtain heq | hnone := hnone
      · omega
      · exact roundRobin_eq_none_iff.mp hnone htake
  · refine iff_of_true ⟨rounds + 1, ?_⟩ ⟨hmax, ?_⟩
    · rw [hrun, placeParts_eq _ _ _ _ _ _ _ _ [], hrounds,
        if_neg (Nat.not_succ_le_self rounds)]
      dsimp only [Except.map]
      cases placementFields env ((storagesAt w.statics.storages places).foldl give []) with
      | none =>
          intro h
          cases h
      | some fields =>
          intro h
          cases h
    · by_contra htake
      rw [roundRobin_eq_none_iff.mpr htake] at hassign
      cases hassign

/-- **When the placement ends.** Over a cached list it ends exactly when for every part some storage
has room for it and an address, and the parts are fewer than the counter of the loop can hold. -/
theorem terminates_iff {env : Env} {fileSize : FsizeType} {w : World Record}
    (hvalid : Statics.Valid w.statics) (hcached : w.statics.iteratorInitialized = true) :
    Terminates env fileSize w ↔
      ∀ nbParts, partsOfSize w.database fileSize = some nbParts →
        nbParts.toNat + 1 < 2 ^ 32 ∧
          ∀ part < nbParts.toNat, ∃ st ∈ w.statics.storages,
            ¬st.availableSpace < getPartSize fileSize (UInt32.ofNat part) nbParts ∧
              (st.addrGet env).isSome := by
  cases hparts : partsOfSize w.database fileSize with
  | none =>
      refine iff_of_true ⟨0, fun h => ?_⟩ fun nbParts h => ?_
      · rw [run_of_cached hcached, placeCached, hparts] at h
        cases h
      · cases h
  | some nbParts =>
      rw [terminates_cached_iff hvalid hcached hparts]
      constructor
      · intro h _ heq
        rwa [← Option.some_inj.mp heq]
      · intro h
        exact h nbParts rfl

def oneStorage (availableSpace : AvspaceType) : World Record :=
  { World.initial with statics := ⟨true, 0, [⟨0, ascii "::1", 4242, availableSpace⟩]⟩ }

theorem valid_oneStorage (availableSpace : AvspaceType) :
    Statics.Valid (oneStorage availableSpace).statics := fun _ => ⟨Nat.one_pos, Nat.zero_le _⟩

/-- The two parts of a file of 4194302 bytes. -/
theorem getPartSize_two {part : PartnumType} (hpart : part.toNat < 2) :
    getPartSize 4194302 part 2 = 2097151 := by
  have hceil : ceilFloatDiv 4194302 2 = 2097151 :=
    (ceilFloatDiv_two_pow_eq_iff 1 2097151).mpr (Rounding.fitsBits_of_lt (by norm_num))
  have hsize : (4194302 : FsizeType).toNat = 4194302 := rfl
  have htwo : (2 : PartnumType).toNat = 2 := rfl
  apply UInt64.toNat_inj.mp
  rw [toNat_getPartSize hpart (by rw [hsize, htwo, hceil]; norm_num), hsize, htwo, hceil,
    if_neg (by norm_num)]
  rfl

def loopbackOnly : Env :=
  { anyHost with resolve := fun host => if host = ascii "::1" then anyHost.resolve host else none }

def passedOver : World Record :=
  { World.initial with statics := ⟨true, 0,
    [⟨0, ascii "::1", 4242, 1000⟩, ⟨1, ascii "::2", 4243, 5000000⟩,
      ⟨2, ascii "::1", 4244, 5000000⟩]⟩ }

/-- Two parts are placed on the third storage. -/
theorem terminates_passedOver : Terminates loopbackOnly 4194302 passedOver := by
  refine (terminates_iff (fun _ => ⟨by decide, by decide⟩) rfl).mpr fun nbParts hparts => ?_
  obtain rfl : nbParts = 2 := (Option.some_inj.mp hparts).symm
  refine ⟨by decide, fun part hpart =>
    ⟨_, List.mem_cons_of_mem _ (List.mem_cons_of_mem _ List.mem_cons_self), ?_, rfl⟩⟩
  rw [getPartSize_two ((UInt32.toNat_ofNat_of_lt' (hpart.trans (by decide))).trans_lt hpart)]
  decide

/-- No storage has room for the one part of a file of five bytes. -/
theorem not_terminates_full : ¬Terminates anyHost 5 (oneStorage 4) := by
  rw [@terminates_cached_iff anyHost 5 1 (oneStorage 4) (valid_oneStorage 4) rfl rfl]
  intro h
  obtain ⟨st, hst, hroom, -⟩ := h.2 0 Nat.one_pos
  rw [List.mem_singleton.mp hst] at hroom
  apply hroom
  have hsize : (getPartSize 5 (UInt32.ofNat 0) 1).toNat = 5 := toNat_getPartSize_one (tableRow 5)
  rw [UInt64.lt_iff_toNat_lt, hsize]
  exact Nat.lt_succ_self 4

end Mp2p.DB.Tools
