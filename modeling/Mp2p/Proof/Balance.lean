import Mathlib.Algebra.Group.Action.Defs
import Mp2p.Proof.Placement

/-!
# How much each storage is given

Storages that take every part take one each in turn, and the cursor carries the turns over from one
call to the next. A storage is asked for room one part at a time, so what it is given in a call can
be more than it has.
-/

namespace Mp2p.DB.Tools

open Masks Network Rounding

/-! ### The parts of one storage -/

def partsOn (st : StorageItem) (tmpValues : Placement) : ℕ :=
  ((tmpValues.filter fun f => SameAddress f.1 st).map fun f => f.2.toNat).sum

/-- What `tmp_values` holds at the end of a call over the cached list, nothing when the call does not
come to its end. -/
def placement (env : Env) (fuel : ℕ) (fileSize : FsizeType) (w : World Record) : Placement :=
  match partsOfSize w.database fileSize with
  | none => []
  | some nbParts =>
      match placeParts env fileSize nbParts w.statics.storages fuel 1
        w.statics.currentRoundRobin [] with
      | .error _ => []
      | .ok (_, tmpValues) => tmpValues

section Tally

variable {tmpValues : Placement} {sts : List StorageItem}

theorem filter_eq_singleton
    (hdistinct : tmpValues.Pairwise fun f g => ¬SameAddress f.1 g.1)
    {f : StorageItem × PartnumType} (hf : f ∈ tmpValues) {st : StorageItem}
    (hsame : SameAddress f.1 st) : (tmpValues.filter fun g => SameAddress g.1 st) = [f] := by
  induction tmpValues with
  | nil => cases hf
  | cons g rest ih =>
      rw [List.pairwise_cons] at hdistinct
      obtain rfl | hrest := List.mem_cons.mp hf
      · have hnone : (rest.filter fun g => SameAddress g.1 st) = [] := by
          rw [List.filter_eq_nil_iff]
          intro g hg hgst
          exact hdistinct.1 g hg (hsame.trans (of_decide_eq_true hgst).symm)
        rw [List.filter_cons_of_pos (by simpa using hsame), hnone]
      · have hg : ¬SameAddress g.1 st := fun hgst =>
          hdistinct.1 f hrest (hgst.trans hsame.symm)
        rw [List.filter_cons_of_neg (by simpa using hg)]
        exact ih hdistinct.2 hrest

theorem partsOn_of_tallies (h : Tallies tmpValues sts) (st : StorageItem) :
    partsOn st tmpValues = sts.countP fun s => SameAddress s st := by
  by_cases hentry : ∃ f ∈ tmpValues, SameAddress f.1 st
  · obtain ⟨f, hf, hsame⟩ := hentry
    rw [partsOn, filter_eq_singleton h.distinct hf hsame, List.map_singleton, List.sum_singleton,
      h.counts f hf]
    apply List.countP_congr
    intro s _
    rw [decide_eq_true_eq, decide_eq_true_eq]
    exact ⟨fun hs => hs.symm.trans hsame, fun hs => hsame.trans hs.symm⟩
  · have hnone : (tmpValues.filter fun f => SameAddress f.1 st) = [] := by
      rw [List.filter_eq_nil_iff]
      intro f hf hsame
      exact hentry ⟨f, hf, of_decide_eq_true hsame⟩
    have hzero : (sts.countP fun s => SameAddress s st) = 0 := by
      rw [List.countP_eq_zero]
      intro s hs hsame
      obtain ⟨f, hf, hfs⟩ := h.covered s hs
      exact hentry ⟨f, hf, hfs.trans (of_decide_eq_true hsame)⟩
    rw [partsOn, hnone, hzero]
    rfl

end Tally

def DistinctAddresses (storages : List StorageItem) : Prop :=
  storages.Pairwise fun f g => ¬SameAddress f g

theorem eq_of_sameAddress {storages : List StorageItem} (hdistinct : DistinctAddresses storages)
    {p q : ℕ} {f g : StorageItem} (hf : storages[p]? = some f) (hg : storages[q]? = some g)
    (hsame : SameAddress f g) : p = q := by
  obtain ⟨hp, rfl⟩ := List.getElem?_eq_some_iff.mp hf
  obtain ⟨hq, rfl⟩ := List.getElem?_eq_some_iff.mp hg
  rw [DistinctAddresses, List.pairwise_iff_getElem] at hdistinct
  obtain hlt | heq | hlt := lt_trichotomy p q
  · exact absurd hsame (hdistinct p q hp hq hlt)
  · exact heq
  · exact absurd hsame.symm (hdistinct q p hq hp hlt)

theorem countP_storagesAt {storages : List StorageItem} (hdistinct : DistinctAddresses storages)
    {places : List ℕ} (hplaces : ∀ place ∈ places, place < storages.length) {p : ℕ}
    {st : StorageItem} (hst : storages[p]? = some st) :
    ((storagesAt storages places).countP fun s => SameAddress s st) = places.count p := by
  induction places with
  | nil => rfl
  | cons place places ih =>
      rw [List.forall_mem_cons] at hplaces
      have hplace := List.getElem?_eq_getElem hplaces.1
      have hsame : SameAddress storages[place] st ↔ place = p := by
        constructor
        · exact eq_of_sameAddress hdistinct hplace hst
        · intro heq
          subst heq
          rw [hplace, Option.some_inj] at hst
          rw [hst]
          exact .refl st
      rw [storagesAt, List.filterMap_cons_some hplace, ← storagesAt, List.countP_cons,
        List.count_cons, ih hplaces.2]
      simp only [decide_eq_true_eq, hsame, beq_iff_eq]

def TakeAll (env : Env) (fileSize : FsizeType) (nbParts : PartnumType)
    (storages : List StorageItem) : Prop :=
  ∀ part < nbParts.toNat, ∀ st ∈ storages, (st.addrGet env).isSome ∧
    getPartSize fileSize (UInt32.ofNat part) nbParts ≤ st.availableSpace

theorem TakeAll.takesPart {env : Env} {fileSize : FsizeType} {nbParts : PartnumType}
    {storages : List StorageItem} (h : TakeAll env fileSize nbParts storages) {part : ℕ}
    (hpart : part < nbParts.toNat) {position : ℕ} (hposition : position < storages.length) :
    takesPart env fileSize nbParts storages (0 + part) position = true := by
  obtain ⟨haddr, hroom⟩ := h part hpart _ (List.getElem_mem hposition)
  rw [takesPart_of_getElem (List.getElem?_eq_getElem hposition), takes, Nat.zero_add,
    Bool.and_eq_true]
  refine ⟨?_, haddr⟩
  rw [Bool.not_eq_true', decide_eq_false_iff_not]
  exact UInt64.not_lt.mpr hroom

theorem Places.turns {env : Env} {fileSize : FsizeType} {nbParts : PartnumType}
    {storages : List StorageItem} {current cursor : ℕ} {tmpValues : Placement} {places : List ℕ}
    (h : Places env fileSize nbParts storages current cursor tmpValues places)
    (hall : TakeAll env fileSize nbParts storages) (hn : 0 < storages.length) :
    places = RoundRobin.turns storages.length current nbParts.toNat ∧
      cursor % storages.length = (current + nbParts.toNat) % storages.length :=
  RoundRobin.assign_of_forall hn (fun _ hpart _ => hall.takesPart hpart) h.assign

/-! ### Balance over many calls -/

section Balance

/-- Nothing of this resets the cache, and every cached storage takes every part that is placed. -/
def Op.Undisturbed (w : World Record) : Op → Prop
  | place env _ fileSize => ∀ nbParts, partsOfSize w.database fileSize = some nbParts →
      TakeAll env fileSize nbParts w.statics.storages
  | list => False
  | register _ => True

def Undisturbed : World Record → List Op → Prop
  | _, [] => True
  | w, op :: ops => op.Undisturbed w ∧ Undisturbed (op.apply w) ops

def Op.partsOn (st : StorageItem) (w : World Record) : Op → ℕ
  | place env fuel fileSize => Tools.partsOn st (placement env fuel fileSize w)
  | _ => 0

def partsOnAll (st : StorageItem) : World Record → List Op → ℕ
  | _, [] => 0
  | w, op :: ops => op.partsOn st w + partsOnAll st (op.apply w) ops

variable {w : World Record}

theorem exists_turns_of_op (hvalid : Statics.Valid w.statics)
    (hcached : w.statics.iteratorInitialized = true)
    (hdistinct : DistinctAddresses w.statics.storages) {op : Op} (hop : op.Undisturbed w) :
    (op.apply w).statics.iteratorInitialized = true ∧
      (op.apply w).statics.storages = w.statics.storages ∧
      ∃ count, (op.apply w).statics.currentRoundRobin % w.statics.storages.length =
          (w.statics.currentRoundRobin + count) % w.statics.storages.length ∧
        ∀ p st, w.statics.storages[p]? = some st → op.partsOn st w =
          (RoundRobin.turns w.statics.storages.length w.statics.currentRoundRobin count).count p := by
  cases op with
  | list => exact hop.elim
  | register r =>
      rw [Op.apply, statics_smIdReq]
      exact ⟨hcached, rfl, 0, rfl, fun p st _ => rfl⟩
  | place env fuel fileSize =>
      obtain ⟨hn, hcurrent⟩ := hvalid hcached
      rw [Op.apply, run_of_cached hcached, placeCached]
      simp only [Op.partsOn, placement]
      cases hparts : partsOfSize w.database fileSize with
      | none => exact ⟨hcached, rfl, 0, rfl, fun p st _ => rfl⟩
      | some nbParts =>
          dsimp only
          cases hplace : placeParts env fileSize nbParts w.statics.storages fuel 1
              w.statics.currentRoundRobin [] with
          | error e => exact ⟨hcached, rfl, 0, rfl, fun p st _ => rfl⟩
          | ok r =>
              obtain ⟨places, hplaces⟩ := exists_places hn hcurrent hplace
              obtain ⟨hturns, hcursor⟩ := hplaces.turns (hop nbParts hparts) hn
              refine ⟨hcached, rfl, nbParts.toNat, hcursor, fun p st hst => ?_⟩
              rw [partsOn_of_tallies hplaces.tallies,
                countP_storagesAt hdistinct (fun _ => hplaces.lt) hst, hturns]

theorem exists_turns_of_ops (hvalid : Statics.Valid w.statics)
    (hcached : w.statics.iteratorInitialized = true)
    (hdistinct : DistinctAddresses w.statics.storages) {ops : List Op} (hops : Undisturbed w ops) :
    ∃ count, ∀ p st, w.statics.storages[p]? = some st → partsOnAll st w ops =
      (RoundRobin.turns w.statics.storages.length w.statics.currentRoundRobin count).count p := by
  induction ops generalizing w with
  | nil => exact ⟨0, fun p st _ => rfl⟩
  | cons op ops ih =>
      obtain ⟨hcached', hstorages, count, hcursor, hcount⟩ :=
        exists_turns_of_op hvalid hcached hdistinct hops.1
      obtain ⟨more, hmore⟩ := ih (valid_apply hvalid op) hcached' (by rwa [hstorages]) hops.2
      refine ⟨count + more, fun p st hst => ?_⟩
      rw [partsOnAll, hcount p st hst, hmore p st (by rwa [hstorages]), hstorages,
        RoundRobin.turns_add, List.count_append, RoundRobin.turns_congr hcursor]

/-- **Balance.** Storages at addresses of their own that take every part are given, over all calls
without a reset of the cache in between, the same number of parts up to one. -/
theorem balanced_of_undisturbed (hvalid : Statics.Valid w.statics)
    (hcached : w.statics.iteratorInitialized = true)
    (hdistinct : DistinctAddresses w.statics.storages) {ops : List Op} (hops : Undisturbed w ops)
    {f g : StorageItem} (hf : f ∈ w.statics.storages) (hg : g ∈ w.statics.storages) :
    partsOnAll f w ops ≤ partsOnAll g w ops + 1 := by
  obtain ⟨hn, -⟩ := hvalid hcached
  obtain ⟨count, hcount⟩ := exists_turns_of_ops hvalid hcached hdistinct hops
  obtain ⟨p, hp, rfl⟩ := List.getElem_of_mem hf
  obtain ⟨q, hq, rfl⟩ := List.getElem_of_mem hg
  rw [hcount p _ (List.getElem?_eq_getElem hp), hcount q _ (List.getElem?_eq_getElem hq)]
  exact RoundRobin.count_turns_le hn _ count hp hq

def hugeStorage (id : StidType) (port : PortType) : StorageItem :=
  ⟨id, ascii "::1", port, UInt64.ofNat (2 ^ 64 - 1)⟩

def twoStorages : World Record :=
  { World.initial with statics := ⟨true, 1, [hugeStorage 0 4242, hugeStorage 1 4243]⟩ }

theorem valid_twoStorages : Statics.Valid twoStorages.statics := fun _ => ⟨Nat.two_pos, one_le_two⟩

theorem distinctAddresses_twoStorages : DistinctAddresses twoStorages.statics.storages := by
  simp [DistinctAddresses, twoStorages, hugeStorage, SameAddress]

theorem undisturbed_twoStorages {w : World Record} (hstorages : w.statics.storages =
    twoStorages.statics.storages) (fuel : ℕ) (fileSize : FsizeType) :
    (Op.place anyHost fuel fileSize).Undisturbed w := by
  intro nbParts _ part _ st hst
  have hall : ∀ st ∈ twoStorages.statics.storages, st.availableSpace.toNat = 2 ^ 64 - 1 := by
    simp [twoStorages, hugeStorage]
  rw [hstorages] at hst
  refine ⟨rfl, ?_⟩
  rw [UInt64.le_iff_toNat_le, hall st hst]
  have := (getPartSize fileSize (UInt32.ofNat part) nbParts).toNat_lt
  omega

def twoUploads : List Op :=
  [.place anyHost 9 3000000, .register (registration 4244 0), .place anyHost 9 5]

theorem balanced_twoUploads : partsOnAll (hugeStorage 0 4242) twoStorages twoUploads ≤
    partsOnAll (hugeStorage 1 4243) twoStorages twoUploads + 1 := by
  have hfirst := undisturbed_twoStorages (w := twoStorages) rfl 9 3000000
  have hkept := (exists_turns_of_op valid_twoStorages rfl distinctAddresses_twoStorages hfirst).2.1
  have hops : Undisturbed twoStorages twoUploads := by
    refine ⟨hfirst, trivial, undisturbed_twoStorages ?_ 9 5, trivial⟩
    exact (congrArg Statics.storages (statics_smIdReq _ _)).trans hkept
  exact balanced_of_undisturbed valid_twoStorages rfl distinctAddresses_twoStorages hops
    List.mem_cons_self (List.mem_cons_of_mem _ List.mem_cons_self)

end Balance

/-! ### The space of a storage -/

section Capacity

def atAddress (storages : List StorageItem) (st : StorageItem) (position : ℕ) : Bool :=
  storages[position]?.any fun s => SameAddress st s

/-- The bytes of the parts that are given to the host and port of a storage. -/
def load (fileSize : FsizeType) (nbParts : PartnumType) (storages : List StorageItem)
    (places : List ℕ) (st : StorageItem) : ℕ :=
  ∑ part ∈ Finset.range nbParts.toNat,
    if places[part]?.any (atAddress storages st) then
      (getPartSize fileSize (UInt32.ofNat part) nbParts).toNat
    else 0

/-- When the call comes to its end, no storage it gives parts to gets more than it has space for. The
parts of a storage are those the call counts in its entry of `tmp_values`. -/
def WithinCapacity (env : Env) (fileSize : FsizeType) (w : World Record) : Prop :=
  ∀ nbParts, partsOfSize w.database fileSize = some nbParts →
    ∀ fuel cursor tmpValues places,
      placePartsLog env fileSize nbParts w.statics.storages fuel 1 w.statics.currentRoundRobin [] [] =
        .ok (cursor, tmpValues, places) →
      ∀ f ∈ tmpValues,
        load fileSize nbParts w.statics.storages places f.1 ≤ f.1.availableSpace.toNat

/-- The positions of the storages that take a part of this size, in the order of their turns. -/
def takers (env : Env) (storages : List StorageItem) (size : PartsizeType) (cursor : ℕ) : List ℕ :=
  RoundRobin.willing storages.length (fun position => storages[position]?.any (takes env size)) cursor

/-- The position that takes the last of several parts: the first with room for it behind the one that
took the part before. -/
def lastTaker (env : Env) (fileSize : FsizeType) (nbParts : PartnumType)
    (storages : List StorageItem) (cursor : ℕ) : Option ℕ :=
  let turns := takers env storages (getPartSize fileSize 0 nbParts) cursor
  turns[(nbParts.toNat - 2) % turns.length]?.bind fun place =>
    RoundRobin.next storages.length (fun position => storages[position]?.any
      (takes env (getPartSize fileSize (nbParts - 1) nbParts))) (place + 1)

/-- The bytes that come to the host and port of a storage: what the turns there bring of the parts
but the last, and the last part when it is taken there. -/
def turnsLoad (fileSize : FsizeType) (nbParts : PartnumType) (storages : List StorageItem)
    (turns : List ℕ) (last : Option ℕ) (st : StorageItem) : ℕ :=
  (∑ turn ∈ Finset.range turns.length,
      if turns[turn]?.any (atAddress storages st) then
        (nbParts.toNat - 1) / turns.length +
          if turn < (nbParts.toNat - 1) % turns.length then 1 else 0
      else 0) * (getPartSize fileSize 0 nbParts).toNat +
    if last.any (atAddress storages st) then (getPartSize fileSize (nbParts - 1) nbParts).toNat else 0

/-- Of the storages that get a turn, each that is the first at its host and port has space for all
that is brought there. -/
def RoomForTurns (env : Env) (fileSize : FsizeType) (w : World Record) : Prop :=
  ∀ nbParts, partsOfSize w.database fileSize = some nbParts → 1 < nbParts.toNat →
    let turns := takers env w.statics.storages (getPartSize fileSize 0 nbParts)
      w.statics.currentRoundRobin
    ∀ turn < nbParts.toNat - 1, ∀ position st, turns[turn]? = some position →
      w.statics.storages[position]? = some st →
      (∀ earlier < turn, turns[earlier]?.any (atAddress w.statics.storages st) = false) →
      turnsLoad fileSize nbParts w.statics.storages turns
        (lastTaker env fileSize nbParts w.statics.storages w.statics.currentRoundRobin) st ≤
          st.availableSpace.toNat

variable {env : Env} {fileSize : FsizeType} {nbParts : PartnumType} {storages : List StorageItem}
  {current cursor : ℕ} {tmpValues : Placement} {places : List ℕ}

theorem getPartSize_of_lt {part : ℕ} (hpart : part + 1 < nbParts.toNat) :
    getPartSize fileSize (UInt32.ofNat part) nbParts = getPartSize fileSize 0 nbParts := by
  have hlt := nbParts.toNat_lt
  have hpred : (nbParts - 1).toNat = nbParts.toNat - 1 := by
    rw [UInt32.toNat_sub_of_le nbParts 1 (by
      rw [UInt32.le_iff_toNat_le]
      change 1 ≤ nbParts.toNat
      omega)]
    rfl
  have hne : UInt32.ofNat part ≠ nbParts - 1 := by
    intro heq
    rw [← UInt32.toNat_inj, hpred, UInt32.toNat_ofNat', Nat.mod_eq_of_lt (by omega)] at heq
    omega
  have hzero : (0 : PartnumType) ≠ nbParts - 1 := by
    intro heq
    rw [← UInt32.toNat_inj, hpred] at heq
    change 0 = _ at heq
    omega
  simp only [getPartSize]
  rw [if_neg hne, if_neg hzero]

theorem ofNat_pred (hparts : 1 < nbParts.toNat) :
    UInt32.ofNat (nbParts.toNat - 1) = nbParts - 1 := by
  refine (toNat_pred ?_).symm
  omega

/-- All parts but the last go round the storages that take them, and the last goes to the next one
with room for it. -/
theorem Places.split (h : Places env fileSize nbParts storages current cursor tmpValues places)
    (hparts : 1 < nbParts.toNat) :
    ∃ first last behind, places = first ++ [last] ∧ first.length = nbParts.toNat - 1 ∧
      RoundRobin.assign storages.length (fun _ position => storages[position]?.any
        (takes env (getPartSize fileSize 0 nbParts))) (nbParts.toNat - 1) 0 current =
          some (first, behind) ∧
      lastTaker env fileSize nbParts storages current = some last := by
  obtain ⟨count, hcount⟩ : ∃ count, nbParts.toNat = count + 1 + 1 := ⟨nbParts.toNat - 2, by omega⟩
  have hassign := h.assign
  rw [roundRobin, hcount, RoundRobin.assign_add (count + 1) 1, Option.bind_eq_some_iff] at hassign
  obtain ⟨⟨first, behind⟩, hfirst, hrest⟩ := hassign
  obtain ⟨⟨rest, cursor'⟩, hlast, heq⟩ := Option.map_eq_some_iff.mp hrest
  obtain ⟨last, none, hnext, hnone, hrest'⟩ := RoundRobin.assign_succ_eq_some_iff.mp hlast
  cases hnone
  dsimp only at hnext hrest'
  subst hrest'
  have halike : RoundRobin.assign storages.length (takesPart env fileSize nbParts storages)
      (count + 1) 0 current = RoundRobin.assign storages.length (fun _ position =>
        storages[position]?.any (takes env (getPartSize fileSize 0 nbParts))) (count + 1) 0
          current := by
    apply RoundRobin.assign_congr
    intro part hpart
    funext position
    rw [Nat.zero_add, takesPart, getPartSize_of_lt (by omega)]
  rw [halike] at hfirst
  obtain ⟨before, hbefore, rfl⟩ := RoundRobin.cursor_of_assign hfirst
  refine ⟨first, last, before + 1, (congrArg Prod.fst heq).symm, ?_, ?_, ?_⟩
  · rw [RoundRobin.length_of_assign hfirst, hcount]
    rfl
  · rw [hcount]
    exact hfirst
  · have hturn := RoundRobin.getElem?_of_assign hfirst (Nat.lt_succ_self count)
    have hsize : nbParts.toNat - 2 = count := by omega
    rw [lastTaker, takers, hsize, ← hturn, hbefore, Option.bind_some, ← hnext]
    congr 1
    funext position
    rw [takesPart, Nat.zero_add, ← ofNat_pred hparts, hcount]
    rfl

theorem load_eq {first : List ℕ} {last : ℕ} (hparts : 1 < nbParts.toNat)
    (hlength : first.length = nbParts.toNat - 1) (st : StorageItem) :
    load fileSize nbParts storages (first ++ [last]) st =
      Nat.count (fun part => first[part]?.any (atAddress storages st)) (nbParts.toNat - 1) *
          (getPartSize fileSize 0 nbParts).toNat +
        if atAddress storages st last then (getPartSize fileSize (nbParts - 1) nbParts).toNat
        else 0 := by
  have hsucc : nbParts.toNat = nbParts.toNat - 1 + 1 := by omega
  have hlast : (first ++ [last])[nbParts.toNat - 1]? = some last := by
    rw [← hlength, List.getElem?_concat_length]
  have hbefore : ∀ part ∈ Finset.range (nbParts.toNat - 1),
      (if (first ++ [last])[part]?.any (atAddress storages st) then
        (getPartSize fileSize (UInt32.ofNat part) nbParts).toNat else 0) =
      if first[part]?.any (atAddress storages st) then (getPartSize fileSize 0 nbParts).toNat
      else 0 := by
    intro part hpart
    rw [Finset.mem_range] at hpart
    rw [List.getElem?_append_left (by omega), getPartSize_of_lt (by omega)]
  rw [load, hsucc, Finset.sum_range_succ, Nat.add_sub_cancel, Finset.sum_congr rfl hbefore, hlast,
    ofNat_pred hparts, Nat.count_eq_card_filter_range, ← Finset.sum_filter, Finset.sum_const,
    smul_eq_mul, Option.any_some]

theorem room_of_lastTaker {last : ℕ} {st : StorageItem}
    (h : lastTaker env fileSize nbParts storages current = some last)
    (hst : storages[last]? = some st) :
    (getPartSize fileSize (nbParts - 1) nbParts).toNat ≤ st.availableSpace.toNat := by
  obtain ⟨before, -, hnext⟩ := Option.bind_eq_some_iff.mp h
  have htakes := RoundRobin.accepts_of_next hnext
  rw [hst, Option.any_some, takes, Bool.and_eq_true, Bool.not_eq_true',
    decide_eq_false_iff_not] at htakes
  exact UInt64.le_iff_toNat_le.mp (UInt64.not_lt.mp htakes.1)

/-! The storage of an entry is the first at its host and port that is given a part. -/

theorem mem_give {f : StorageItem × PartnumType} {tmpValues : Placement} {st : StorageItem}
    (hf : f ∈ give tmpValues st) : (∃ nb, (f.1, nb) ∈ tmpValues) ∨
      f.1 = st ∧ ∀ g ∈ tmpValues, ¬SameAddress g.1 st := by
  obtain ⟨hnew, heq⟩ | ⟨before, g, nb, after, rfl, heq, -⟩ := give_cases tmpValues st
  · rw [heq, List.mem_append, List.mem_singleton] at hf
    obtain hf | rfl := hf
    · exact .inl ⟨f.2, hf⟩
    · exact .inr ⟨rfl, hnew⟩
  · rw [heq, List.mem_append, List.mem_cons] at hf
    obtain hf | rfl | hf := hf
    · exact .inl ⟨f.2, List.mem_append_left _ hf⟩
    · exact .inl ⟨nb, List.mem_append_right _ List.mem_cons_self⟩
    · exact .inl ⟨f.2, List.mem_append_right _ (List.mem_cons_of_mem _ hf)⟩

theorem find?_of_mem_foldl {sts : List StorageItem} (hlength : sts.length < 2 ^ 32)
    {f : StorageItem × PartnumType} (hf : f ∈ sts.foldl give []) :
    sts.find? (fun s => SameAddress f.1 s) = some f.1 := by
  induction sts using List.reverseRecOn generalizing f with
  | nil => cases hf
  | append_singleton sts st ih =>
      rw [List.length_append, List.length_singleton] at hlength
      have hlt : sts.length < 2 ^ 32 := by omega
      have htallies := tallies_give_all hlt
      rw [List.foldl_concat] at hf
      rw [List.find?_append]
      obtain ⟨nb, hmem⟩ | ⟨rfl, hnew⟩ := mem_give hf
      · rw [ih (by omega) hmem, Option.some_or]
      · have hnone : sts.find? (fun s => SameAddress f.1 s) = none := by
          rw [List.find?_eq_none]
          intro s hs hsame
          obtain ⟨g, hg, hgs⟩ := htallies.covered s hs
          exact hnew g hg (hgs.trans (of_decide_eq_true hsame).symm)
        rw [hnone, Option.none_or, List.find?_singleton, if_pos (by simpa using SameAddress.refl f.1)]

theorem getElem?_storagesAt (hlt : ∀ place ∈ places, place < storages.length) (part : ℕ) :
    (storagesAt storages places)[part]? = places[part]?.bind (storages[·]?) := by
  induction places generalizing part with
  | nil => rfl
  | cons place places ih =>
      rw [List.forall_mem_cons] at hlt
      rw [storagesAt, List.filterMap_cons_some (List.getElem?_eq_getElem hlt.1), ← storagesAt]
      cases part with
      | zero => exact (List.getElem?_eq_getElem hlt.1).symm
      | succ part => exact ih hlt.2 part

theorem any_storagesAt (hlt : ∀ place ∈ places, place < storages.length) (st : StorageItem)
    (part : ℕ) : (storagesAt storages places)[part]?.any (fun s => SameAddress st s) =
      places[part]?.any (atAddress storages st) := by
  rw [getElem?_storagesAt hlt]
  cases places[part]? with
  | none => rfl
  | some place => rfl

/-- The entries are those of the storages that get a part before any other at their address. -/
theorem Places.exists_entry_iff
    (h : Places env fileSize nbParts storages current cursor tmpValues places) {st : StorageItem} :
    (∃ f ∈ tmpValues, f.1 = st) ↔ ∃ part position : ℕ, places[part]? = some position ∧
      storages[position]? = some st ∧
        ∀ earlier < part, places[earlier]?.any (atAddress storages st) = false := by
  have hlt : ∀ place ∈ places, place < storages.length := fun _ => h.lt
  have hlength : (storagesAt storages places).length < 2 ^ 32 := by
    rw [length_storagesAt hlt, h.length_eq]
    exact nbParts.toNat_lt
  have hfind : (∃ f ∈ tmpValues, f.1 = st) ↔
      (storagesAt storages places).find? (fun s => SameAddress st s) = some st := by
    constructor
    · rintro ⟨f, hf, rfl⟩
      rw [h.tmpValues_eq] at hf
      exact find?_of_mem_foldl hlength hf
    · intro hst
      obtain ⟨f, hf, hsame⟩ := h.tallies.covered st (List.mem_of_find?_eq_some hst)
      refine ⟨f, hf, ?_⟩
      rw [h.tmpValues_eq] at hf
      have hf := find?_of_mem_foldl hlength hf
      have hcongr : (fun s => decide (SameAddress f.1 s)) = fun s => decide (SameAddress st s) := by
        funext s
        exact decide_eq_decide.mpr ⟨hsame.symm.trans, hsame.trans⟩
      rw [hcongr, hst, Option.some_inj] at hf
      exact hf.symm
  rw [hfind, List.find?_eq_some_iff_getElem]
  constructor
  · rintro ⟨-, part, hpart, hst, hearlier⟩
    have hat : (storagesAt storages places)[part]? = some st := hst ▸ List.getElem?_eq_getElem hpart
    rw [getElem?_storagesAt hlt, Option.bind_eq_some_iff] at hat
    obtain ⟨position, hposition, hstorage⟩ := hat
    refine ⟨part, position, hposition, hstorage, fun earlier hlt' => ?_⟩
    rw [← any_storagesAt hlt, List.getElem?_eq_getElem (hlt'.trans hpart), Option.any_some]
    simpa using hearlier earlier hlt'
  · rintro ⟨part, position, hposition, hstorage, hearlier⟩
    have hat : (storagesAt storages places)[part]? = some st := by
      rw [getElem?_storagesAt hlt, hposition]
      exact hstorage
    obtain ⟨hpart, hst⟩ := List.getElem?_eq_some_iff.mp hat
    refine ⟨by simpa using SameAddress.refl st, part, hpart, hst, fun earlier hlt' => ?_⟩
    have hnot := hearlier earlier hlt'
    rw [← any_storagesAt hlt, List.getElem?_eq_getElem (hlt'.trans hpart), Option.any_some] at hnot
    simpa using hnot

theorem atAddress_self {st : StorageItem} {position : ℕ} (hst : storages[position]? = some st) :
    atAddress storages st position = true := by
  rw [atAddress, hst]
  simpa using SameAddress.refl st

theorem load_eq_turnsLoad (h : Places env fileSize nbParts storages current cursor tmpValues places)
    (hparts : 1 < nbParts.toNat) (st : StorageItem) :
    load fileSize nbParts storages places st = turnsLoad fileSize nbParts storages
      (takers env storages (getPartSize fileSize 0 nbParts) current)
      (lastTaker env fileSize nbParts storages current) st := by
  obtain ⟨first, last, behind, rfl, hlength, hfirst, hlast⟩ := h.split hparts
  rw [load_eq hparts hlength, RoundRobin.count_any_of_assign hfirst, turnsLoad, hlast,
    Option.any_some]
  rfl

/-- A part but the last is given in its turn, and the first time an address is given one is the
first time the turns come to it. -/
theorem Places.turn_of_first (h : Places env fileSize nbParts storages current cursor tmpValues places)
    (hparts : 1 < nbParts.toNat) {part position : ℕ} {st : StorageItem}
    (hpart : part < nbParts.toNat - 1) (hplace : places[part]? = some position)
    (hst : storages[position]? = some st)
    (hfirst : ∀ earlier < part, places[earlier]?.any (atAddress storages st) = false) :
    (takers env storages (getPartSize fileSize 0 nbParts) current)[part]? = some position ∧
      ∀ earlier < part, (takers env storages (getPartSize fileSize 0 nbParts) current)[earlier]?.any
        (atAddress storages st) = false := by
  obtain ⟨first, last, behind, rfl, hlength, hassign, -⟩ := h.split hparts
  set turns := takers env storages (getPartSize fileSize 0 nbParts) current with hturns
  have hturn : ∀ i < nbParts.toNat - 1, (first ++ [last])[i]? = turns[i % turns.length]? := by
    intro i hi
    rw [List.getElem?_append_left (by omega), RoundRobin.getElem?_of_assign hassign hi]
    rfl
  have hround : part < turns.length := by
    by_contra hle
    have hsame : (first ++ [last])[part - turns.length]? = some position := by
      rw [hturn _ (by omega), ← Nat.mod_eq_sub_mod (by omega), ← hturn part hpart, hplace]
    have hpos : 0 < turns.length := by
      refine Nat.pos_of_ne_zero fun hzero => ?_
      rw [hturn part hpart, List.length_eq_zero_iff.mp hzero] at hplace
      cases hplace
    have hnot := hfirst (part - turns.length) (by omega)
    rw [hsame, Option.any_some, atAddress_self hst] at hnot
    cases hnot
  have hhere : ∀ i ≤ part, (first ++ [last])[i]? = turns[i]? := by
    intro i hi
    rw [hturn i (by omega), Nat.mod_eq_of_lt (by omega)]
  refine ⟨by rw [← hhere part le_rfl, hplace], fun earlier hlt => ?_⟩
  rw [← hhere earlier hlt.le]
  exact hfirst earlier hlt

theorem load_le_of_last {st : StorageItem}
    (h : Places env fileSize nbParts storages current cursor tmpValues places)
    (hparts : 1 < nbParts.toNat) {position : ℕ}
    (hplace : places[nbParts.toNat - 1]? = some position) (hst : storages[position]? = some st)
    (hfirst : ∀ earlier < nbParts.toNat - 1, places[earlier]?.any (atAddress storages st) = false) :
    load fileSize nbParts storages places st ≤ st.availableSpace.toNat := by
  obtain ⟨first, last, behind, rfl, hlength, -, hlast⟩ := h.split hparts
  rw [← hlength, List.getElem?_concat_length, Option.some_inj] at hplace
  subst hplace
  have hnone : Nat.count (fun part => first[part]?.any (atAddress storages st))
      (nbParts.toNat - 1) = 0 := by
    rw [Nat.count_eq_card_filter_range, Finset.card_eq_zero, Finset.filter_eq_empty_iff]
    intro part hpart
    have hnot := hfirst part (Finset.mem_range.mp hpart)
    rw [List.getElem?_append_left (by rw [hlength]; exact Finset.mem_range.mp hpart)] at hnot
    rw [hnot]
    exact Bool.false_ne_true
  rw [load_eq hparts hlength, hnone, Nat.zero_mul, Nat.zero_add, if_pos (atAddress_self hst)]
  exact room_of_lastTaker hlast hst

theorem load_le_of_single {st : StorageItem}
    (h : Places env fileSize nbParts storages current cursor tmpValues places)
    (hparts : nbParts.toNat ≤ 1) {part position : ℕ} (hplace : places[part]? = some position)
    (hst : storages[position]? = some st) :
    load fileSize nbParts storages places st ≤ st.availableSpace.toNat := by
  have hassign := h.assign
  rw [roundRobin] at hassign
  rw [load]
  obtain hzero | hone := Nat.le_one_iff_eq_zero_or_eq_one.mp hparts
  · rw [hzero, Finset.sum_range_zero]
    exact Nat.zero_le _
  · rw [hone] at hassign ⊢
    obtain ⟨place, rest, hnext, hrest, rfl⟩ := RoundRobin.assign_succ_eq_some_iff.mp hassign
    have hpart : part = 0 := by
      have hlength := RoundRobin.length_of_assign hassign
      have hlt := (List.getElem?_eq_some_iff.mp hplace).1
      omega
    rw [hpart, List.getElem?_cons_zero, Option.some_inj] at hplace
    subst hplace
    rw [Finset.sum_range_one, List.getElem?_cons_zero, Option.any_some, if_pos (atAddress_self hst)]
    have htakes := RoundRobin.accepts_of_next hnext
    rw [takesPart_of_getElem hst, takes, Bool.and_eq_true, Bool.not_eq_true',
      decide_eq_false_iff_not] at htakes
    exact UInt64.le_iff_toNat_le.mp (UInt64.not_lt.mp htakes.1)

theorem withinCapacity_of_room {w : World Record} (hvalid : Statics.Valid w.statics)
    (hcached : w.statics.iteratorInitialized = true) (hroom : RoomForTurns env fileSize w) :
    WithinCapacity env fileSize w := by
  obtain ⟨hn, hcurrent⟩ := hvalid hcached
  intro nbParts hparts fuel cursor tmpValues places hlog f hf
  have hplaces := places_of_log hn hcurrent hlog
  obtain ⟨part, position, hplace, hst, hfirst⟩ := hplaces.exists_entry_iff.mp ⟨f, hf, rfl⟩
  by_cases hone : nbParts.toNat ≤ 1
  · exact load_le_of_single hplaces hone hplace hst
  have hmany := Nat.lt_of_not_le hone
  have hlt : part < nbParts.toNat := hplaces.length_eq ▸ (List.getElem?_eq_some_iff.mp hplace).1
  by_cases hlast : part = nbParts.toNat - 1
  · subst hlast
    exact load_le_of_last hplaces hmany hplace hst hfirst
  · have hpart : part < nbParts.toNat - 1 := by omega
    obtain ⟨hturn, hearlier⟩ := hplaces.turn_of_first hmany hpart hplace hst hfirst
    rw [load_eq_turnsLoad hplaces hmany]
    exact hroom nbParts hparts hmany part hpart position f.1 hturn hst hearlier

theorem exists_log {w : World Record} (hvalid : Statics.Valid w.statics)
    (hcached : w.statics.iteratorInitialized = true) (hends : Terminates env fileSize w)
    (hparts : partsOfSize w.database fileSize = some nbParts) :
    ∃ fuel cursor tmpValues places,
      placePartsLog env fileSize nbParts w.statics.storages fuel 1 w.statics.currentRoundRobin [] [] =
        .ok (cursor, tmpValues, places) := by
  obtain ⟨hn, hcurrent⟩ := hvalid hcached
  obtain ⟨hmax, htake⟩ := (terminates_cached_iff hvalid hcached hparts).mp hends
  obtain ⟨hnone, -⟩ | ⟨-, places, cursor, rounds, -, hrounds⟩ :=
    @placePartsLog_cases env fileSize nbParts w.statics.storages w.statics.currentRoundRobin hn
      hcurrent
  · obtain heq | hnone := hnone
    · omega
    · exact absurd htake (roundRobin_eq_none_iff.mp hnone)
  · have hlog := hrounds (rounds + 1)
    rw [if_neg (Nat.not_succ_le_self rounds)] at hlog
    exact ⟨_, _, _, _, hlog⟩

theorem room_of_withinCapacity {w : World Record} (hvalid : Statics.Valid w.statics)
    (hcached : w.statics.iteratorInitialized = true) (hends : Terminates env fileSize w)
    (hwithin : WithinCapacity env fileSize w) : RoomForTurns env fileSize w := by
  obtain ⟨hn, hcurrent⟩ := hvalid hcached
  intro nbParts hparts hmany turns turn hlt position st hturn hst hearlier
  obtain ⟨fuel, cursor, tmpValues, places, hlog⟩ := exists_log hvalid hcached hends hparts
  have hplaces := places_of_log hn hcurrent hlog
  obtain ⟨first, last, behind, heq, hlength, hassign, -⟩ := hplaces.split hmany
  have hgiven : ∀ i ≤ turn, places[i]? = turns[i]? := by
    intro i hi
    have hround : turn < turns.length := (List.getElem?_eq_some_iff.mp hturn).1
    rw [heq, List.getElem?_append_left (by omega),
      RoundRobin.getElem?_of_assign hassign (by omega)]
    exact congrArg (turns[·]?) (Nat.mod_eq_of_lt (hi.trans_lt hround))
  obtain ⟨f, hf, rfl⟩ := hplaces.exists_entry_iff.mpr ⟨turn, position,
    (hgiven turn le_rfl).trans hturn, hst, fun earlier hlt => by
      rw [hgiven earlier hlt.le]
      exact hearlier earlier hlt⟩
  rw [← load_eq_turnsLoad hplaces hmany]
  exact hwithin nbParts hparts _ _ _ _ hlog f hf

/-- **When no storage is overfull.** A placement that ends keeps to the space of the storages exactly
when each storage has space for all that its turns bring it. -/
theorem withinCapacity_iff {w : World Record} (hvalid : Statics.Valid w.statics)
    (hcached : w.statics.iteratorInitialized = true) (hends : Terminates env fileSize w) :
    WithinCapacity env fileSize w ↔ RoomForTurns env fileSize w :=
  ⟨room_of_withinCapacity hvalid hcached hends, withinCapacity_of_room hvalid hcached⟩

theorem terminates_oneStorage {space : AvspaceType} {fileSize : FsizeType}
    (hparts : partsOfSize (oneStorage space).database fileSize = some nbParts)
    (hmax : nbParts.toNat + 1 < 2 ^ 32)
    (hroom : ∀ part < nbParts.toNat,
      (getPartSize fileSize (UInt32.ofNat part) nbParts).toNat ≤ space.toNat) :
    Terminates anyHost fileSize (oneStorage space) := by
  rw [terminates_cached_iff (valid_oneStorage space) rfl hparts]
  refine ⟨hmax, fun part hpart => ⟨_, List.mem_singleton_self _, ?_, rfl⟩⟩
  exact UInt64.not_lt.mpr (UInt64.le_iff_toNat_le.mpr (hroom part hpart))

def sharedAddress : World Record :=
  { World.initial with statics := ⟨true, 0,
    [⟨0, ascii "::1", 4242, 5000000⟩, ⟨1, ascii "::1", 4242, 3000000⟩,
      ⟨2, ascii "::1", 4243, 1000⟩]⟩ }

theorem roomForTurns_sharedAddress : RoomForTurns anyHost 4194302 sharedAddress := by
  intro nbParts hparts _
  obtain rfl : nbParts = 2 := (Option.some_inj.mp hparts).symm
  rw [getPartSize_two (by decide)]
  intro turns turn hturn position st hposition hst _
  obtain rfl : turn = 0 := Nat.lt_one_iff.mp hturn
  have hturns : turns = [0, 1] := by decide
  have hlast : lastTaker anyHost 4194302 2 sharedAddress.statics.storages
      sharedAddress.statics.currentRoundRobin = some 1 := by
    rw [lastTaker, getPartSize_two (by decide), getPartSize_two (by decide)]
    decide
  rw [hturns, List.getElem?_cons_zero, Option.some_inj] at hposition
  subst hposition
  obtain rfl := Option.some_inj.mp hst
  rw [hlast, hturns, turnsLoad, getPartSize_two (by decide), getPartSize_two (by decide)]
  decide

/-- Both parts go to the first host and port, which has space for the two. -/
theorem withinCapacity_sharedAddress : WithinCapacity anyHost 4194302 sharedAddress := by
  have hvalid : Statics.Valid sharedAddress.statics := fun _ => ⟨by decide, by decide⟩
  have hends : Terminates anyHost 4194302 sharedAddress := by
    rw [@terminates_cached_iff anyHost 4194302 2 sharedAddress hvalid rfl rfl]
    refine ⟨by decide, fun part hpart => ⟨_, List.mem_cons_self, ?_, rfl⟩⟩
    rw [getPartSize_two ((UInt32.toNat_ofNat_of_lt' (hpart.trans (by decide))).trans_lt hpart)]
    decide
  exact (withinCapacity_iff hvalid rfl hends).mpr roomForTurns_sharedAddress

/-- Two parts of 2097151 bytes each go to one storage with space for 3000000. -/
theorem not_withinCapacity_two_parts : Terminates anyHost 4194302 (oneStorage 3000000) ∧
    ¬WithinCapacity anyHost 4194302 (oneStorage 3000000) := by
  have hfits : ∀ part < (2 : PartnumType).toNat,
      (getPartSize 4194302 (UInt32.ofNat part) 2).toNat ≤ (3000000 : AvspaceType).toNat := by
    intro part hpart
    rw [getPartSize_two ((UInt32.toNat_ofNat_of_lt' (hpart.trans (by decide))).trans_lt hpart)]
    decide
  have hends : Terminates anyHost 4194302 (oneStorage 3000000) :=
    @terminates_oneStorage 2 3000000 4194302 rfl (by decide) hfits
  refine ⟨hends, fun hwithin => ?_⟩
  obtain ⟨fuel, cursor, tmpValues, places, hlog⟩ :=
    @exists_log anyHost 4194302 2 _ (valid_oneStorage 3000000) rfl hends rfl
  obtain ⟨hn, hcurrent⟩ := valid_oneStorage 3000000 rfl
  have hplaces := places_of_log hn hcurrent hlog
  have hplace : ∀ place ∈ places, place = 0 := fun place hmem => Nat.lt_one_iff.mp (hplaces.lt hmem)
  have hlength : places.length = 2 := hplaces.length_eq
  have hgiven : ∀ part < 2, places[part]? = some 0 := by
    intro part hpart
    rw [List.getElem?_eq_getElem (by omega), hplace _ (List.getElem_mem _)]
  obtain ⟨f, hf, hstorage⟩ := hplaces.exists_entry_iff.mpr
    ⟨0, 0, hgiven 0 Nat.two_pos, rfl, fun _ hlt => absurd hlt (Nat.not_lt_zero _)⟩
  have hload := hwithin 2 rfl _ _ _ _ hlog f hf
  have htwo : (2 : PartnumType).toNat = 2 := rfl
  rw [hstorage, load, htwo, Finset.sum_range_succ, Finset.sum_range_one, hgiven 0 Nat.two_pos,
    hgiven 1 Nat.one_lt_two, getPartSize_two (by decide), getPartSize_two (by decide)] at hload
  exact absurd hload (by decide)

end Capacity

end Mp2p.DB.Tools
