import Mp2p.Lib.RoundRobin
import Mp2p.Master.Procedures

/-!
# The placement loop goes round

The loop of the placement is a round robin over the cached storages: a part is given to the first
storage, from the cursor on, that has room for it and an address. The loop counts one part back
whenever it passes a storage over, so it ends exactly when the round robin finds a storage for every
part, and never with anything else.
-/

namespace Mp2p.DB.Tools

open Masks Network

def takes (env : Env) (size : PartsizeType) (st : StorageItem) : Bool :=
  !decide (st.availableSpace < size) && (st.addrGet env).isSome

def takesPart (env : Env) (fileSize : FsizeType) (nbParts : PartnumType)
    (storages : List StorageItem) (part position : ℕ) : Bool :=
  storages[position]?.any (takes env (getPartSize fileSize (UInt32.ofNat part) nbParts))

def give (tmpValues : Placement) (st : StorageItem) : Placement :=
  (addPart st tmpValues).getD (tmpValues ++ [(st, 1)])

/-- The loop of `placeParts` with a record of the positions the parts are given to, in the order of
the parts. -/
def placePartsLog (env : Env) (fileSize : FsizeType) (nbParts : PartnumType)
    (storages : List StorageItem) :
    ℕ → PartnumType → ℕ → Placement → List ℕ → Except Halt (ℕ × Placement × List ℕ)
  | 0, _, _, _, _ => .error .stuck
  | fuel + 1, i, current, tmpValues, log =>
      if i ≤ nbParts then
        let current := if current = storages.length then 0 else current
        match storages[current]? with
        | none => .error .fault
        | some st =>
            let (i, tmpValues, log) :=
              if st.availableSpace < getPartSize fileSize (i - 1) nbParts then (i - 1, tmpValues, log)
              else match addPart st tmpValues with
                | some tmpValues => (i, tmpValues, log ++ [current])
                | none => match st.addrGet env with
                  | some _ => (i, tmpValues ++ [(st, 1)], log ++ [current])
                  | none => (i - 1, tmpValues, log)
            placePartsLog env fileSize nbParts storages fuel (i + 1) (current + 1) tmpValues log
      else .ok (current, tmpValues, log)

theorem placeParts_eq (env : Env) (fileSize : FsizeType) (nbParts : PartnumType)
    (storages : List StorageItem) (fuel : ℕ) (i : PartnumType) (current : ℕ)
    (tmpValues : Placement) (log : List ℕ) :
    placeParts env fileSize nbParts storages fuel i current tmpValues =
      (placePartsLog env fileSize nbParts storages fuel i current tmpValues log).map
        fun r => (r.1, r.2.1) := by
  induction fuel generalizing i current tmpValues log with
  | zero => rfl
  | succ fuel ih =>
      rw [placeParts, placePartsLog]
      by_cases hi : i ≤ nbParts
      · rw [if_pos hi, if_pos hi]
        dsimp only
        cases storages[if current = storages.length then 0 else current]? with
        | none => rfl
        | some st =>
            dsimp only
            by_cases hroom : st.availableSpace < getPartSize fileSize (i - 1) nbParts
            · rw [if_pos hroom, if_pos hroom]
              exact ih ..
            · rw [if_neg hroom, if_neg hroom]
              cases addPart st tmpValues with
              | some tmpValues => exact ih ..
              | none =>
                  cases st.addrGet env with
                  | some _ => exact ih ..
                  | none => exact ih ..
      · rw [if_neg hi, if_neg hi]
        rfl

/-! ### Entries of a placement -/

/-- Two storages at one host and port count as one. -/
def SameAddress (f st : StorageItem) : Prop := f.hostAddr = st.hostAddr ∧ f.port = st.port

instance (f st : StorageItem) : Decidable (SameAddress f st) :=
  inferInstanceAs (Decidable (f.hostAddr = st.hostAddr ∧ f.port = st.port))

theorem addPart_eq_none_iff {st : StorageItem} {tmpValues : Placement} :
    addPart st tmpValues = none ↔ ∀ f ∈ tmpValues, ¬SameAddress f.1 st := by
  induction tmpValues with
  | nil => exact iff_of_true rfl nofun
  | cons f rest ih =>
      rw [addPart, List.forall_mem_cons]
      by_cases hsame : f.1.hostAddr = st.hostAddr ∧ f.1.port = st.port
      · rw [if_pos hsame]
        exact iff_of_false nofun fun h => h.1 hsame
      · rw [if_neg hsame, Option.map_eq_none_iff, ih]
        exact (and_iff_right hsame).symm

theorem exists_of_addPart {st : StorageItem} {tmpValues tmpValues' : Placement}
    (h : addPart st tmpValues = some tmpValues') :
    ∃ before f nb after, tmpValues = before ++ (f, nb) :: after ∧
      tmpValues' = before ++ (f, nb + 1) :: after ∧ SameAddress f st := by
  induction tmpValues generalizing tmpValues' with
  | nil => cases h
  | cons f rest ih =>
      rw [addPart] at h
      split_ifs at h with hsame
      · cases h
        exact ⟨[], f.1, f.2, rest, rfl, rfl, hsame⟩
      · obtain ⟨rest', hrest, rfl⟩ := Option.map_eq_some_iff.mp h
        obtain ⟨before, g, nb, after, rfl, rfl, hg⟩ := ih hrest
        exact ⟨f :: before, g, nb, after, rfl, rfl, hg⟩

theorem give_cases (tmpValues : Placement) (st : StorageItem) :
    ((∀ f ∈ tmpValues, ¬SameAddress f.1 st) ∧ give tmpValues st = tmpValues ++ [(st, 1)]) ∨
      ∃ before f nb after, tmpValues = before ++ (f, nb) :: after ∧
        give tmpValues st = before ++ (f, nb + 1) :: after ∧ SameAddress f st := by
  unfold give
  cases hadd : addPart st tmpValues with
  | none => exact .inl ⟨addPart_eq_none_iff.mp hadd, rfl⟩
  | some tmpValues' => exact .inr (exists_of_addPart hadd)

def Resolved (env : Env) (tmpValues : Placement) : Prop :=
  ∀ f ∈ tmpValues, (f.1.addrGet env).isSome

theorem resolved_of_same {env : Env} {f st : StorageItem} (hsame : SameAddress f st)
    (h : (f.addrGet env).isSome) : (st.addrGet env).isSome := by
  rw [StorageItem.addrGet, Option.isSome_map] at h ⊢
  rwa [← hsame.1]

theorem Resolved.give {env : Env} {tmpValues : Placement} (h : Resolved env tmpValues)
    {st : StorageItem} (hst : (st.addrGet env).isSome) : Resolved env (give tmpValues st) := by
  obtain ⟨-, heq⟩ | ⟨before, f, nb, after, rfl, heq, -⟩ := give_cases tmpValues st
  · rw [Resolved, heq, List.forall_mem_append, List.forall_mem_singleton]
    exact ⟨h, hst⟩
  · rw [Resolved, List.forall_mem_append, List.forall_mem_cons] at h
    rw [Resolved, heq, List.forall_mem_append, List.forall_mem_cons]
    exact h

/-! ### One storage asked -/

section Loop

variable {env : Env} {fileSize : FsizeType} {nbParts : PartnumType} {storages : List StorageItem}
  {i : PartnumType} {current : ℕ} {tmpValues : Placement} {log : List ℕ}

theorem toNat_pred_add_one {i : PartnumType} : i - 1 + 1 = i := by
  rw [← UInt32.toBitVec_inj]
  simp

theorem toNat_pred {part : ℕ} (hi : i.toNat = part + 1) : i - 1 = UInt32.ofNat part := by
  rw [← UInt32.toNat_inj, UInt32.toNat_sub_of_le i 1 (by
    rw [UInt32.le_iff_toNat_le, hi]
    exact Nat.le_add_left 1 part), UInt32.toNat_ofNat', hi]
  have := i.toNat_lt
  rw [Nat.mod_eq_of_lt (by omega)]
  rfl

theorem placePartsLog_succ (hresolved : Resolved env tmpValues) (hi : i ≤ nbParts)
    (hcurrent : current ≤ storages.length) {st : StorageItem}
    (hst : storages[current % storages.length]? = some st) (fuel : ℕ) :
    placePartsLog env fileSize nbParts storages (fuel + 1) i current tmpValues log =
      if takes env (getPartSize fileSize (i - 1) nbParts) st then
        placePartsLog env fileSize nbParts storages fuel (i + 1)
          (current % storages.length + 1) (give tmpValues st)
          (log ++ [current % storages.length])
      else placePartsLog env fileSize nbParts storages fuel i (current % storages.length + 1)
        tmpValues log := by
  have hwrap : (if current = storages.length then 0 else current) = current % storages.length := by
    split_ifs with hend
    · rw [hend, Nat.mod_self]
    · rw [Nat.mod_eq_of_lt (Nat.lt_of_le_of_ne hcurrent hend)]
  rw [placePartsLog, if_pos hi]
  dsimp only
  rw [hwrap, hst]
  dsimp only
  by_cases hroom : st.availableSpace < getPartSize fileSize (i - 1) nbParts
  · rw [if_pos hroom, if_neg (by simp [takes, hroom])]
    dsimp only
    rw [toNat_pred_add_one]
  · rw [if_neg hroom]
    cases hadd : addPart st tmpValues with
    | some tmpValues' =>
        obtain ⟨before, f, nb, after, rfl, -, hsame⟩ := exists_of_addPart hadd
        have hf : (f.addrGet env).isSome := hresolved (f, nb) (by simp)
        rw [if_pos (by simp [takes, hroom, resolved_of_same hsame hf]), give, hadd]
        rfl
    | none =>
        cases haddr : st.addrGet env with
        | some addr =>
            rw [if_pos (by simp [takes, hroom, haddr]), give, hadd]
            rfl
        | none =>
            rw [if_neg (by simp [takes, haddr])]
            dsimp only
            rw [toNat_pred_add_one]

theorem takesPart_of_getElem {st : StorageItem} {part position : ℕ}
    (hst : storages[position]? = some st) : takesPart env fileSize nbParts storages part position =
      takes env (getPartSize fileSize (UInt32.ofNat part) nbParts) st := by
  rw [takesPart, hst, Option.any_some]

/-! ### One part placed -/

/-- The storages passed over take their rounds, and then the part is given to the one that takes
it. -/
theorem exists_rounds_of_next (hresolved : Resolved env tmpValues) (hi : i ≤ nbParts)
    (hcurrent : current ≤ storages.length) {part place : ℕ} (hpart : i.toNat = part + 1)
    (hnext : RoundRobin.next storages.length (takesPart env fileSize nbParts storages part) current =
      some place) :
    ∃ st, storages[place]? = some st ∧
      takes env (getPartSize fileSize (UInt32.ofNat part) nbParts) st = true ∧
      ∃ rounds, ∀ fuel,
        placePartsLog env fileSize nbParts storages fuel i current tmpValues log =
          if fuel ≤ rounds then .error .stuck
          else placePartsLog env fileSize nbParts storages (fuel - rounds - 1) (i + 1) (place + 1)
            (give tmpValues st) (log ++ [place]) := by
  obtain ⟨k, hk, hplace, hbefore⟩ := RoundRobin.exists_distance hnext
  have hn : 0 < storages.length := Nat.zero_lt_of_lt hk
  have hlt := RoundRobin.lt_of_next hnext
  have hst : storages[place]? = some storages[place] := List.getElem?_eq_getElem hlt
  have htakes := RoundRobin.accepts_of_next hnext
  rw [takesPart_of_getElem hst] at htakes
  refine ⟨_, hst, htakes, k, ?_⟩
  generalize storages[place] = st at hst htakes
  clear hnext hlt
  induction k generalizing current with
  | zero =>
      intro fuel
      rw [Nat.add_zero] at hplace
      cases fuel with
      | zero => rfl
      | succ fuel =>
          rw [hplace] at hst ⊢
          rw [placePartsLog_succ hresolved hi hcurrent hst, toNat_pred hpart,
            if_pos htakes, if_neg (Nat.not_succ_le_zero fuel)]
          rfl
  | succ k ih =>
      intro fuel
      cases fuel with
      | zero => rfl
      | succ fuel =>
          have hmod := Nat.mod_lt current hn
          have hfirst := List.getElem?_eq_getElem hmod
          have hrefuses := hbefore 0 (Nat.succ_pos k)
          rw [Nat.add_zero, takesPart_of_getElem hfirst] at hrefuses
          have hshift (j : ℕ) : (current % storages.length + 1 + j) % storages.length =
              (current + (j + 1)) % storages.length := by
            rw [Nat.add_assoc, Nat.mod_add_mod, Nat.add_comm 1]
          rw [placePartsLog_succ hresolved hi hcurrent hfirst, toNat_pred hpart, hrefuses,
            if_neg Bool.false_ne_true, ih hmod (Nat.lt_of_succ_lt hk) (by rw [hplace, hshift])
              fun j hj => by
                rw [hshift]
                exact hbefore (j + 1) (Nat.succ_lt_succ hj)]
          simp only [Nat.add_le_add_iff_right, Nat.add_sub_add_right]

/-- When no storage takes the part, all are passed over again and again. -/
theorem stuck_of_next (hresolved : Resolved env tmpValues) (hi : i ≤ nbParts)
    (hn : 0 < storages.length) (hcurrent : current ≤ storages.length) {part : ℕ}
    (hpart : i.toNat = part + 1)
    (hnone : ∀ position < storages.length,
      takesPart env fileSize nbParts storages part position = false) (fuel : ℕ) :
    placePartsLog env fileSize nbParts storages fuel i current tmpValues log = .error .stuck := by
  induction fuel generalizing current with
  | zero => rfl
  | succ fuel ih =>
      have hmod := Nat.mod_lt current hn
      have hfirst := List.getElem?_eq_getElem hmod
      have hrefuses := hnone _ hmod
      rw [takesPart_of_getElem hfirst] at hrefuses
      rw [placePartsLog_succ hresolved hi hcurrent hfirst, toNat_pred hpart, hrefuses,
        if_neg Bool.false_ne_true]
      exact ih hmod

/-- A number of parts that the counter cannot exceed is never reached. -/
theorem stuck_of_max (hresolved : Resolved env tmpValues) (hmax : nbParts.toNat + 1 = 2 ^ 32)
    (hn : 0 < storages.length) (hcurrent : current ≤ storages.length) (fuel : ℕ) :
    placePartsLog env fileSize nbParts storages fuel i current tmpValues log = .error .stuck := by
  induction fuel generalizing i current tmpValues log with
  | zero => rfl
  | succ fuel ih =>
      have hi : i ≤ nbParts := by
        have := i.toNat_lt
        rw [UInt32.le_iff_toNat_le]
        omega
      have hmod := Nat.mod_lt current hn
      have hfirst := List.getElem?_eq_getElem hmod
      rw [placePartsLog_succ hresolved hi hcurrent hfirst]
      split_ifs with htakes
      · refine ih (hresolved.give ?_) hmod
        rw [takes, Bool.and_eq_true] at htakes
        exact htakes.2
      · exact ih hresolved hmod

/-! ### All parts placed -/

def storagesAt (storages : List StorageItem) (places : List ℕ) : List StorageItem :=
  places.filterMap (storages[·]?)

theorem toNat_nextPart {i : PartnumType} {part : ℕ} (hpart : i.toNat = part + 1)
    (hmax : part + 2 < 2 ^ 32) : (i + 1).toNat = part + 1 + 1 := by
  rw [UInt32.toNat_add, hpart]
  exact Nat.mod_eq_of_lt hmax

/-- **The loop is a round robin.** When the round robin finds a storage for every part, the loop ends
after so many rounds with the parts given to these storages. -/
theorem exists_rounds_of_assign (hresolved : Resolved env tmpValues)
    (hcurrent : current ≤ storages.length) {part count cursor : ℕ} {places : List ℕ}
    (hpart : i.toNat = part + 1) (hcount : part + count = nbParts.toNat)
    (hmax : nbParts.toNat + 1 < 2 ^ 32)
    (hassign : RoundRobin.assign storages.length (takesPart env fileSize nbParts storages) count part
      current = some (places, cursor)) :
    ∃ rounds, ∀ fuel, placePartsLog env fileSize nbParts storages fuel i current tmpValues log =
      if fuel ≤ rounds then .error .stuck
      else .ok (cursor, (storagesAt storages places).foldl give tmpValues, log ++ places) := by
  induction count generalizing i current tmpValues log part places with
  | zero =>
      cases hassign
      refine ⟨0, fun fuel => ?_⟩
      have hi : ¬i ≤ nbParts := by
        rw [UInt32.le_iff_toNat_le]
        omega
      cases fuel with
      | zero => rfl
      | succ fuel =>
          rw [placePartsLog, if_neg hi, if_neg (Nat.not_succ_le_zero fuel), List.append_nil]
          rfl
  | succ count ih =>
      obtain ⟨place, rest, hnext, hrest, hplaces⟩ :=
        RoundRobin.assign_succ_eq_some_iff.mp hassign
      dsimp only at hplaces hrest
      subst hplaces
      have hi : i ≤ nbParts := by
        rw [UInt32.le_iff_toNat_le]
        omega
      have hsucc : (i + 1).toNat = part + 1 + 1 := toNat_nextPart hpart (by omega)
      obtain ⟨st, hst, htakes, rounds, hrounds⟩ :=
        @exists_rounds_of_next env fileSize nbParts storages i current tmpValues log hresolved hi
          hcurrent part place hpart hnext
      rw [takes, Bool.and_eq_true] at htakes
      obtain ⟨rounds', hrounds'⟩ := @ih (i + 1) (place + 1) (give tmpValues st) (log ++ [place])
        (hresolved.give htakes.2) (RoundRobin.lt_of_next hnext) (part + 1) rest hsucc (by omega)
        hrest
      refine ⟨rounds + 1 + rounds', fun fuel => ?_⟩
      have hsts : storagesAt storages (place :: rest) = st :: storagesAt storages rest :=
        List.filterMap_cons_some hst
      rw [hrounds, hrounds', hsts, List.foldl_cons, List.append_assoc, List.singleton_append]
      split_ifs <;> first | rfl | omega

theorem stuck_of_assign (hresolved : Resolved env tmpValues) (hn : 0 < storages.length)
    (hcurrent : current ≤ storages.length) {part count : ℕ} (hpart : i.toNat = part + 1)
    (hcount : part + count = nbParts.toNat) (hmax : nbParts.toNat + 1 < 2 ^ 32)
    (hassign : RoundRobin.assign storages.length (takesPart env fileSize nbParts storages) count part
      current = none) (fuel : ℕ) :
    placePartsLog env fileSize nbParts storages fuel i current tmpValues log = .error .stuck := by
  induction count generalizing i current tmpValues log part fuel with
  | zero => cases hassign
  | succ count ih =>
      have hi : i ≤ nbParts := by
        rw [UInt32.le_iff_toNat_le]
        omega
      have hsucc : (i + 1).toNat = part + 1 + 1 := toNat_nextPart hpart (by omega)
      cases hnext : RoundRobin.next storages.length (takesPart env fileSize nbParts storages part)
          current with
      | none =>
          exact stuck_of_next hresolved hi hn hcurrent hpart (RoundRobin.next_eq_none_iff.mp hnext) fuel
      | some place =>
          rw [RoundRobin.assign, hnext, Option.bind_some, Option.map_eq_none_iff] at hassign
          obtain ⟨st, hst, htakes, rounds, hrounds⟩ :=
            @exists_rounds_of_next env fileSize nbParts storages i current tmpValues log hresolved hi
              hcurrent part place hpart hnext
          rw [takes, Bool.and_eq_true] at htakes
          rw [hrounds]
          split_ifs with hfew
          · rfl
          · exact ih (hresolved.give htakes.2) (RoundRobin.lt_of_next hnext) hsucc (by omega)
              hassign _

end Loop

end Mp2p.DB.Tools
