import Mp2p.Proof.PlacementLoop

/-!
# What the database procedures come to

The procedures read the database and the static variables and nothing else, so each comes to a
function of the two. A cached list of storages has a cursor that is within it or right behind it.
-/

namespace Mp2p.DB.Tools

open Masks Network

variable {V : Type}

def World.reset (w : World V) : World V :=
  { w with statics := { w.statics with iteratorInitialized := false } }

theorem run_tryGet (key : Bytes) (rest : Option V → Handler V β) (w : World V) :
    (tryGet key >>= rest).run exec w = (rest (w.database.lookup key)).run exec w := rfl

theorem run_cmdGet (key : Bytes) (w : World V) :
    (cmdGet key).run exec w = ((w.database.lookup key).elim (.error .exception) .ok, w) := by
  rw [cmdGet, Program.run_bind]
  exact Program.run_ofOption ..

/-- A record is decoded right after it is read, and the two fail alike. -/
theorem run_cmdGet_decode (key : Bytes) (decode : V → Option α) (rest : α → Handler V β)
    (w : World V) :
    (do
      let json ← cmdGet key
      let a ← Program.ofOption .exception (decode json)
      rest a : Handler V β).run exec w = match (w.database.lookup key).bind decode with
      | none => (.error .exception, w)
      | some a => (rest a).run exec w := by
  rw [Program.run_bind, run_cmdGet]
  cases w.database.lookup key with
  | none => rfl
  | some json =>
      dsimp only [Option.elim_some, Option.bind_some]
      rw [Program.run_bind, Program.run_ofOption]
      cases decode json with
      | none => rfl
      | some a => rfl

section

variable [Coding V]

def readStorages (db : Database V) (ids : List StidType) : Option (List StorageItem) :=
  ids.mapM fun i => (db.lookup (storageKey i)).bind Coding.storage?

def allStorages (db : Database V) : Option (List StorageItem) :=
  ((db.lookup storagesKey).bind Coding.storages?).bind fun mos =>
    readStorages db ((List.range mos.count.toNat).map UInt32.ofNat)

def partsOfSize (db : Database V) (fileSize : FsizeType) : Option PartnumType :=
  ((db.lookup storageSizesKey).bind Coding.storageSizes?).map fun values =>
    Master.numberOfParts values fileSize

theorem run_getStorages (ids : List StidType) (w : World V) :
    (getStorages ids).run exec w =
      ((readStorages w.database ids).elim (.error .exception) .ok, w) := by
  induction ids with
  | nil => rfl
  | cons i rest ih =>
      rw [getStorages, run_cmdGet_decode, readStorages, List.mapM_cons]
      cases (w.database.lookup (storageKey i)).bind Coding.storage? with
      | none => rfl
      | some st =>
          dsimp only
          rw [Program.run_bind, ih, readStorages]
          cases List.mapM (fun i => (w.database.lookup (storageKey i)).bind Coding.storage?)
            rest with
          | none => rfl
          | some storages => rfl

theorem run_getAllStorages (w : World V) :
    getAllStorages.run exec w = match allStorages w.database with
      | none => (.error .exception, w)
      | some storages => (.ok storages, World.reset w) := by
  rw [getAllStorages, run_cmdGet_decode, allStorages]
  cases (w.database.lookup storagesKey).bind Coding.storages? with
  | none => rfl
  | some mos =>
      dsimp only [Option.bind_some]
      rw [Program.run_bind, run_getStorages]
      cases readStorages w.database ((List.range mos.count.toNat).map UInt32.ofNat) with
      | none => rfl
      | some storages => rfl

theorem run_numberOfParts (fileSize : FsizeType) (w : World V) :
    (Tools.numberOfParts fileSize).run exec w =
      ((partsOfSize w.database fileSize).elim (.error .exception) .ok, w) := by
  rw [Tools.numberOfParts, run_cmdGet_decode, partsOfSize]
  cases (w.database.lookup storageSizesKey).bind Coding.storageSizes? with
  | none => rfl
  | some values => rfl

/-! ### The cached storages -/

/-- A cached list is not empty, and the iterator is in it or at its end. -/
def Statics.Valid (statics : Statics) : Prop :=
  statics.iteratorInitialized = true →
    0 < statics.storages.length ∧ statics.currentRoundRobin ≤ statics.storages.length

omit [Coding V] in
theorem valid_reset (w : World V) : Statics.Valid (World.reset w).statics := nofun

/-- The static variables the round robin is set up with over a list of storages. -/
def freshStatics (env : Env) (storages : List StorageItem) : Statics :=
  ⟨true, env.rand % (storages.length + 1), storages⟩

theorem valid_freshStatics (env : Env) {storages : List StorageItem} (h : storages ≠ []) :
    Statics.Valid (freshStatics env storages) := fun _ =>
  ⟨List.length_pos_of_ne_nil h, Nat.le_of_lt_succ (Nat.mod_lt _ (Nat.succ_pos _))⟩

theorem run_initRoundRobin (env : Env) (w : World V) :
    (initRoundRobin env).run exec w =
      if w.statics.iteratorInitialized then (.ok true, w)
      else match allStorages w.database with
        | none => (.error .exception, w)
        | some [] => (.ok false, World.reset w)
        | some (st :: rest) => (.ok true, { w with statics := freshStatics env (st :: rest) }) := by
  rw [initRoundRobin, Program.run_bind]
  change (ite (w.statics.iteratorInitialized = true) _ _ : Handler V Bool).run exec w = _
  split_ifs with hinit
  · rfl
  · rw [Program.run_bind, run_getAllStorages]
    cases allStorages w.database with
    | none => rfl
    | some storages =>
        cases storages with
        | nil => rfl
        | cons st rest => rfl

def placeCached (env : Env) (fuel : ℕ) (fileSize : FsizeType) (w : World V) :
    Except Halt (List StpField) × World V :=
  match partsOfSize w.database fileSize with
  | none => (.error .exception, w)
  | some nbParts =>
      match placeParts env fileSize nbParts w.statics.storages fuel 1
        w.statics.currentRoundRobin [] with
      | .error e => (.error e, w)
      | .ok (current, tmpValues) =>
          ((placementFields env tmpValues).elim (.error .exception) .ok,
            { w with statics := { w.statics with currentRoundRobin := current } })

theorem run_getStpfieldsForUpload (env : Env) (fuel : ℕ) (fileSize : FsizeType) (w : World V) :
    (getStpfieldsForUpload env fuel fileSize).run exec w =
      match (initRoundRobin env).run exec w with
      | (.ok true, w') => placeCached env fuel fileSize w'
      | (.ok false, w') => (.ok [], w')
      | (.error e, w') => (.error e, w') := by
  rw [getStpfieldsForUpload, Program.run_bind]
  cases (initRoundRobin env).run exec w with
  | mk result w' =>
      cases result with
      | error e => rfl
      | ok ready =>
          cases ready with
          | false => rfl
          | true =>
              dsimp only
              rw [if_pos rfl, Program.run_bind, run_numberOfParts, placeCached]
              cases partsOfSize w'.database fileSize with
              | none => rfl
              | some nbParts =>
                  dsimp only [Option.elim_some]
                  rw [Program.run_bind]
                  change ((Program.ofExcept (placeParts env fileSize nbParts w'.statics.storages fuel 1
                    w'.statics.currentRoundRobin []) : Handler V (ℕ × Placement)) >>= _).run exec w' = _
                  rw [Program.run_bind, Program.run_ofExcept]
                  cases placeParts env fileSize nbParts w'.statics.storages fuel 1
                    w'.statics.currentRoundRobin [] with
                  | error e => rfl
                  | ok placed =>
                      exact Program.run_ofOption ..

end

/-! ### A name for a new file -/

def suffixed (tmpName : Bytes) (i : UInt64) : Bytes :=
  tmpName ++ ascii ".__" ++ Decimal.digits i.toNat

def Free (db : Database V) (tmpName : Bytes) (i : UInt64) : Prop :=
  db.lookup (fileKey (suffixed tmpName i)) = none

theorem run_searchName_succ (tmpName : Bytes) (fuel : ℕ) (i : UInt64) (w : World V) :
    (searchName tmpName (fuel + 1) i).run exec w =
      match w.database.lookup (fileKey (suffixed tmpName i)) with
      | some _ => (searchName tmpName fuel (i + 1)).run exec w
      | none => (.ok (suffixed tmpName i), w) := by
  rw [searchName, run_tryGet, ← suffixed]
  cases w.database.lookup (fileKey (suffixed tmpName i)) with
  | none => rfl
  | some record => rfl

theorem run_searchName_of_taken {tmpName : Bytes} {w : World V} {last : UInt64}
    (hfree : Free w.database tmpName last) {i : UInt64} {distance : ℕ}
    (hlast : i.toNat + distance = last.toNat)
    (htaken : ∀ j : UInt64, i ≤ j → j < last → ¬Free w.database tmpName j) (fuel : ℕ) :
    (searchName tmpName fuel i).run exec w =
      if fuel ≤ distance then (.error .stuck, w) else (.ok (suffixed tmpName last), w) := by
  induction distance generalizing i fuel with
  | zero =>
      obtain rfl : i = last := UInt64.toNat_inj.mp hlast
      cases fuel with
      | zero => rfl
      | succ fuel =>
          rw [run_searchName_succ, hfree, if_neg (Nat.not_succ_le_zero fuel)]
  | succ distance ih =>
      cases fuel with
      | zero => rfl
      | succ fuel =>
          have hlt := last.toNat_lt
          have hsucc : (i + 1).toNat = i.toNat + 1 := by
            rw [UInt64.toNat_add]
            change (i.toNat + 1) % 2 ^ 64 = _
            exact Nat.mod_eq_of_lt (by omega)
          obtain ⟨record, hrecord⟩ := Option.ne_none_iff_exists'.mp
            (htaken i (UInt64.le_refl i) (by rw [UInt64.lt_iff_toNat_lt]; omega))
          rw [run_searchName_succ, hrecord]
          dsimp only
          rw [ih (by omega) fun j hij hj => htaken j (by
              rw [UInt64.le_iff_toNat_le] at hij ⊢
              omega) hj]
          simp only [Nat.add_le_add_iff_right]

theorem exists_least_free {db : Database V} {tmpName : Bytes} (h : ∃ i, Free db tmpName i) :
    ∃ i, Free db tmpName i ∧ ∀ j < i, ¬Free db tmpName j := by
  have hfind : ∃ k : ℕ, ∃ i : UInt64, i.toNat = k ∧ Free db tmpName i := by
    obtain ⟨i, hi⟩ := h
    exact ⟨_, i, rfl, hi⟩
  classical
  obtain ⟨i, hi, hfree⟩ := Nat.find_spec hfind
  refine ⟨i, hfree, ?_⟩
  intro j hj hjfree
  rw [UInt64.lt_iff_toNat_lt, hi] at hj
  exact Nat.find_min hfind hj ⟨j, rfl, hjfree⟩

/-- **The search for a name.** It ends with the first free suffix, or it goes round for ever. -/
theorem run_searchName (tmpName : Bytes) (w : World V) :
    (∀ i, ¬Free w.database tmpName i) ∧
      (∀ fuel, (searchName tmpName fuel 0).run exec w = (.error .stuck, w)) ∨
    ∃ i, Free w.database tmpName i ∧ ∀ fuel, (searchName tmpName fuel 0).run exec w =
      if fuel ≤ i.toNat then (.error .stuck, w) else (.ok (suffixed tmpName i), w) := by
  by_cases hexists : ∃ i, Free w.database tmpName i
  · right
    obtain ⟨i, hfree, hleast⟩ := exists_least_free hexists
    refine ⟨i, hfree, run_searchName_of_taken hfree (by rw [UInt64.toNat_zero, Nat.zero_add]) ?_⟩
    intro j _ hj
    exact hleast j hj
  · left
    rw [not_exists] at hexists
    refine ⟨hexists, fun fuel => ?_⟩
    generalize (0 : UInt64) = i
    induction fuel generalizing i with
    | zero => rfl
    | succ fuel ih =>
        obtain ⟨record, hrecord⟩ := Option.ne_none_iff_exists'.mp (hexists i)
        rw [run_searchName_succ, hrecord]
        exact ih (i + 1)

def World.created (w : World Record) (mof : MetaOnFilesItem) (fi : FileItem) : World Record :=
  (w.put filesKey (.files { mof with
    count := mof.count + 1
    totalSize := mof.totalSize + BitVec.ofNat 128 fi.fileSize.toNat
    nameById := mof.nameById.emplace fi.id fi.name })).put (fileKey fi.name) (.file fi)

theorem run_createNewFile {fuel : ℕ} {fi : FileItem} {w : World Record} {mof : MetaOnFilesItem}
    {name : Bytes} (hfiles : w.database.lookup filesKey = some (.files mof))
    (hname : (searchName fi.name fuel 0).run exec w = (.ok name, w)) :
    (createNewFile fuel fi).run exec w =
      (.ok { fi with name := name, id := mof.count },
        World.created w mof { fi with name := name, id := mof.count }) := by
  rw [createNewFile, Program.run_bind, hname]
  dsimp only
  rw [Program.run_bind, run_cmdGet, hfiles]
  rfl

/-- Creating a file fails without writing, or writes a record under a free name. -/
theorem createNewFile_cases (fuel : ℕ) (fi : FileItem) (w : World Record) :
    (∃ e, (createNewFile fuel fi).run exec w = (.error e, w)) ∨
    ∃ i mof, Free w.database fi.name i ∧ w.database.lookup filesKey = some (.files mof) ∧
      (createNewFile fuel fi).run exec w =
        (.ok { fi with name := suffixed fi.name i, id := mof.count },
          World.created w mof { fi with name := suffixed fi.name i, id := mof.count }) := by
  have hstuck (e : Halt) (h : (searchName fi.name fuel 0).run exec w = (.error e, w)) :
      ∃ e, (createNewFile fuel fi).run exec w = (.error e, w) := by
    refine ⟨e, ?_⟩
    rw [createNewFile, Program.run_bind, h]
  obtain ⟨-, hnever⟩ | ⟨i, hfree, hsearch⟩ := run_searchName fi.name w
  · exact .inl (hstuck _ (hnever fuel))
  have hrun := hsearch fuel
  split_ifs at hrun with hfew
  · exact .inl (hstuck _ hrun)
  cases hfiles : (w.database.lookup filesKey).bind Coding.files? with
  | none =>
      refine .inl ⟨.exception, ?_⟩
      rw [createNewFile, Program.run_bind, hrun]
      dsimp only
      rw [run_cmdGet_decode, hfiles]
  | some mof =>
      have hlookup := Record.bind_files?_eq_some.mp hfiles
      exact .inr ⟨i, mof, hfree, hlookup, run_createNewFile hlookup hrun⟩

/-! ### The entries of a placement -/

theorem SameAddress.refl (st : StorageItem) : SameAddress st st := ⟨rfl, rfl⟩

theorem SameAddress.symm {f g : StorageItem} (h : SameAddress f g) : SameAddress g f :=
  ⟨h.1.symm, h.2.symm⟩

theorem SameAddress.trans {f g st : StorageItem} (hfg : SameAddress f g) (hg : SameAddress g st) :
    SameAddress f st :=
  ⟨hfg.1.trans hg.1, hfg.2.trans hg.2⟩

/-- The entries count the storages that were given parts, one entry for each address. -/
structure Tallies (tmpValues : Placement) (sts : List StorageItem) : Prop where
  distinct : tmpValues.Pairwise fun f g => ¬SameAddress f.1 g.1
  mem : ∀ f ∈ tmpValues, f.1 ∈ sts
  covered : ∀ st ∈ sts, ∃ f ∈ tmpValues, SameAddress f.1 st
  counts : ∀ f ∈ tmpValues, f.2.toNat = sts.countP fun st => SameAddress f.1 st
  total : (tmpValues.map fun f => f.2.toNat).sum = sts.length

section Tally

variable {tmpValues : Placement} {sts : List StorageItem}

theorem tallies_nil : Tallies [] [] := ⟨.nil, nofun, nofun, nofun, rfl⟩

theorem Tallies.pos (h : Tallies tmpValues sts) {f : StorageItem × PartnumType}
    (hf : f ∈ tmpValues) : 0 < f.2.toNat := by
  rw [h.counts f hf, List.countP_pos_iff]
  exact ⟨f.1, h.mem f hf, decide_eq_true (.refl _)⟩

theorem countP_concat {α : Type} (p : α → Bool) (l : List α) (a : α) :
    (l ++ [a]).countP p = l.countP p + if p a then 1 else 0 := by
  rw [List.countP_append, List.countP_singleton]

theorem Tallies.concat (h : Tallies tmpValues sts) {st : StorageItem}
    (hnew : ∀ f ∈ tmpValues, ¬SameAddress f.1 st) :
    Tallies (tmpValues ++ [(st, 1)]) (sts ++ [st]) := by
  have hfirst : ∀ s ∈ sts, ¬SameAddress st s := by
    intro s hs hsame
    obtain ⟨f, hf, hfs⟩ := h.covered s hs
    exact hnew f hf (hfs.trans hsame.symm)
  refine ⟨?_, ?_, ?_, ?_, ?_⟩
  · rw [List.pairwise_append]
    refine ⟨h.distinct, List.pairwise_singleton _ _, ?_⟩
    intro f hf g hg
    rw [List.mem_singleton.mp hg]
    exact hnew f hf
  · rw [List.forall_mem_append, List.forall_mem_singleton]
    exact ⟨fun f hf => List.mem_append_left _ (h.mem f hf),
      List.mem_append_right _ List.mem_cons_self⟩
  · rw [List.forall_mem_append, List.forall_mem_singleton]
    refine ⟨fun s hs => ?_, (st, 1), List.mem_append_right _ List.mem_cons_self, .refl st⟩
    obtain ⟨f, hf, hsame⟩ := h.covered s hs
    exact ⟨f, List.mem_append_left _ hf, hsame⟩
  · rw [List.forall_mem_append, List.forall_mem_singleton]
    constructor
    · intro f hf
      rw [countP_concat, h.counts f hf, if_neg (by simpa using hnew f hf), Nat.add_zero]
    · have hnone : sts.countP (fun s => SameAddress st s) = 0 := by
        rw [List.countP_eq_zero]
        intro s hs
        simpa using hfirst s hs
      rw [countP_concat, hnone, if_pos (by simpa using SameAddress.refl st)]
      rfl
  · rw [List.map_append, List.sum_append, h.total, List.length_append]
    rfl

theorem Tallies.count_up {before after : Placement} {f st : StorageItem} {nb : PartnumType}
    (h : Tallies (before ++ (f, nb) :: after) sts) (hsame : SameAddress f st)
    (hlength : sts.length + 1 < 2 ^ 32) :
    Tallies (before ++ (f, nb + 1) :: after) (sts ++ [st]) := by
  have hdistinct := List.pairwise_append.mp h.distinct
  have hnb : nb.toNat = sts.countP fun s => SameAddress f s :=
    h.counts (f, nb) (List.mem_append_right _ List.mem_cons_self)
  have hnb' : (nb + 1).toNat = nb.toNat + 1 := by
    have := @List.countP_le_length _ (fun s => decide (SameAddress f s)) sts
    rw [UInt32.toNat_add]
    change (nb.toNat + 1) % 2 ^ 32 = _
    exact Nat.mod_eq_of_lt (by omega)
  have hmem : ∀ g : StorageItem × PartnumType, g ∈ before ++ (f, nb + 1) :: after →
      g = (f, nb + 1) ∨ g ∈ before ++ (f, nb) :: after ∧ ¬SameAddress g.1 f := by
    intro g hg
    rw [List.mem_append, List.mem_cons] at hg
    obtain hg | rfl | hg := hg
    · exact .inr ⟨List.mem_append_left _ hg, hdistinct.2.2 g hg (f, nb) List.mem_cons_self⟩
    · exact .inl rfl
    · refine .inr ⟨List.mem_append_right _ (List.mem_cons_of_mem _ hg), fun hgf => ?_⟩
      exact (List.pairwise_cons.mp hdistinct.2.1).1 g hg hgf.symm
  refine ⟨?_, ?_, ?_, ?_, ?_⟩
  · have hmap : (before ++ (f, nb + 1) :: after).map Prod.fst =
        (before ++ (f, nb) :: after).map Prod.fst := by simp
    have hfst := h.distinct
    rw [← List.pairwise_map (R := fun f g => ¬SameAddress f g)] at hfst ⊢
    rwa [hmap]
  · intro g hg
    obtain rfl | ⟨hg, -⟩ := hmem g hg
    · exact List.mem_append_left _ (h.mem (f, nb) (List.mem_append_right _ List.mem_cons_self))
    · exact List.mem_append_left _ (h.mem g hg)
  · intro s hs
    obtain hs | hs := List.mem_append.mp hs
    · obtain ⟨g, hg, hgs⟩ := h.covered s hs
      rw [List.mem_append, List.mem_cons] at hg
      obtain hg | rfl | hg := hg
      · exact ⟨g, List.mem_append_left _ hg, hgs⟩
      · exact ⟨(f, nb + 1), List.mem_append_right _ List.mem_cons_self, hgs⟩
      · exact ⟨g, List.mem_append_right _ (List.mem_cons_of_mem _ hg), hgs⟩
    · rw [List.mem_singleton.mp hs]
      exact ⟨(f, nb + 1), List.mem_append_right _ List.mem_cons_self, hsame⟩
  · intro g hg
    rw [countP_concat]
    obtain rfl | ⟨hg, hne⟩ := hmem g hg
    · rw [hnb', hnb, if_pos (by simpa using hsame)]
    · rw [h.counts g hg, if_neg (by simpa using fun hgs => hne (hgs.trans hsame.symm)),
        Nat.add_zero]
  · have htotal := h.total
    rw [List.map_append, List.sum_append, List.map_cons, List.sum_cons] at htotal ⊢
    dsimp only at htotal ⊢
    rw [List.length_append, List.length_singleton, hnb']
    omega

theorem Tallies.give (h : Tallies tmpValues sts) (st : StorageItem)
    (hlength : sts.length + 1 < 2 ^ 32) : Tallies (give tmpValues st) (sts ++ [st]) := by
  obtain ⟨hnew, heq⟩ | ⟨before, f, nb, after, rfl, heq, hsame⟩ := give_cases tmpValues st
  · rw [heq]
    exact h.concat hnew
  · rw [heq]
    exact h.count_up hsame hlength

theorem tallies_foldl (h : Tallies tmpValues sts) (more : List StorageItem)
    (hlength : (sts ++ more).length < 2 ^ 32) :
    Tallies (more.foldl Tools.give tmpValues) (sts ++ more) := by
  induction more generalizing tmpValues sts with
  | nil => rwa [List.append_nil]
  | cons st more ih =>
      rw [List.append_cons] at hlength ⊢
      refine ih (h.give st ?_) hlength
      simp only [List.length_append, List.length_singleton] at hlength
      omega

theorem tallies_give_all {sts : List StorageItem} (hlength : sts.length < 2 ^ 32) :
    Tallies (sts.foldl Tools.give []) sts :=
  tallies_foldl tallies_nil sts hlength

end Tally

end Mp2p.DB.Tools
