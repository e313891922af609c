import Mathlib.Data.Finset.Sort
import Mp2p.Proof.Fates
import Mp2p.Proof.Refinement

/-!
# Versions of a name

A file gets the name of its upload with the number of the first version that has no record, whoever
wrote the records before it. The numbers are counted in 64 bits, so the search comes to an end only
when one of them is free. Uploads of one name after the other go on as long as each can read what the
one before it has made of the text of the files.
-/

namespace Mp2p.DB.Tools

open Masks Network Master Texts

def version (name : Bytes) (k : ℕ) : Bytes := name ++ ascii ".__" ++ Decimal.digits k

theorem version_injective (name : Bytes) : Function.Injective (version name) := by
  intro j k h
  exact Decimal.digits_injective (List.append_cancel_left h)

section

variable {V : Type}

/-- Version `k` is the least one without a record. -/
structure LeastFree (db : Database V) (name : Bytes) (k : ℕ) : Prop where
  free : db.lookup (fileKey (version name k)) = none
  taken : ∀ j < k, db.lookup (fileKey (version name j)) ≠ none

def freeVersions (db : Database V) (name : Bytes) : Finset ℕ :=
  (Finset.range (2 ^ 64)).filter fun k => (db.lookup (fileKey (version name k))).isNone

variable [Coding V]

/-- The call ends, with version `k` if it returns, and nothing but `files` and the record of that
version changes. -/
structure Creates (w : World V) (fi : FileItem) (k : ℕ) (result : Except Halt FileItem × World V) :
    Prop where
  ends : Fuel.Ends .stuck (fun fuel => (createNewFile fuel fi).run exec w) result
  name_eq : ∀ fi', result.1 = .ok fi' → fi'.name = version fi.name k ∧
    result.2.database.lookup (fileKey (version fi.name k)) = some (Coding.ofFile fi')
  unchanged : ∀ key, key ≠ filesKey → key ≠ fileKey (version fi.name k) →
    result.2.database.lookup key = w.database.lookup key

/-- The search ends on the least version without a record, and an upload becomes that version. -/
def FindsLeast (w : World V) (name : Bytes) : Prop :=
  ∃ k, LeastFree w.database name k ∧
    Fuel.Ends .stuck (fun fuel => (searchName name fuel 0).run exec w) (.ok (version name k), w) ∧
    ∀ fi : FileItem, fi.name = name → ∃ result, Creates w fi k result

def createAll (fuel : ℕ) : World V → List FileItem → List (Except Halt FileItem) × World V
  | w, [] => ([], w)
  | w, fi :: rest =>
      let (result, w) := (createNewFile fuel fi).run exec w
      let (results, w) := createAll fuel w rest
      (result :: results, w)

def Become (w : World V) (name : Bytes) (items : List FileItem) (ks : List ℕ) : Prop :=
  ∃ rounds, ∀ fuel, rounds < fuel →
    (createAll fuel w items).1.map (Except.map FileItem.name) = ks.map fun k => .ok (version name k)

/-- Uploads of these items become versions that rise. -/
def VersionsRise (w : World V) (name : Bytes) (items : List FileItem) : Prop :=
  ∃ ks : List ℕ, ks.Pairwise (· < ·) ∧ Become w name items ks

/-- The value of the files can be decoded, and again after each of these versions is put into it. -/
def Rereads (json : V) : List (FileItem × ℕ) → Prop
  | [] => True
  | (fi, k) :: rest => ∃ mof next, Coding.files? json = some mof ∧
      Coding.ofFiles (addFile mof { fi with name := version fi.name k, id := mof.count }) =
        some next ∧
      Rereads next rest

/-- What the uploads of these items find under `files`, if there are any, can be read each time. -/
def Readable (w : World V) (name : Bytes) (items : List FileItem) : Prop :=
  items ≠ [] → ∃ json, w.database.lookup filesKey = some json ∧
    Rereads json (items.zip (freeVersions w.database name).sort)

end

section Search

variable {V : Type} {db : Database V} {name : Bytes} {w : World V} {k : ℕ}

theorem mem_freeVersions :
    k ∈ freeVersions db name ↔ k < 2 ^ 64 ∧ db.lookup (fileKey (version name k)) = none := by
  rw [freeVersions, Finset.mem_filter, Finset.mem_range, Option.isNone_iff_eq_none]

theorem free_iff_version (i : UInt64) :
    Free db name i ↔ db.lookup (fileKey (version name i.toNat)) = none := Iff.rfl

theorem toNat_ofNat_of_lt (hk : k < 2 ^ 64) : (UInt64.ofNat k).toNat = k := by
  rw [UInt64.toNat_ofNat', Nat.mod_eq_of_lt hk]

/-- A free version that the counter reaches has a least one before it. -/
theorem exists_leastFree (h : k ∈ freeVersions db name) :
    ∃ k, k < 2 ^ 64 ∧ LeastFree db name k := by
  obtain ⟨hk, hfree⟩ := mem_freeVersions.mp h
  have hcounted : Free db name (UInt64.ofNat k) := by
    rw [free_iff_version, toNat_ofNat_of_lt hk]
    exact hfree
  obtain ⟨i, hi, hleast⟩ := exists_least_free ⟨_, hcounted⟩
  refine ⟨i.toNat, i.toNat_lt, hi, fun j hj => ?_⟩
  have hj' := toNat_ofNat_of_lt (hj.trans i.toNat_lt)
  have htaken := hleast (UInt64.ofNat j) (by rwa [UInt64.lt_iff_toNat_lt, hj'])
  rw [free_iff_version, hj'] at htaken
  exact htaken

theorem searchName_ends (hk : k < 2 ^ 64) (h : LeastFree w.database name k) :
    Fuel.Ends .stuck (fun fuel => (searchName name fuel 0).run exec w)
      (.ok (version name k), w) := by
  have hindex := toNat_ofNat_of_lt hk
  have hfree : Free w.database name (UInt64.ofNat k) := by
    rw [free_iff_version, hindex]
    exact h.free
  have hrun := run_searchName_of_taken hfree (i := 0) (by rw [UInt64.toNat_zero, Nat.zero_add])
    (fun j _ hj => by
      rw [UInt64.lt_iff_toNat_lt, hindex] at hj
      exact h.taken j.toNat hj)
  rw [suffixed, hindex] at hrun
  exact .of_rounds hrun rfl

/-- A search that ends has found a version the counter reaches. -/
theorem exists_free_of_ends {found : Bytes} {w' : World V}
    (h : Fuel.Ends .stuck (fun fuel => (searchName name fuel 0).run exec w) (.ok found, w')) :
    ∃ k < 2 ^ 64, w.database.lookup (fileKey (version name k)) = none := by
  obtain ⟨-, hnever⟩ | ⟨i, hfree, -⟩ := searchName_fate name w
  · obtain ⟨rounds, hrounds⟩ := h.eventually
    have hrun := hnever (rounds + 1)
    dsimp only at hrun hrounds
    rw [hrounds (rounds + 1) (Nat.lt_succ_self rounds)] at hrun
    cases hrun
  · exact ⟨i.toNat, i.toNat_lt, hfree⟩

end Search

/-! ### One call -/

section Create

variable {V : Type} [Coding V] {fi : FileItem} {w : World V} {name : Bytes} {k : ℕ}

theorem createNewFile_ends (hk : k < 2 ^ 64) (h : LeastFree w.database fi.name k) :
    Fuel.Ends .stuck (fun fuel => (createNewFile fuel fi).run exec w)
      (registerFile fi (version fi.name k) w) := by
  rw [createNewFile_eq_andThen]
  exact (searchName_ends hk h).andThen (.const _)

structure Registers (w : World V) (fi : FileItem) (name : Bytes) (json next : V)
    (mof : MetaOnFilesItem) : Prop where
  found : w.database.lookup filesKey = some json
  decoded : Coding.files? json = some mof
  encoded : Coding.ofFiles (addFile mof { fi with name := name, id := mof.count }) = some next

theorem Registers.registerFile_eq {json next : V} {mof : MetaOnFilesItem}
    (h : Registers w fi name json next mof) :
    registerFile fi name w = (.ok { fi with name := name, id := mof.count },
      (w.put filesKey next).put (fileKey name)
        (Coding.ofFile { fi with name := name, id := mof.count })) := by
  rw [registerFile, h.found, Option.bind_some, h.decoded]
  dsimp only
  rw [h.encoded]

/-- A file is registered as long as the files can be read and written, and else nothing is. -/
theorem registerFile_cases (fi : FileItem) (name : Bytes) (w : World V) :
    (∃ json next mof, Registers w fi name json next mof) ∨
      ∃ e, registerFile fi name w = (.error e, w) := by
  rw [registerFile]
  cases hfiles : (w.database.lookup filesKey).bind Coding.files? with
  | none => exact .inr ⟨.exception, rfl⟩
  | some mof =>
      obtain ⟨json, hfound, hdecoded⟩ := Option.bind_eq_some_iff.mp hfiles
      dsimp only
      cases hencoded :
          @Coding.ofFiles V _ (addFile mof { fi with name := name, id := mof.count }) with
      | none => exact .inr ⟨.fault, rfl⟩
      | some next => exact .inl ⟨json, next, mof, hfound, hdecoded, hencoded⟩

theorem creates_registerFile (hk : k < 2 ^ 64) (h : LeastFree w.database fi.name k) :
    Creates w fi k (registerFile fi (version fi.name k) w) := by
  refine ⟨createNewFile_ends hk h, fun fi' hfi' => ?_, fun key hfiles hkey => ?_⟩
  · obtain ⟨json, next, mof, hregisters⟩ | ⟨e, herror⟩ :=
      registerFile_cases fi (version fi.name k) w
    · rw [hregisters.registerFile_eq] at hfi' ⊢
      cases hfi'
      exact ⟨rfl, AList.lookup_insert _⟩
    · rw [herror] at hfi'
      cases hfi'
  · obtain ⟨json, next, mof, hregisters⟩ | ⟨e, herror⟩ :=
      registerFile_cases fi (version fi.name k) w
    · rw [hregisters.registerFile_eq, World.put, World.put]
      dsimp only
      rw [AList.lookup_insert_ne hkey, AList.lookup_insert_ne hfiles]
    · rw [herror]

theorem findsLeast_iff : FindsLeast w name ↔
    ∃ k < 2 ^ 64, w.database.lookup (fileKey (version name k)) = none := by
  constructor
  · rintro ⟨k, -, hends, -⟩
    exact exists_free_of_ends hends
  · rintro ⟨j, hj, hnone⟩
    obtain ⟨k, hk, hleast⟩ := exists_leastFree (mem_freeVersions.mpr ⟨hj, hnone⟩)
    refine ⟨k, hleast, searchName_ends hk hleast, ?_⟩
    rintro fi rfl
    exact ⟨_, creates_registerFile hk hleast⟩

end Create

/-! ### One call after the other -/

section Successive

variable {V : Type} {fi : FileItem} {items : List FileItem} {w w' : World V} {name : Bytes} {k : ℕ}
  {ks : List ℕ}

theorem lookup_filesKey_put_fileKey (w : World V) (name : Bytes) (value : V) :
    (w.put (fileKey name) value).database.lookup filesKey = w.database.lookup filesKey := by
  rw [World.put]
  exact AList.lookup_insert_ne fileKey_ne_filesKey.symm

/-- A version that is created is the first of the free ones, and the others stay free. -/
theorem sort_freeVersions (hk : k < 2 ^ 64) (h : LeastFree w.database name k) (next value : V) :
    (freeVersions w.database name).sort =
      k :: (freeVersions ((w.put filesKey next).put (fileKey (version name k)) value).database
        name).sort := by
  set created := (w.put filesKey next).put (fileKey (version name k)) value with hcreated
  have hlookup (j : ℕ) (hj : j ≠ k) : created.database.lookup (fileKey (version name j)) =
      w.database.lookup (fileKey (version name j)) := by
    have hne : fileKey (version name j) ≠ fileKey (version name k) := fun heq =>
      hj (version_injective name (fileKey_injective heq))
    rw [hcreated, World.put, World.put]
    dsimp only
    rw [AList.lookup_insert_ne hne, AList.lookup_insert_ne fileKey_ne_filesKey]
  have hfresh : k ∉ freeVersions created.database name := by
    rw [mem_freeVersions, hcreated, World.put, AList.lookup_insert]
    rintro ⟨-, hnone⟩
    cases hnone
  have hfree : freeVersions w.database name =
      Finset.cons k (freeVersions created.database name) hfresh := by
    ext j
    rw [Finset.mem_cons, mem_freeVersions, mem_freeVersions]
    by_cases hj : j = k
    · subst hj
      exact iff_of_true ⟨hk, h.free⟩ (.inl rfl)
    · rw [hlookup j hj, or_iff_right hj]
  rw [hfree]
  refine Finset.sort_cons _ (fun j hj => ?_) hfresh
  rw [mem_freeVersions] at hj
  by_contra hlt
  rw [hlookup j (by omega)] at hj
  exact h.taken j (by omega) hj.2

variable [Coding V]

theorem become_nil_iff : Become w name [] ks ↔ ks = [] := by
  constructor
  · rintro ⟨rounds, hrounds⟩
    exact (List.map_eq_nil_iff.mp (hrounds (rounds + 1) (Nat.lt_succ_self rounds)).symm)
  · rintro rfl
    exact ⟨0, fun _ _ => rfl⟩

/-- The first upload has a result of its own, and the others go on from where it ends. -/
theorem become_cons_iff {result : Except Halt FileItem}
    (hends : Fuel.Ends .stuck (fun fuel => (createNewFile fuel fi).run exec w) (result, w')) :
    Become w name (fi :: items) ks ↔ ∃ k rest, ks = k :: rest ∧
      result.map FileItem.name = .ok (version name k) ∧ Become w' name items rest := by
  obtain ⟨first, hfirst⟩ := hends.eventually
  have hcreate (fuel : ℕ) (hfuel : first < fuel) : (createAll fuel w (fi :: items)).1.map
      (Except.map FileItem.name) = result.map FileItem.name ::
        (createAll fuel w' items).1.map (Except.map FileItem.name) := by
    rw [createAll, hfirst fuel hfuel]
    rfl
  constructor
  · rintro ⟨rounds, hrounds⟩
    have hrun (fuel : ℕ) (hfuel : max rounds first < fuel) := by
      rw [max_lt_iff] at hfuel
      have h := hrounds fuel hfuel.1
      rwa [hcreate fuel hfuel.2] at h
    cases ks with
    | nil => exact absurd (hrun _ (Nat.lt_succ_self _)) (List.cons_ne_nil _ _)
    | cons k rest =>
        refine ⟨k, rest, rfl, (List.cons.inj (hrun _ (Nat.lt_succ_self _))).1,
          max rounds first, fun fuel hfuel => ?_⟩
        exact (List.cons.inj (hrun fuel hfuel)).2
  · rintro ⟨k, rest, rfl, hname, rounds, hrounds⟩
    refine ⟨max first rounds, fun fuel hfuel => ?_⟩
    rw [max_lt_iff] at hfuel
    rw [hcreate fuel hfuel.1, hrounds fuel hfuel.2, hname, List.map_cons]

/-- Uploads whose text of the files stays readable become the first free versions. -/
theorem become_of_readable (hname : ∀ fi ∈ items, fi.name = name)
    (hcard : items.length ≤ (freeVersions w.database name).card)
    (hreadable : Readable w name items) :
    Become w name items ((freeVersions w.database name).sort.take items.length) := by
  induction items generalizing w with
  | nil => exact become_nil_iff.mpr rfl
  | cons fi rest ih =>
      obtain rfl := hname fi List.mem_cons_self
      obtain ⟨json, hjson, hrereads⟩ := hreadable (List.cons_ne_nil _ _)
      rw [List.length_cons] at hcard
      obtain ⟨j, hj⟩ := Finset.card_pos.mp (Nat.lt_of_lt_of_le (Nat.succ_pos _) hcard)
      obtain ⟨k, hk, hleast⟩ := exists_leastFree hj
      have hsort := sort_freeVersions hk hleast
      rw [hsort json (Coding.ofFile fi), List.zip_cons_cons] at hrereads
      obtain ⟨mof, next, hdecoded, hencoded, hrest⟩ := hrereads
      have hregisters : Registers w fi (version fi.name k) json next mof :=
        ⟨hjson, hdecoded, hencoded⟩
      have hends := createNewFile_ends hk hleast
      rw [hregisters.registerFile_eq] at hends
      set created := { fi with name := version fi.name k, id := mof.count }
      have hcard' := congrArg List.length (hsort next (Coding.ofFile created))
      rw [List.length_cons, Finset.length_sort, Finset.length_sort] at hcard'
      rw [hsort next (Coding.ofFile created), List.length_cons, List.take_succ_cons,
        become_cons_iff hends]
      refine ⟨k, _, rfl, rfl, ih (fun fi' hfi' => hname fi' (List.mem_cons_of_mem _ hfi'))
        (by omega) fun _ => ⟨next, ?_, ?_⟩⟩
      · rw [lookup_filesKey_put_fileKey]
        exact AList.lookup_insert _
      · rwa [← List.cons.inj ((hsort json (Coding.ofFile fi)).symm.trans (hsort next _)) |>.2]

/-- The first of uploads that return has found a free version. -/
theorem exists_free_of_become (h : Become w fi.name (fi :: items) ks) :
    ∃ k, k ∈ freeVersions w.database fi.name := by
  obtain ⟨-, hnever⟩ | ⟨i, hfree, -⟩ := searchName_fate fi.name w
  · have hstuck : Fuel.Never .stuck (fun fuel => (createNewFile fuel fi).run exec w) := by
      rw [createNewFile_eq_andThen]
      exact hnever.andThen
    obtain ⟨rounds, hrounds⟩ := h
    have hrun := hrounds (rounds + 1) (Nat.lt_succ_self rounds)
    have hfirst := hstuck (rounds + 1)
    dsimp only at hfirst
    rw [createAll] at hrun
    dsimp only at hrun
    rw [List.map_cons, hfirst] at hrun
    cases ks with
    | nil => cases hrun
    | cons k rest => cases (List.cons.inj hrun).1
  · exact ⟨i.toNat, mem_freeVersions.mpr ⟨i.toNat_lt, hfree⟩⟩

/-- Uploads that all return have found versions for all, and a text they could read. -/
theorem readable_of_become (hname : ∀ fi ∈ items, fi.name = name) (h : Become w name items ks) :
    items.length ≤ (freeVersions w.database name).card ∧ Readable w name items := by
  induction items generalizing w ks with
  | nil => exact ⟨Nat.zero_le _, fun hne => absurd rfl hne⟩
  | cons fi rest ih =>
      obtain rfl := hname fi List.mem_cons_self
      obtain ⟨j, hj⟩ := exists_free_of_become h
      obtain ⟨k, hk, hleast⟩ := exists_leastFree hj
      have hends := createNewFile_ends hk hleast
      obtain ⟨json, next, mof, hregisters⟩ | ⟨e, herror⟩ :=
        registerFile_cases fi (version fi.name k) w
      · rw [hregisters.registerFile_eq] at hends
        obtain ⟨k', ks', -, -, hrest⟩ := (become_cons_iff hends).mp h
        obtain ⟨hcard, hreadable⟩ := ih (fun fi' hfi' => hname fi' (List.mem_cons_of_mem _ hfi'))
          hrest
        set created := { fi with name := version fi.name k, id := mof.count }
        have hsort := sort_freeVersions hk hleast next (Coding.ofFile created)
        have hlength := congrArg List.length hsort
        rw [List.length_cons, Finset.length_sort, Finset.length_sort] at hlength
        refine ⟨by rw [List.length_cons]; omega, fun _ => ⟨json, hregisters.found, ?_⟩⟩
        rw [hsort, List.zip_cons_cons]
        refine ⟨mof, next, hregisters.decoded, hregisters.encoded, ?_⟩
        by_cases hnil : rest = []
        · rw [hnil, List.zip_nil_left]
          trivial
        · obtain ⟨json', hjson', hrereads⟩ := hreadable hnil
          rw [lookup_filesKey_put_fileKey, World.put, AList.lookup_insert,
            Option.some_inj] at hjson'
          rwa [hjson']
      · rw [herror] at hends
        obtain ⟨k', ks', -, hfirst, -⟩ := (become_cons_iff hends).mp h
        cases hfirst

/-- **Versions that rise.** Uploads of one name after the other get versions that rise exactly when
there are as many free versions and what they find under `files` can be read each time. -/
theorem versionsRise_iff (hname : ∀ fi ∈ items, fi.name = name) :
    VersionsRise w name items ↔
      items.length ≤ (freeVersions w.database name).card ∧ Readable w name items := by
  constructor
  · rintro ⟨ks, -, hbecome⟩
    exact readable_of_become hname hbecome
  · rintro ⟨hcard, hreadable⟩
    have hsorted := (Finset.sortedLT_sort (freeVersions w.database name)).pairwise
    exact ⟨_, hsorted.sublist (List.take_sublist _ _),
      become_of_readable hname hcard hreadable⟩

end Successive

/-! ### Texts -/

section Plain

variable {boost : PropertyTree} (hboost : boost.Correct)
include hboost

/-- Names that need no escape leave the text of the files readable. -/
theorem rereads_of_plain {json : Value boost} {mof : MetaOnFilesItem}
    (h : Represents boost json (.files mof)) {versions : List (FileItem × ℕ)}
    (hplain : ∀ v ∈ versions, PlainString v.1.name) : Rereads json versions := by
  induction versions generalizing json mof with
  | nil => trivial
  | cons v rest ih =>
      obtain ⟨fi, k⟩ := v
      have hname : PlainString (version fi.name k) :=
        plain_append (plain_append (hplain _ List.mem_cons_self) (plain_ascii (by decide)))
          (plain_digits k)
      have hrel := h.files_rel
      rw [Record.files?_files] at hrel
      generalize hdecoded : MetaOnFilesItem.deserialize boost json = decoded at hrel
      cases hrel with
      | @some mof' _ hmof =>
          have hnext := represents_emplaced hboost hmof.1 hmof.2 hname (mof'.count + 1)
            (mof'.totalSize + BitVec.ofNat 128 fi.fileSize.toNat) mof'.count
          generalize hencoded : MetaOnFilesItem.serialize _ = encoded at hnext
          cases hnext with
          | @some next _ hrepresents =>
              exact ⟨mof', next, hdecoded, hencoded,
                ih hrepresents fun v hv => hplain v (List.mem_cons_of_mem _ hv)⟩

theorem readable_of_plain {w : World (Value boost)} {mof : MetaOnFilesItem} {json : Value boost}
    (hjson : w.database.lookup filesKey = some json) (h : Represents boost json (.files mof))
    {name : Bytes} (hplain : PlainString name) {items : List FileItem}
    (hname : ∀ fi ∈ items, fi.name = name) : Readable w name items := by
  refine fun _ => ⟨json, hjson, rereads_of_plain hboost h fun v hv => ?_⟩
  rw [hname v.1 (List.of_mem_zip hv).1]
  exact hplain

end Plain

/-- **The least free version.** Over the texts of any database the search ends on the least version
without a record, and uploads that follow one another get versions that rise, exactly when the counter
of 64 bits reaches enough free versions and each upload can read the text of the files the one before
it has left. -/
theorem createNewFile_versions_iff {boost : PropertyTree} {w : World (Value boost)} {name : Bytes}
    {items : List FileItem} (hname : ∀ fi ∈ items, fi.name = name) :
    FindsLeast w name ∧ VersionsRise w name items ↔
      (∃ k < 2 ^ 64, w.database.lookup (fileKey (version name k)) = none) ∧
        items.length ≤ (freeVersions w.database name).card ∧ Readable w name items := by
  rw [findsLeast_iff, versionsRise_iff hname]

/-- Two files of a name that needs no escape, uploaded to a master that has just started. -/
theorem createNewFile_versions_plain :
    FindsLeast (World.initial : World (Value referenceTree)) (ascii "a") ∧
      VersionsRise (World.initial : World (Value referenceTree)) (ascii "a")
        [newFile ⟨3, 1⟩ (ascii "a"), newFile ⟨5, 2⟩ (ascii "a")] := by
  have hname : ∀ fi ∈ [newFile ⟨3, 1⟩ (ascii "a"), newFile ⟨5, 2⟩ (ascii "a")],
      fi.name = ascii "a" := by
    simp [newFile]
  refine (createNewFile_versions_iff hname).mpr ⟨⟨0, by decide, by decide⟩, ?_, ?_⟩
  · have h₀ : 0 ∈ freeVersions (World.initial : World (Value referenceTree)).database (ascii "a") :=
      mem_freeVersions.mpr ⟨by decide, by decide⟩
    have h₁ : 1 ∈ freeVersions (World.initial : World (Value referenceTree)).database (ascii "a") :=
      mem_freeVersions.mpr ⟨by decide, by decide⟩
    exact Finset.one_lt_card.mpr ⟨0, h₀, 1, h₁, by decide⟩
  · exact readable_of_plain correct_referenceTree rfl
      (represents_filesJson correct_referenceTree) (plain_ascii (by decide)) hname

/-- After the upload of a file named with a quote the text of the files is none. -/
theorem unreadable_quote {mof : MetaOnFilesItem} {next : Value referenceTree}
    (hdecoded : Coding.files? (V := Value referenceTree) filesJson = some mof)
    (hencoded : Coding.ofFiles (addFile mof
      { newFile ⟨3, 1⟩ (ascii "\"") with name := version (ascii "\"") 0, id := mof.count }) =
        some next) : Coding.files? next = none := by
  have hnone : ((Coding.files? (V := Value referenceTree) filesJson).bind fun mof =>
      (Coding.ofFiles (V := Value referenceTree) (addFile mof { newFile ⟨3, 1⟩ (ascii "\"") with
        name := version (ascii "\"") 0, id := mof.count })).bind Coding.files?).isNone := by
    decide +kernel
  rw [hdecoded, Option.bind_some, hencoded, Option.bind_some, Option.isNone_iff_eq_none] at hnone
  exact hnone

/-- The second file named with a quote is not created. -/
theorem not_createNewFile_versions :
    ¬(FindsLeast (World.initial : World (Value referenceTree)) (ascii "\"") ∧
      VersionsRise (World.initial : World (Value referenceTree)) (ascii "\"")
        [newFile ⟨3, 1⟩ (ascii "\""), newFile ⟨5, 2⟩ (ascii "\"")]) := by
  rintro ⟨-, hrise⟩
  obtain ⟨hcard, hreadable⟩ := (versionsRise_iff (by simp [newFile])).mp hrise
  obtain ⟨json, hjson, hrereads⟩ := hreadable (List.cons_ne_nil _ _)
  obtain rfl : filesJson = json := Option.some_inj.mp hjson
  have hleast : LeastFree (World.initial : World (Value referenceTree)).database (ascii "\"") 0 :=
    ⟨by decide, fun j hj => absurd hj (Nat.not_lt_zero j)⟩
  obtain ⟨later, hsort⟩ : ∃ later, Finset.sort (freeVersions
      (World.initial : World (Value referenceTree)).database (ascii "\"")) (· ≤ ·) = 0 :: later :=
    ⟨_, sort_freeVersions (by decide) hleast filesJson filesJson⟩
  rw [← Finset.length_sort (· ≤ ·), hsort] at hcard
  rw [hsort] at hrereads
  cases later with
  | nil => exact absurd hcard (by decide)
  | cons k ks =>
      obtain ⟨mof, next, hdecoded, hencoded, mof', -, hdecoded', -⟩ := hrereads
      rw [unreadable_quote hdecoded hencoded] at hdecoded'
      cases hdecoded'

end Mp2p.DB.Tools
