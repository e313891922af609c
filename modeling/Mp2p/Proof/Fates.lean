import Mp2p.Lib.Fuel
import Mp2p.Proof.Answers
import Mp2p.Proof.Handlers
import Mp2p.Proof.Placement

/-!
# What an upload request comes to

The two loops behind an upload, the round robin and the search for a name, either end the same way
with enough fuel or never end. So does the request, and how it ends is a matter of the database and
the static variables alone.
-/

namespace Mp2p.DB.Tools

open Masks Network

section Creation

variable {V : Type}

theorem searchName_fate (tmpName : Bytes) (w : World V) :
    (¬∃ i, Free w.database tmpName i) ∧
      Fuel.Never .stuck (fun fuel => (searchName tmpName fuel 0).run exec w) ∨
    ∃ i, Free w.database tmpName i ∧ Fuel.Ends .stuck
      (fun fuel => (searchName tmpName fuel 0).run exec w) (.ok (suffixed tmpName i), w) := by
  obtain ⟨hnone, hstuck⟩ | ⟨i, hfree, hsearch⟩ := run_searchName tmpName w
  · left
    exact ⟨not_exists.mpr hnone, fun fuel => congrArg Prod.fst (hstuck fuel)⟩
  · exact .inr ⟨i, hfree, .of_rounds hsearch rfl⟩

variable [Coding V]

def registerFile (fi : FileItem) (name : Bytes) (w : World V) : Except Halt FileItem × World V :=
  match (w.database.lookup filesKey).bind Coding.files? with
  | none => (.error .exception, w)
  | some mof =>
      let fi := { fi with name := name, id := mof.count }
      match Coding.ofFiles (Master.addFile mof fi) with
      | none => (.error .fault, w)
      | some json => (.ok fi, (w.put filesKey json).put (fileKey name) (Coding.ofFile fi))

theorem registerFile_of_some {fi : FileItem} {name : Bytes} {w : World V} {mof : MetaOnFilesItem}
    {json : V} (hfiles : (w.database.lookup filesKey).bind Coding.files? = some mof)
    (hjson : Coding.ofFiles (Master.addFile mof { fi with name := name, id := mof.count }) =
      some json) :
    registerFile fi name w = (.ok { fi with name := name, id := mof.count },
      (w.put filesKey json).put (fileKey name)
        (Coding.ofFile { fi with name := name, id := mof.count })) := by
  rw [registerFile, hfiles]
  dsimp only
  rw [hjson]

theorem createNewFile_eq_andThen (fi : FileItem) (w : World V) :
    (fun fuel => (createNewFile fuel fi).run exec w) =
      Fuel.andThen (fun fuel => (searchName fi.name fuel 0).run exec w)
        fun name w _ => registerFile fi name w := by
  funext fuel
  rw [createNewFile, Program.run_bind, Fuel.andThen]
  cases (searchName fi.name fuel 0).run exec w with
  | mk result w' =>
      cases result with
      | error e => rfl
      | ok name =>
          dsimp only [registerFile]
          rw [run_cmdGet_decode]
          cases (w'.database.lookup filesKey).bind Coding.files? with
          | none => rfl
          | some mof =>
              dsimp only
              rw [Program.run_bind, Program.run_ofOption, Master.addFile]
              cases @Coding.ofFiles V _ _ with
              | none => rfl
              | some json => rfl

end Creation

section Fates

variable {env : Env} {fileSize : FsizeType} {nbParts : PartnumType} {w : World Record}

/-- A file of this name can be created: the files are counted and some suffix is free. -/
def Creatable (w : World Record) (tmpName : Bytes) : Prop :=
  (∃ mof, w.database.lookup filesKey = some (.files mof)) ∧ ∃ i, Free w.database tmpName i

theorem createNewFile_fate (fi : FileItem) (w : World Record) :
    ¬Creatable w fi.name ∧
      (Fuel.Never .stuck (fun fuel => (createNewFile fuel fi).run exec w) ∨
        Fuel.Ends .stuck (fun fuel => (createNewFile fuel fi).run exec w) (.error .exception, w)) ∨
    Creatable w fi.name ∧ ∃ fi' w',
      Fuel.Ends .stuck (fun fuel => (createNewFile fuel fi).run exec w) (.ok fi', w') := by
  rw [createNewFile_eq_andThen]
  obtain ⟨hnone, hnever⟩ | ⟨i, hfree, hends⟩ := searchName_fate fi.name w
  · exact .inl ⟨fun h => hnone h.2, .inl hnever.andThen⟩
  cases hfiles : (w.database.lookup filesKey).bind Coding.files? with
  | none =>
      refine .inl ⟨fun h => ?_, .inr (hends.andThen ?_)⟩
      · obtain ⟨⟨mof, hmof⟩, -⟩ := h
        rw [hmof] at hfiles
        cases hfiles
      · rw [registerFile, hfiles]
        exact .const _
  | some mof =>
      have hlookup := Record.bind_files?_eq_some.mp hfiles
      have hregister : Fuel.Ends .stuck (fun _ : ℕ => registerFile fi (suffixed fi.name i) w)
          (.ok { fi with name := suffixed fi.name i, id := mof.count },
            World.created w mof { fi with name := suffixed fi.name i, id := mof.count }) := by
        rw [registerFile, hfiles]
        exact .const _
      exact .inr ⟨⟨⟨mof, hlookup⟩, i, hfree⟩, _, _, hends.andThen hregister⟩

/-- The entries of a placement: one for each address that is given parts. -/
def piecesGiven (env : Env) (fileSize : FsizeType) (nbParts : PartnumType) (statics : Statics) :
    Placement :=
  ((roundRobin env fileSize nbParts statics.storages statics.currentRoundRobin).elim [] fun given =>
    (storagesAt statics.storages given.1).foldl give [])

def Placeable (env : Env) (fileSize : FsizeType) (nbParts : PartnumType) (statics : Statics) :
    Prop :=
  nbParts.toNat + 1 < 2 ^ 32 ∧ TakeEveryPart env fileSize nbParts statics.storages

theorem placeCached_fate (hvalid : Statics.Valid w.statics)
    (hcached : w.statics.iteratorInitialized = true)
    (hparts : partsOfSize w.database fileSize = some nbParts) :
    ¬Placeable env fileSize nbParts w.statics ∧
      Fuel.Never .stuck (fun fuel => placeCached env fuel fileSize w) ∨
    Placeable env fileSize nbParts w.statics ∧ ∃ fields w', w'.database = w.database ∧
      fields.length = (piecesGiven env fileSize nbParts w.statics).length ∧
      (nbParts ≠ 0 → fields ≠ []) ∧
      Fuel.Ends .stuck (fun fuel => placeCached env fuel fileSize w) (.ok fields, w') := by
  obtain ⟨hn, hcurrent⟩ := hvalid hcached
  have hplace (fuel : ℕ) : placeCached env fuel fileSize w =
      match placePartsLog env fileSize nbParts w.statics.storages fuel 1
        w.statics.currentRoundRobin [] [] with
      | .error e => (.error e, w)
      | .ok (current, tmpValues, _) =>
          ((placementFields env tmpValues).elim (.error .exception) .ok,
            { w with statics := { w.statics with currentRoundRobin := current } }) := by
    rw [placeCached, hparts]
    dsimp only
    rw [placeParts_eq env fileSize nbParts w.statics.storages fuel 1 _ [] []]
    cases placePartsLog env fileSize nbParts w.statics.storages fuel 1
      w.statics.currentRoundRobin [] [] with
    | error e => rfl
    | ok r => rfl
  obtain ⟨hnone, hstuck⟩ | ⟨hmax, places, cursor, rounds, hassign, hrounds⟩ :=
    @placePartsLog_cases env fileSize nbParts w.statics.storages w.statics.currentRoundRobin hn
      hcurrent
  · refine .inl ⟨fun h => ?_, fun fuel => ?_⟩
    · obtain heq | hnone := hnone
      · exact absurd h.1 (by omega)
      · exact roundRobin_eq_none_iff.mp hnone h.2
    · dsimp only
      rw [hplace, hstuck]
  · have htake : TakeEveryPart env fileSize nbParts w.statics.storages := by
      by_contra htake
      rw [roundRobin_eq_none_iff.mpr htake] at hassign
      cases hassign
    have hplaces : Places env fileSize nbParts w.statics.storages w.statics.currentRoundRobin cursor
        ((storagesAt w.statics.storages places).foldl give []) places := ⟨hassign, rfl⟩
    obtain ⟨fields, hfields⟩ := exists_fields hplaces.resolved
    have hlength := (placementFields_eq_some_iff.mp hfields).length_eq
    refine .inr ⟨⟨hmax, htake⟩, fields,
      { w with statics := { w.statics with currentRoundRobin := cursor } }, rfl, ?_, ?_,
      ?_⟩
    · rw [piecesGiven, hassign, ← hlength]
      rfl
    · intro hnb hempty
      have htotal := hplaces.total
      rw [List.eq_nil_of_length_eq_zero (hlength.trans (by rw [hempty]; rfl))] at htotal
      exact hnb (UInt32.toNat_inj.mp htotal.symm)
    · have hrun (fuel : ℕ) : placeCached env fuel fileSize w =
          if fuel ≤ rounds then (.error .stuck, w) else (.ok fields,
            { w with statics := { w.statics with currentRoundRobin := cursor } }) := by
        rw [hplace, hrounds]
        split_ifs
        · rfl
        · dsimp only
          rw [hfields]
          rfl
      exact .of_rounds hrun rfl

/-- The static variables a placement goes by, none when no storages are known or they cannot be
read. -/
def staticsInUse (env : Env) (w : World Record) : Option Statics :=
  if w.statics.iteratorInitialized then some w.statics
  else (allStorages w.database).bind fun storages =>
    if storages = [] then none else some (freshStatics env storages)

def NoStorages (w : World Record) : Prop :=
  w.statics.iteratorInitialized = false ∧ allStorages w.database = some []

/-- The placement of a file: it throws, it has no storages, it never ends, or it gives pieces. -/
theorem getStpfieldsForUpload_fate (hvalid : Statics.Valid w.statics)
    (hparts : partsOfSize w.database fileSize = some nbParts) :
    staticsInUse env w = none ∧ ¬NoStorages w ∧
      Fuel.Ends .stuck (fun fuel => (getStpfieldsForUpload env fuel fileSize).run exec w)
        (.error .exception, w) ∨
    staticsInUse env w = none ∧ NoStorages w ∧
      Fuel.Ends .stuck (fun fuel => (getStpfieldsForUpload env fuel fileSize).run exec w)
        (.ok [], World.reset w) ∨
    ¬NoStorages w ∧ ∃ statics, staticsInUse env w = some statics ∧
      (¬Placeable env fileSize nbParts statics ∧
        Fuel.Never .stuck (fun fuel => (getStpfieldsForUpload env fuel fileSize).run exec w) ∨
      Placeable env fileSize nbParts statics ∧ ∃ fields w', w'.database = w.database ∧
        fields.length = (piecesGiven env fileSize nbParts statics).length ∧
        (nbParts ≠ 0 → fields ≠ []) ∧
        Fuel.Ends .stuck (fun fuel => (getStpfieldsForUpload env fuel fileSize).run exec w)
          (.ok fields, w')) := by
  simp only [run_getStpfieldsForUpload]
  obtain ⟨hinit, hrun⟩ | ⟨hinit, ⟨hnone, hrun⟩ | ⟨hempty, hrun⟩ | ⟨storages, hne, hsome, hrun⟩⟩ :=
    initRoundRobin_cases env w
  · simp only [hrun]
    refine .inr (.inr ⟨fun h => ?_, w.statics, if_pos hinit, placeCached_fate hvalid hinit hparts⟩)
    rw [h.1] at hinit
    cases hinit
  · simp only [hrun]
    refine .inl ⟨?_, fun h => ?_, .const _⟩
    · rw [staticsInUse, hinit, hnone]
      rfl
    · rw [h.2] at hnone
      cases hnone
  · simp only [hrun]
    refine .inr (.inl ⟨?_, ⟨hinit, hempty⟩, .const _⟩)
    rw [staticsInUse, hinit, hempty]
    rfl
  · simp only [hrun]
    refine .inr (.inr ⟨fun h => ?_, freshStatics env storages, ?_, ?_⟩)
    · rw [h.2, Option.some_inj] at hsome
      exact hne hsome.symm
    · rw [staticsInUse, hinit, hsome, Option.bind_some, if_neg hne]
      rfl
    · set w₁ : World Record := { w with statics := freshStatics env storages } with hw₁
      have hfresh : Statics.Valid w₁.statics := valid_freshStatics env hne
      exact placeCached_fate hfresh rfl hparts

end Fates

end Mp2p.DB.Tools
