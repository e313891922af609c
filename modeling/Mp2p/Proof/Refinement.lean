import Mp2p.Lib.Simulation
import Mp2p.Proof.Restarts
import Mp2p.Proof.Serial
import Mp2p.Proof.Texts

/-!
# The master over texts refines the master over records

Each command on a text is one on the record the text stands for. As long as no name that is uploaded
and no address of a storage needs an escape, the handlers over texts mirror those over records: they
make the same commands, send the same packets and end alike, alone and in any interleaving.
-/

namespace Mp2p.Texts

open Masks Network DB DB.Tools Master

def Asks (boost : PropertyTree) : Command (Value boost) → Command Record → Prop
  | .get key, .get key' => key = key'
  | .put key text, .put key' record => key = key' ∧ Represents boost text record
  | .statics, .statics => True
  | .setStatics statics, .setStatics statics' => statics = statics'
  | .send packet, .send packet' => packet = packet'
  | _, _ => False

def Answers (boost : PropertyTree) :
    (command : Command (Value boost)) → (command' : Command Record) → command.Answer →
    command'.Answer → Prop
  | .get _, .get _, text, record => Option.Rel (Represents boost) text record
  | .statics, .statics, statics, statics' => statics = statics'
  | _, _, _, _ => True

/-- The texts under the keys stand for the records under them. -/
structure Related (boost : PropertyTree) (w : World (Value boost)) (w' : World Record) : Prop where
  database : ∀ key, Option.Rel (Represents boost) (w.database.lookup key) (w'.database.lookup key)
  statics : w.statics = w'.statics
  sent : w.sent = w'.sent

theorem Related.uploads {boost : PropertyTree} {w : World (Value boost)} {w' : World Record}
    (h : Related boost w w') : uploads w = uploads w' := by
  rw [Master.uploads, Master.uploads, h.sent]

theorem Related.registrations {boost : PropertyTree} {w : World (Value boost)} {w' : World Record}
    (h : Related boost w w') : registrations w = registrations w' := by
  rw [Master.registrations, Master.registrations, h.sent]

abbrev Mirrored {α β : Type} (boost : PropertyTree) (Q : α → β → Prop) (p : Handler (Value boost) α)
    (q : Handler Record β) : Prop :=
  Program.Mirrors (Asks boost) (Answers boost) Q p q

section Commands

variable {boost : PropertyTree} {command : Command (Value boost)} {command' : Command Record}
  {w : World (Value boost)}
  {w' : World Record}

theorem Related.exec (hasks : Asks boost command command') (h : Related boost w w') :
    Answers boost command command' (exec command w).1 (exec command' w').1 ∧
      Related boost (exec command w).2 (exec command' w').2 := by
  cases command with
  | get key =>
      cases command' with
      | get key' =>
          obtain rfl : key = key' := hasks
          exact ⟨h.database key, h⟩
      | _ => exact hasks.elim
  | put key text =>
      cases command' with
      | put key' record =>
          obtain ⟨rfl, hrepresents⟩ := hasks
          refine ⟨trivial, fun key' => ?_, h.statics, h.sent⟩
          simp only [exec, exec, World.put]
          by_cases hkey : key' = key
          · subst hkey
            rw [AList.lookup_insert, AList.lookup_insert]
            exact .some hrepresents
          · rw [AList.lookup_insert_ne hkey, AList.lookup_insert_ne hkey]
            exact h.database key'
      | _ => exact hasks.elim
  | statics =>
      cases command' with
      | statics => exact ⟨h.statics, h⟩
      | _ => exact hasks.elim
  | setStatics statics =>
      cases command' with
      | setStatics statics' =>
          obtain rfl : statics = statics' := hasks
          exact ⟨trivial, h.database, rfl, h.sent⟩
      | _ => exact hasks.elim
  | send packet =>
      cases command' with
      | send packet' =>
          obtain rfl : packet = packet' := hasks
          exact ⟨trivial, h.database, h.statics, congrArg (· ++ [packet]) h.sent⟩
      | _ => exact hasks.elim

theorem Related.may {answer : command.Answer} {v : World (Value boost)}
    (hasks : Asks boost command command')
    (h : Related boost w w') (hmay : may command w answer v) :
    ∃ answer' v', may command' w' answer' v' ∧
      Answers boost command command' answer answer' ∧ Related boost v v' := by
  cases command with
  | statics =>
      cases command' with
      | statics =>
          obtain rfl : v = w := hmay
          exact ⟨answer, w', rfl, rfl, h⟩
      | _ => exact hasks.elim
  | _ =>
      obtain ⟨rfl, rfl⟩ := Prod.mk.inj hmay
      refine ⟨_, _, ?_, h.exec hasks⟩
      cases command' with
      | statics => exact hasks.elim
      | _ => exact rfl

end Commands

section Programs

variable {boost : PropertyTree}

/-! ### What is decoded -/

theorem Represents.file_rel {text : Bytes} {record : Record} (h : Represents boost text record) :
    Option.Rel (fun fi fi' => fi = fi' ∧ (Item.file fi').Plain) (FileItem.deserialize boost text)
      (Coding.file? record) := by
  rw [h.file]
  cases record with
  | file fi => exact .some ⟨rfl, h.plain⟩
  | _ => exact .none

theorem Represents.files_rel {text : Bytes} {record : Record} (h : Represents boost text record) :
    Option.Rel (fun mof mof' => mof.Same mof' ∧ Plain (.files mof'))
      (MetaOnFilesItem.deserialize boost text) (Coding.files? record) := by
  have hfiles := h.files
  generalize MetaOnFilesItem.deserialize boost text = decoded at hfiles ⊢
  generalize hrecord : Coding.files? record = decoded' at hfiles ⊢
  cases hfiles with
  | none => exact .none
  | @some mof mof' hsame =>
      have hplain := h.plain
      rw [Record.files?_eq_some.mp hrecord] at hplain
      exact .some ⟨hsame, hplain⟩

theorem Represents.storage_rel {text : Bytes} {record : Record}
    (h : Represents boost text record) :
    Option.Rel Eq (StorageItem.deserialize boost text) (Coding.storage? record) := by
  rw [h.storage]
  cases Coding.storage? record with
  | none => exact .none
  | some si => exact .some rfl

theorem Represents.storages_rel {text : Bytes} {record : Record}
    (h : Represents boost text record) :
    Option.Rel Eq (MetaOnStoragesItem.deserialize boost text) (Coding.storages? record) := by
  rw [h.storages]
  cases Coding.storages? record with
  | none => exact .none
  | some mos => exact .some rfl

theorem Represents.storageSizes_rel {text : Bytes} {record : Record}
    (h : Represents boost text record) :
    Option.Rel Eq (deserialize boost (sizesOfTree boost) text) (Coding.storageSizes? record) := by
  rw [h.storageSizes]
  cases Coding.storageSizes? record with
  | none => exact .none
  | some values => exact .some rfl

/-! ### Commands -/

theorem mirrors_tryGet (key : Bytes) :
    Mirrored boost (Option.Rel (Represents boost)) (tryGet key) (tryGet key) :=
  Program.mirrors_perform rfl

theorem mirrors_cmdGet (key : Bytes) :
    Mirrored boost (Represents boost) (cmdGet key) (cmdGet key) :=
  Program.mirrors_bind (mirrors_tryGet key) fun _ _ hvalue => Program.mirrors_ofOption hvalue

theorem mirrors_cmdPut (key : Bytes) {text : Bytes} {record : Record}
    (h : Represents boost text record) :
    Mirrored boost (fun _ _ => True) (cmdPut key text) (cmdPut key record) :=
  (Program.mirrors_perform ⟨rfl, h⟩).mono fun _ _ _ => trivial

theorem mirrors_blockingSend (packet : Packet) :
    Mirrored boost (fun _ _ => True) (blockingSend packet) (blockingSend packet) := by
  have hasks : Asks boost (.send packet) (.send packet) := rfl
  exact (Program.mirrors_perform hasks).mono fun _ _ _ => trivial

theorem mirrors_statics :
    Mirrored boost Eq (.perform Command.statics) (.perform Command.statics) :=
  Program.mirrors_perform trivial

theorem mirrors_setStatics (statics : Statics) :
    Mirrored boost (fun _ _ => True) (.perform (Command.setStatics statics))
      (.perform (Command.setStatics statics)) := by
  have hasks : Asks boost (.setStatics statics) (.setStatics statics) := rfl
  exact (Program.mirrors_perform hasks).mono fun _ _ _ => trivial

/-! ### Procedures -/

theorem mirrors_numberOfParts (fileSize : FsizeType) :
    Mirrored boost Eq (numberOfParts fileSize) (numberOfParts fileSize) := by
  refine Program.mirrors_bind (mirrors_cmdGet _) fun json record hjson => ?_
  refine Program.mirrors_bind (Program.mirrors_ofOption hjson.storageSizes_rel) ?_
  rintro values _ rfl
  exact Program.mirrors_pure rfl

theorem mirrors_getStorages (ids : List StidType) :
    Mirrored boost Eq (getStorages ids) (getStorages ids) := by
  induction ids with
  | nil => exact Program.mirrors_pure rfl
  | cons i rest ih =>
      refine Program.mirrors_bind (mirrors_cmdGet _) fun json record hjson => ?_
      refine Program.mirrors_bind (Program.mirrors_ofOption hjson.storage_rel) ?_
      rintro st _ rfl
      refine Program.mirrors_bind ih ?_
      rintro storages _ rfl
      exact Program.mirrors_pure rfl

theorem mirrors_getAllStorages :
    Mirrored boost Eq (getAllStorages) getAllStorages := by
  refine Program.mirrors_bind (mirrors_cmdGet _) fun json record hjson => ?_
  refine Program.mirrors_bind (Program.mirrors_ofOption hjson.storages_rel) ?_
  rintro mos _ rfl
  refine Program.mirrors_bind (mirrors_getStorages _) ?_
  rintro storages _ rfl
  refine Program.mirrors_bind mirrors_statics ?_
  rintro statics _ rfl
  exact Program.mirrors_bind (mirrors_setStatics _) fun _ _ _ => Program.mirrors_pure rfl

theorem plain_ascii {s : Bytes} (h : ∀ byte ∈ s, Json.Verbatim byte ∧ byte.toNat < 128) :
    PlainString s :=
  ⟨Utf8.valid_of_ascii fun byte hbyte => (h byte hbyte).2, fun byte hbyte => (h byte hbyte).1⟩

theorem plain_append {s t : Bytes} (hs : PlainString s) (ht : PlainString t) :
    PlainString (s ++ t) :=
  ⟨Utf8.valid_append hs.1 ht.1, List.forall_mem_append.mpr ⟨hs.2, ht.2⟩⟩

theorem plain_digits (n : ℕ) : PlainString (Decimal.digits n) := by
  refine plain_ascii fun byte hbyte => ?_
  have hdigit := Decimal.isDigit_of_mem_digits hbyte
  have hlow := hdigit.1
  have hhigh := hdigit.2
  refine ⟨⟨⟨by omega, ?_⟩, ?_⟩, by omega⟩
  · rintro rfl
    exact absurd hlow (by decide)
  · rintro rfl
    exact absurd hhigh (by decide)

theorem plain_blankHash : PlainString blankHash.toList := plain_ascii (by decide)

/-- The name that is found is plain if the one it is made of is. -/
theorem mirrors_searchName {tmpName : Bytes} (hplain : PlainString tmpName) (fuel : ℕ) :
    ∀ i, Mirrored boost (fun name name' => name = name' ∧ PlainString name')
      (searchName tmpName fuel i) (searchName tmpName fuel i) := by
  induction fuel with
  | zero => exact fun i => Program.mirrors_throw _
  | succ fuel ih =>
      intro i
      refine Program.mirrors_bind (mirrors_tryGet _) fun text record hvalue => ?_
      cases hvalue with
      | some _ => exact ih (i + 1)
      | none =>
          have hsuffix : PlainString (ascii ".__") := plain_ascii (by decide)
          exact Program.mirrors_pure
            ⟨rfl, plain_append (plain_append hplain hsuffix) (plain_digits _)⟩

theorem emplace_ne_nil (names : NameById) (id : FidType) (name : Bytes) :
    (names.emplace id name).entries ≠ [] := by
  intro hnil
  have hlookup := names.lookup_emplace id name id
  rw [AList.lookup, hnil, if_pos rfl] at hlookup
  cases hold : names.lookup id with
  | none => rw [hold] at hlookup; cases hlookup
  | some old => rw [hold] at hlookup; cases hlookup

variable (hboost : boost.Correct)
include hboost

/-- The record of the files with a name more. -/
theorem represents_emplaced {mof' mof : MetaOnFilesItem} (hsame : mof'.Same mof)
    (hnames : Plain (.files mof)) {name : Bytes} (hname : PlainString name) (count : UInt64)
    (totalSize : UInt128) (id : FidType) :
    Option.Rel (Represents boost)
      (MetaOnFilesItem.serialize ⟨count, totalSize, mof'.nameById.emplace id name⟩)
      (some (.files ⟨count, totalSize, mof.nameById.emplace id name⟩)) := by
  have hemplaced : MetaOnFilesItem.Same ⟨count, totalSize, mof'.nameById.emplace id name⟩
      ⟨count, totalSize, mof.nameById.emplace id name⟩ := by
    refine ⟨rfl, rfl, fun id' => ?_⟩
    rw [NameById.lookup_emplace, NameById.lookup_emplace, hsame.2.2]
  have hplain : Plain (.files ⟨count, totalSize, mof.nameById.emplace id name⟩) := by
    intro id' other hother
    rw [NameById.lookup_emplace, Option.or_eq_some_iff] at hother
    rcases hother with hold | ⟨-, hnew⟩
    · exact hnames id' other hold
    · split_ifs at hnew
      cases hnew
      exact hname
  obtain ⟨text, htext, hrepresents⟩ :=
    represents_files hboost hemplaced hplain (emplace_ne_nil _ _ _)
  rw [htext]
  exact .some hrepresents

theorem mirrors_createNewFile (fuel : ℕ) {fi : FileItem} (hplain : (Item.file fi).Plain) :
    Mirrored boost Eq (createNewFile fuel fi) (createNewFile fuel fi) := by
  obtain ⟨hname, hhash, hparts⟩ := hplain
  refine Program.mirrors_bind (mirrors_searchName hname fuel 0) ?_
  rintro name _ ⟨rfl, hname'⟩
  refine Program.mirrors_bind (mirrors_cmdGet _) fun json record hjson => ?_
  refine Program.mirrors_bind (Program.mirrors_ofOption hjson.files_rel) ?_
  rintro mof' mof ⟨hsame, hnames⟩
  dsimp only
  rw [hsame.1, hsame.2.1]
  refine Program.mirrors_bind (Program.mirrors_ofOption (represents_emplaced hboost hsame hnames hname'
    _ _ _)) fun text record hrepresents => ?_
  refine Program.mirrors_bind (mirrors_cmdPut _ hrepresents) fun _ _ _ => ?_
  refine Program.mirrors_bind (mirrors_cmdPut _ (represents_file hboost ⟨hname', hhash, hparts⟩))
    fun _ _ _ => ?_
  exact Program.mirrors_pure rfl

omit hboost

theorem mirrors_initRoundRobin (env : Env) :
    Mirrored boost Eq (initRoundRobin env) (initRoundRobin env) := by
  refine Program.mirrors_bind mirrors_statics ?_
  rintro statics _ rfl
  by_cases hinitialized : statics.iteratorInitialized
  · rw [if_pos hinitialized, if_pos hinitialized]
    exact Program.mirrors_pure rfl
  rw [if_neg hinitialized, if_neg hinitialized]
  refine Program.mirrors_bind mirrors_getAllStorages ?_
  rintro tmp _ rfl
  by_cases hnone : tmp.length = 0
  · rw [if_pos hnone, if_pos hnone]
    exact Program.mirrors_pure rfl
  rw [if_neg hnone, if_neg hnone]
  exact Program.mirrors_bind (mirrors_setStatics _) fun _ _ _ => Program.mirrors_pure rfl

theorem mirrors_ofOption_eq {α : Type} (e : Halt) (x : Option α) :
    Mirrored boost Eq (.ofOption e x) (.ofOption e x) :=
  (Program.mirrors_ofOption_self e x).mono fun _ _ h => h.1

theorem mirrors_getStpfieldsForUpload (env : Env) (fuel : ℕ) (fileSize : FsizeType) :
    Mirrored boost Eq (getStpfieldsForUpload env fuel fileSize)
      (getStpfieldsForUpload env fuel fileSize) := by
  refine Program.mirrors_bind (mirrors_initRoundRobin env) ?_
  rintro ready _ rfl
  cases ready with
  | false => exact Program.mirrors_pure rfl
  | true =>
      refine Program.mirrors_bind (mirrors_numberOfParts fileSize) ?_
      rintro nbParts _ rfl
      refine Program.mirrors_bind mirrors_statics ?_
      rintro statics _ rfl
      refine Program.mirrors_bind (Program.mirrors_ofExcept_self _) ?_
      rintro ⟨current, tmpValues⟩ _ rfl
      refine Program.mirrors_bind (mirrors_setStatics _) fun _ _ _ => ?_
      exact mirrors_ofOption_eq _ _

/-! ### Handlers -/

theorem mirrors_sendAck (packet : Packet) (ack : ErrorCode) :
    Mirrored boost (fun _ _ => True) (sendAck packet ack) (sendAck packet ack) := by
  refine Program.mirrors_bind (mirrors_ofOption_eq _ _) ?_
  rintro fromtoDst _ rfl
  exact mirrors_blockingSend _

theorem mirrors_sendError (packet : Packet) (code : ErrorCode) :
    Mirrored boost Eq (sendError packet code) (sendError packet code) :=
  Program.mirrors_bind (mirrors_sendAck packet code) fun _ _ _ => Program.mirrors_pure rfl

theorem mirrors_firstField (fields : List StpField) :
    Mirrored boost (fun _ _ => True) (firstField fields) (firstField fields) := by
  rw [firstField, firstField]
  by_cases hnil : fields = []
  · rw [if_pos hnil, if_pos hnil]
    exact Program.mirrors_throw _
  · rw [if_neg hnil, if_neg hnil]
    exact Program.mirrors_pure trivial

theorem mirrors_deleteParts (packet : Packet) (parts : List PartItem) :
    Mirrored boost Eq (deleteParts packet parts) (deleteParts packet parts) := by
  induction parts with
  | nil => exact Program.mirrors_pure rfl
  | cons part rest ih =>
      rw [deleteParts, deleteParts]
      by_cases hnone : part.locations.length = 0
      · rw [if_pos hnone, if_pos hnone]
        exact mirrors_sendError packet _
      · rw [if_neg hnone, if_neg hnone]
        exact Program.mirrors_bind (mirrors_blockingSend _) fun _ _ _ => ih

theorem mirrors_cmDownReq (r : Request) :
    Mirrored boost Eq (cmDownReq r) (cmDownReq r) := by
  refine Program.mirrors_bind (mirrors_ofOption_eq _ _) ?_
  rintro fname _ rfl
  refine Program.mirrors_bind (mirrors_tryGet _) fun text record hvalue => ?_
  cases hvalue with
  | none => exact mirrors_sendError r.packet _
  | some hjson =>
      refine Program.mirrors_bind (Program.mirrors_ofOption hjson.file_rel) ?_
      rintro fi _ ⟨rfl, -⟩
      refine Program.mirrors_bind mirrors_getAllStorages ?_
      rintro storages _ rfl
      cases downloadFields r.env storages fi.parts with
      | none => exact mirrors_sendError r.packet _
      | some fields =>
          refine Program.mirrors_bind (mirrors_blockingSend _) fun _ _ _ => ?_
          exact Program.mirrors_bind (mirrors_firstField fields) fun _ _ _ =>
            Program.mirrors_pure rfl

theorem mirrors_cmDelReq (r : Request) :
    Mirrored boost Eq (cmDelReq r) (cmDelReq r) := by
  refine Program.mirrors_bind (mirrors_ofOption_eq _ _) ?_
  rintro fname _ rfl
  refine Program.mirrors_bind (mirrors_tryGet _) fun text record hvalue => ?_
  cases hvalue with
  | none => exact mirrors_sendError r.packet _
  | some hjson =>
      refine Program.mirrors_bind (Program.mirrors_ofOption hjson.file_rel) ?_
      rintro fi _ ⟨rfl, -⟩
      exact Program.mirrors_bind mirrors_getAllStorages fun _ _ _ => mirrors_deleteParts r.packet _

theorem mirrors_replicate (r : Request) (req : SM.PartAck) (part : PartItem) :
    Mirrored boost (fun _ _ => True) (replicate r req part)
      (replicate r req part) := by
  refine Program.mirrors_bind mirrors_getAllStorages ?_
  rintro storages _ rfl
  cases (r.env.shuffle storages).find? fun st => st.id ∉ part.locations with
  | none => exact Program.mirrors_pure trivial
  | some st =>
      refine Program.mirrors_bind (mirrors_ofOption_eq _ _) ?_
      rintro addr _ rfl
      exact mirrors_blockingSend _

/-- What a part ack adds is plain. -/
theorem plain_ackParts (req : SM.PartAck) {parts : List PartItem}
    (hparts : ∀ it ∈ parts, PlainString it.hash.toList) :
    ∀ it ∈ (ackParts req parts).1, PlainString it.hash.toList := by
  rw [ackParts_fst]
  intro it hit
  rcases List.mem_append.mp hit with hold | hnew
  · obtain ⟨part, hpart, rfl⟩ := List.mem_map.mp hold
    have hhash : (addAck req part).hash = part.hash := by
      rw [addAck]
      split <;> rfl
    rw [hhash]
    exact hparts part hpart
  · rw [List.mem_singleton.mp hnew]
    exact plain_blankHash

/-- The name a packet asks to upload, or the address a storage registers from, needs no escape. -/
def PlainRequest (r : Request) : Prop :=
  (kindOf r.packet = .upReq →
    ∀ req fname, readUpReq r.packet = some (req, fname) → PlainString fname) ∧
  (kindOf r.packet = .idReq →
    ∀ hostAddr, r.env.remoteAddress = some hostAddr → PlainString hostAddr)

theorem plain_of_kind {r : Request} (hup : kindOf r.packet ≠ .upReq)
    (hid : kindOf r.packet ≠ .idReq) : PlainRequest r :=
  ⟨fun hkind => absurd hkind hup, fun hkind => absurd hkind hid⟩

include hboost

theorem mirrors_cmUpReq {r : Request}
    (hplain : ∀ req fname, readUpReq r.packet = some (req, fname) → PlainString fname) :
    Mirrored boost Eq (cmUpReq r) (cmUpReq r) := by
  refine Program.mirrors_bind (Program.mirrors_ofOption_self _ _) ?_
  rintro ⟨req, fname⟩ _ ⟨rfl, hread⟩
  refine Program.mirrors_bind (mirrors_numberOfParts _) ?_
  rintro nbParts _ rfl
  dsimp only
  by_cases hnone : nbParts = 0
  · rw [if_pos hnone, if_pos hnone]
    exact mirrors_sendError r.packet _
  rw [if_neg hnone, if_neg hnone]
  refine Program.mirrors_bind (mirrors_getStpfieldsForUpload _ _ _) ?_
  rintro fields _ rfl
  by_cases hfew : fields.length < req.rdcy.toNat
  · rw [if_pos hfew, if_pos hfew]
    exact mirrors_sendError r.packet _
  rw [if_neg hfew, if_neg hfew]
  refine Program.mirrors_bind
    (mirrors_createNewFile hboost r.fuel ⟨hplain req fname hread, plain_blankHash, nofun⟩) ?_
  rintro fi _ rfl
  refine Program.mirrors_bind (mirrors_blockingSend _) fun _ _ _ => ?_
  exact Program.mirrors_bind (mirrors_firstField fields) fun _ _ _ => Program.mirrors_pure rfl

theorem mirrors_smPartAck (r : Request) :
    Mirrored boost Eq (smPartAck r) (smPartAck r) := by
  refine Program.mirrors_bind (mirrors_cmdGet _) fun json record hjson => ?_
  refine Program.mirrors_bind (Program.mirrors_ofOption hjson.files_rel) ?_
  rintro mof' mof ⟨hsame, -⟩
  refine Program.mirrors_bind (mirrors_ofOption_eq _ _) ?_
  rintro fid _ rfl
  rw [hsame.2.2]
  refine Program.mirrors_bind (mirrors_ofOption_eq _ _) ?_
  rintro fname _ rfl
  refine Program.mirrors_bind (mirrors_cmdGet _) fun json record hjson => ?_
  refine Program.mirrors_bind (Program.mirrors_ofOption hjson.file_rel) ?_
  rintro fi _ ⟨rfl, hname, hhash, hparts⟩
  refine Program.mirrors_bind (mirrors_ofOption_eq _ _) ?_
  rintro req _ rfl
  have hrepresents := @represents_file _ hboost { fi with parts := (ackParts req fi.parts).1 }
    ⟨hname, hhash, plain_ackParts req hparts⟩
  refine Program.mirrors_bind (mirrors_cmdPut _ hrepresents) fun _ _ _ => ?_
  refine Program.mirrors_bind (mirrors_ofOption_eq _ _) ?_
  rintro part _ rfl
  dsimp only
  by_cases henough : part.locations.length ≥ fi.redundancy.toNat
  · rw [if_pos henough, if_pos henough]
    exact Program.mirrors_bind (mirrors_sendAck _ _) fun _ _ _ => Program.mirrors_pure rfl
  · rw [if_neg henough, if_neg henough]
    exact Program.mirrors_bind (mirrors_replicate r req part) fun _ _ _ => Program.mirrors_pure rfl

theorem mirrors_smIdReq {r : Request}
    (hplain : ∀ hostAddr, r.env.remoteAddress = some hostAddr → PlainString hostAddr) :
    Mirrored boost Eq (smIdReq r) (smIdReq r) := by
  refine Program.mirrors_bind (mirrors_cmdGet _) fun json record hjson => ?_
  refine Program.mirrors_bind (Program.mirrors_ofOption hjson.storages_rel) ?_
  rintro mos _ rfl
  refine Program.mirrors_bind (Program.mirrors_ofOption_self _ _) ?_
  rintro hostAddr _ ⟨rfl, haddress⟩
  refine Program.mirrors_bind (mirrors_ofOption_eq _ _) ?_
  rintro req _ rfl
  have hstorage := @represents_storage _ hboost ⟨mos.count, hostAddr, req.port, req.avspace⟩
    (hplain hostAddr haddress)
  refine Program.mirrors_bind (mirrors_cmdPut _ hstorage) fun _ _ _ => ?_
  refine Program.mirrors_bind (mirrors_cmdPut _ (represents_storages hboost _)) fun _ _ _ => ?_
  exact Program.mirrors_bind (mirrors_blockingSend _) fun _ _ _ => Program.mirrors_pure rfl

/-- **Any packet.** The dispatchers choose the same handler, and the handlers mirror each other. -/
theorem mirrors_recvDispatcher {r : Request} (hplain : PlainRequest r) :
    Mirrored boost Eq (recvDispatcher r) (recvDispatcher r) := by
  rw [recvDispatcher_eq, recvDispatcher_eq]
  cases hkind : kindOf r.packet with
  | invalid => exact mirrors_sendError r.packet _
  | ignored => exact Program.mirrors_pure rfl
  | upReq => exact mirrors_cmUpReq hboost (hplain.1 hkind)
  | downReq => exact mirrors_cmDownReq r
  | delReq => exact mirrors_cmDelReq r
  | partAck => exact mirrors_smPartAck hboost r
  | idReq => exact mirrors_smIdReq hboost (hplain.2 hkind)

omit hboost in
/-- A key that is missing gets its first text. -/
theorem mirrors_fill {α β : Type} {Q : α → β → Prop} (key : Bytes) {text : Bytes} {record : Record}
    (h : Represents boost text record) {f : Unit → Handler (Value boost) α}
    {g : Unit → Handler Record β}
    (hnext : Mirrored boost Q (f ()) (g ())) :
    Mirrored boost Q
      (tryGet key >>= fun old => if old.isNone then cmdPut key text >>= f else f ())
      (tryGet key >>= fun old => if old.isNone then cmdPut key record >>= g else g ()) := by
  refine Program.mirrors_bind (mirrors_tryGet key) fun old old' hold => ?_
  cases hold with
  | some _ => exact hnext
  | none => exact Program.mirrors_bind (mirrors_cmdPut key h) fun _ _ _ => hnext

theorem mirrors_getInstance : Mirrored boost (fun _ _ => True) getInstance getInstance := by
  refine mirrors_fill _ (represents_storageSizesJson hboost) ?_
  refine mirrors_fill _ (represents_storagesJson hboost) ?_
  refine Program.mirrors_bind (mirrors_tryGet _) fun old old' hold => ?_
  cases hold with
  | some _ => exact Program.mirrors_pure trivial
  | none => exact mirrors_cmdPut _ (represents_filesJson hboost)

/-- The texts an empty database is filled with stand for the first records. -/
theorem related_initial : Related boost .initial .initial := by
  have hempty : Related boost ⟨∅, ⟨false, 0, []⟩, []⟩ ⟨∅, ⟨false, 0, []⟩, []⟩ :=
    ⟨fun _ => .none, rfl, rfl⟩
  exact ((mirrors_getInstance hboost).run (fun _ _ _ _ hasks hrelated => hrelated.exec hasks)
    hempty).2

end Programs

/-! ### What is looked up -/

section Lookups

def fileOf {V : Type} [Coding V] (w : World V) (name : Bytes) : Option FileItem :=
  (w.database.lookup (fileKey name)).bind Coding.file?

def nameOf {V : Type} [Coding V] (w : World V) (fid : FidType) : Option Bytes :=
  ((w.database.lookup filesKey).bind Coding.files?).bind fun mof => mof.nameById.lookup fid

theorem fileOf_eq_some {w : World Record} {name : Bytes} {fi : FileItem} :
    fileOf w name = some fi ↔ w.database.lookup (fileKey name) = some (.file fi) := by
  simp only [fileOf, Option.bind_eq_some_iff, Record.file?_eq_some, exists_eq_right]

variable {boost : PropertyTree} {w : World (Value boost)} {w' : World Record}

theorem Related.fileOf_eq (h : Related boost w w') (name : Bytes) :
    fileOf w name = fileOf w' name := by
  have hkey := h.database (fileKey name)
  rw [fileOf, fileOf]
  generalize w.database.lookup (fileKey name) = text at hkey ⊢
  generalize w'.database.lookup (fileKey name) = record at hkey ⊢
  cases hkey with
  | none => rfl
  | some hjson => exact hjson.file

/-- Of the files the texts say what the records say, the names in any order. -/
theorem Related.files_rel (h : Related boost w w') :
    Option.Rel MetaOnFilesItem.Same ((w.database.lookup filesKey).bind Coding.files?)
      ((w'.database.lookup filesKey).bind Coding.files?) := by
  have hkey := h.database filesKey
  generalize w.database.lookup filesKey = text at hkey ⊢
  generalize w'.database.lookup filesKey = record at hkey ⊢
  cases hkey with
  | none => exact .none
  | some hjson => exact hjson.files

theorem Related.nameOf_eq (h : Related boost w w') (fid : FidType) :
    nameOf w fid = nameOf w' fid := by
  have hfiles := h.files_rel
  rw [nameOf, nameOf]
  generalize (w.database.lookup filesKey).bind Coding.files? = found at hfiles ⊢
  generalize (w'.database.lookup filesKey).bind Coding.files? = found' at hfiles ⊢
  cases hfiles with
  | none => rfl
  | some hsame => exact hsame.2.2 fid

theorem Related.storages_eq (h : Related boost w w') :
    (w.database.lookup storagesKey).bind Coding.storages? =
      (w'.database.lookup storagesKey).bind Coding.storages? := by
  have hkey := h.database storagesKey
  generalize w.database.lookup storagesKey = text at hkey ⊢
  generalize w'.database.lookup storagesKey = record at hkey ⊢
  cases hkey with
  | none => rfl
  | some hjson => exact hjson.storages

end Lookups

/-! ### Runs -/

section Runs

variable {boost : PropertyTree} (hboost : boost.Correct)
include hboost

/-- **One request.** Both masters answer it alike and end alike. -/
theorem Related.handle {w : World (Value boost)} {w' : World Record} (h : Related boost w w')
    {r : Request}
    (hplain : PlainRequest r) :
    ((recvDispatcher r).run DB.exec w).1 =
        ((recvDispatcher r).run DB.exec w').1 ∧
      Related boost (handle w r) (handle w' r) := by
  obtain ⟨hagree, hafter⟩ := (mirrors_recvDispatcher hboost hplain).run
    (fun _ _ _ _ hasks hrelated => hrelated.exec hasks) h
  exact ⟨hagree.eq, hafter⟩

theorem Related.restart {w : World (Value boost)} {w' : World Record} (h : Related boost w w') :
    Related boost w.restart w'.restart := by
  have hstatics : Related boost { w with statics := ⟨false, 0, []⟩ }
      { w' with statics := ⟨false, 0, []⟩ } := ⟨h.database, rfl, h.sent⟩
  exact ((mirrors_getInstance hboost).run (fun _ _ _ _ hasks hrelated => hrelated.exec hasks)
    hstatics).2

def PlainEvent : Event → Prop
  | .request r => PlainRequest r
  | .restart => True

theorem Related.runEvents {w : World (Value boost)} {w' : World Record} (h : Related boost w w')
    {events : List Event} (hplain : ∀ event ∈ events, PlainEvent event) :
    Related boost (runEvents w events) (runEvents w' events) := by
  induction events generalizing w w' with
  | nil => exact h
  | cons event rest ih =>
      have hrest : ∀ event ∈ rest, PlainEvent event := fun event' hevent' =>
        hplain event' (List.mem_cons_of_mem _ hevent')
      cases event with
      | request r => exact ih (h.handle hboost (hplain _ List.mem_cons_self)).2 hrest
      | restart => exact ih (h.restart hboost) hrest

/-- **Texts refine records.** Whatever packets threads of the master handle over the texts of a new
database, one command at a time in any order, threads over records can handle them in the same order:
what is stored are texts that stand for the records, what is sent is the same, and every handler ends
the same. -/
theorem texts_refine_records {ι : Type} [DecidableEq ι] {requests : ι → Request}
    (hplain : ∀ i, PlainRequest (requests i)) {c : Threads (Value boost) ι}
    (hreach : Program.Pool.Reachable may (fun _ _ _ => True)
      (startRequests requests .initial) c) :
    ∃ d : Threads Record ι,
      Program.Pool.Reachable may (fun _ _ _ => True)
        (startRequests requests .initial) d ∧
      Related boost c.store d.store ∧
      ∀ i, (c.threads i).program.outcome? = (d.threads i).program.outcome? := by
  have hstart : Program.Pool.Beside (Asks boost) (Answers boost) Eq (Related boost)
      (startRequests requests .initial) (startRequests requests .initial) :=
    Program.Pool.beside_start (related_initial hboost)
      fun i => mirrors_recvDispatcher hboost (hplain i)
  obtain ⟨d, hreach', hbeside⟩ :=
    hstart.reachable (fun _ _ _ _ _ _ hasks hrelated hmay => hrelated.may hasks hmay)
      (fun _ _ _ _ _ _ _ _ _ _ => trivial) hreach
  exact ⟨d, hreach', hbeside.store, fun i => (hbeside.threads i).outcome?⟩

def Stores {α : Type} (w : World (Value boost)) (key : Bytes) (decode : Bytes → Option α)
    (item : α) : Prop :=
  ∃ json, w.database.lookup key = some json ∧ decode json = some item

omit hboost in
theorem Related.exists_text {w : World (Value boost)} {w' : World Record} (h : Related boost w w')
    {key : Bytes}
    {record : Record} (hrecord : w'.database.lookup key = some record) :
    ∃ json, w.database.lookup key = some json ∧ Represents boost json record := by
  have hkey := h.database key
  rw [hrecord] at hkey
  generalize w.database.lookup key = text at hkey
  cases hkey with
  | some hjson => exact ⟨_, rfl, hjson⟩

omit hboost in
theorem Related.mem_iff {w : World (Value boost)} {w' : World Record} (h : Related boost w w')
    (key : Bytes) :
    key ∈ w.database ↔ key ∈ w'.database := by
  have hkey := h.database key
  rw [← AList.lookup_isSome, ← AList.lookup_isSome]
  generalize w.database.lookup key = text at hkey ⊢
  generalize w'.database.lookup key = record at hkey ⊢
  cases hkey with
  | none => rfl
  | some _ => rfl

structure Consistent (boost : PropertyTree) (w : World (Value boost)) (mof : MetaOnFilesItem)
    (mos : MetaOnStoragesItem) : Prop where
  table : Stores w storageSizesKey (deserialize boost (sizesOfTree boost)) Master.storageSizes
  files : Stores w filesKey (MetaOnFilesItem.deserialize boost) mof
  storages : Stores w storagesKey (MetaOnStoragesItem.deserialize boost) mos
  mem_nameById : ∀ id, id ∈ mof.nameById ↔ id < mof.count
  file_of_name : ∀ id name, mof.nameById.lookup id = some name →
    ∃ fi, Stores w (fileKey name) (FileItem.deserialize boost) fi ∧ fi.id = id ∧ fi.name = name
  name_of_key : ∀ name, fileKey name ∈ w.database → ∃ id, mof.nameById.lookup id = some name
  storage_of_id : ∀ id < mos.count,
    ∃ si, Stores w (storageKey id) (StorageItem.deserialize boost) si ∧ si.id = id

omit hboost in
theorem Related.consistent {w : World (Value boost)} {w' : World Record} (h : Related boost w w')
    {mof : MetaOnFilesItem} {mos : MetaOnStoragesItem}
    (htable : w'.database.lookup storageSizesKey = some (.storageSizes Master.storageSizes))
    (hfiles : FilesConsistent w'.database mof) (hstorages : StoragesConsistent w'.database mos) :
    ∃ mof', Consistent boost w mof' mos := by
  obtain ⟨sizesJson, hsizesKey, hsizesJson⟩ := h.exists_text htable
  obtain ⟨filesJson, hfilesKey, hfilesJson⟩ := h.exists_text hfiles.files
  obtain ⟨storagesJson, hstoragesKey, hstoragesJson⟩ := h.exists_text hstorages.storages
  have hdecoded := hfilesJson.files
  generalize hmof' : MetaOnFilesItem.deserialize boost filesJson = decoded at hdecoded
  cases hdecoded with
  | @some mof' _ hsame =>
  have hmem (id : FidType) : id ∈ mof'.nameById ↔ id ∈ mof.nameById := by
    rw [← AList.lookup_isSome, ← AList.lookup_isSome, hsame.2.2]
  refine ⟨mof', ⟨sizesJson, hsizesKey, hsizesJson.storageSizes⟩, ⟨filesJson, hfilesKey, hmof'⟩,
    ⟨storagesJson, hstoragesKey, hstoragesJson.storages⟩,
    fun id => ?_, fun id name hname => ?_, fun name hname => ?_, fun id hid => ?_⟩
  · rw [hmem, hsame.1]
    exact hfiles.mem_nameById id
  · rw [hsame.2.2] at hname
    obtain ⟨fi, hfi, hid, hfiname⟩ := hfiles.file_of_name id name hname
    obtain ⟨json, hjson, hrepresents⟩ := h.exists_text hfi
    exact ⟨fi, ⟨json, hjson, hrepresents.file⟩, hid, hfiname⟩
  · obtain ⟨id, hid⟩ := hfiles.name_of_key name ((h.mem_iff _).mp hname)
    exact ⟨id, (hsame.2.2 id).trans hid⟩
  · obtain ⟨si, hsi, hsiid⟩ := hstorages.storage_of_id id hid
    obtain ⟨json, hjson, hrepresents⟩ := h.exists_text hsi
    exact ⟨si, ⟨json, hjson, hrepresents.storage⟩, hsiid⟩

/-- What a master has stored after these events over the texts of a new database. -/
def afterEvents (boost : PropertyTree) (events : List Event) : World (Value boost) :=
  runEvents .initial events

/-- **The texts stay readable.** However many requests a master has handled one at a time over the
texts of a new database, and however often it was started again between them, what is stored can be
decoded, and says what the records would say. -/
theorem texts_consistent {events : List Event} (hplain : ∀ event ∈ events, PlainEvent event)
    (huploads : uploads (afterEvents boost events) < 2 ^ 64)
    (hregistrations : registrations (afterEvents boost events) < 2 ^ 32) :
    ∃ mof mos, Consistent boost (afterEvents boost events) mof mos := by
  have hrelated := (related_initial hboost).runEvents hboost hplain
  rw [afterEvents, hrelated.uploads] at huploads
  rw [afterEvents, hrelated.registrations] at hregistrations
  obtain ⟨mof, mos, h, htable⟩ :=
    Keeps.runEvents ⟨_, _, consistent_initial, rfl⟩ huploads hregistrations
  obtain ⟨mof', hconsistent⟩ := hrelated.consistent htable h.files h.storages
  exact ⟨mof', mos, hconsistent⟩

end Runs

/-! ### A run -/

theorem plain_oneUpload : ∀ r ∈ oneUpload, PlainRequest r := by
  have hhost : PlainString (ascii "::1") := plain_ascii (by decide)
  have hname : PlainString (ascii "a") := plain_ascii (by decide)
  intro r hr
  simp only [oneUpload, List.mem_cons, List.not_mem_nil, or_false] at hr
  rcases hr with rfl | rfl | rfl
  · exact ⟨fun hkind => absurd hkind (by decide),
      fun _ _ haddress => Option.some_inj.mp haddress ▸ hhost⟩
  · refine ⟨fun _ req fname hread => ?_, fun hkind => absurd hkind (by decide)⟩
    let p := Client.upReqPacket 5 1 (ascii "a")
    have hdelivered : Delivered (received p.header p.payload) := by rfl
    obtain ⟨-, rfl⟩ := (readUpReq_eq_some_iff hdelivered).mp hread
    exact hname
  · exact ⟨fun hkind => absurd hkind (by decide),
      fun _ _ haddress => Option.some_inj.mp haddress ▸ hhost⟩

/-- A storage that registers, a file that is uploaded to it and its part acknowledged, all at once. -/
def threeRequests (i : Fin 3) : Request := oneUpload.get i

theorem plain_threeRequests (i : Fin 3) : PlainRequest (threeRequests i) :=
  plain_oneUpload _ (List.get_mem oneUpload i)

/-- The threads after commands of each in turn, the last of which writes the file. -/
def threeInTurn {V : Type} [Coding V] : Threads V (Fin 3) :=
  Program.Pool.runSchedule exec (startRequests threeRequests .initial)
    (List.replicate 14 [0, 1, 2]).flatten

theorem beside_threeInTurn : Program.Pool.Beside (Asks referenceTree) (Answers referenceTree) Eq
    (Related referenceTree) threeInTurn threeInTurn := by
  have hstart := Program.Pool.beside_start (related_initial correct_referenceTree) fun i =>
    mirrors_recvDispatcher correct_referenceTree (plain_threeRequests i)
  exact hstart.runSchedule (fun _ _ _ _ hasks hrelated => hrelated.exec hasks) _

theorem texts_refine_records_three : fileKey (ascii "a.__0") ∈
      (threeInTurn (V := Value referenceTree)).store.database ∧
    ∃ d : Threads Record (Fin 3),
      Program.Pool.Reachable may (fun _ _ _ => True) (startRequests threeRequests .initial) d ∧
      Related referenceTree threeInTurn.store d.store ∧
      ∀ i, ((threeInTurn (V := Value referenceTree)).threads i).program.outcome? =
        (d.threads i).program.outcome? := by
  have hwritten : fileKey (ascii "a.__0") ∈ (threeInTurn (V := Record)).store.database := by
    decide +kernel
  have hreach : Program.Pool.Reachable may (fun _ _ _ => True)
      (startRequests threeRequests .initial) (threeInTurn (V := Value referenceTree)) := by
    rw [threeInTurn]
    exact Program.Pool.reachable_runSchedule exec may_exec (Program.Pool.guarded_true exec _ _)
  exact ⟨(beside_threeInTurn.store.mem_iff _).mpr hwritten,
    texts_refine_records correct_referenceTree plain_threeRequests hreach⟩

def restarted : List Event :=
  [.request (threeRequests 0), .request (threeRequests 1), .restart, .request (threeRequests 2)]

theorem plain_restarted : ∀ event ∈ restarted, PlainEvent event := by
  have hplain (i : Fin 3) : PlainEvent (.request (threeRequests i)) := plain_threeRequests i
  intro event hevent
  simp only [restarted, List.mem_cons, List.not_mem_nil, or_false] at hevent
  rcases hevent with rfl | rfl | rfl | rfl
  · exact hplain 0
  · exact hplain 1
  · trivial
  · exact hplain 2

theorem texts_consistent_restarted : ∃ mof mos,
    Consistent referenceTree (afterEvents referenceTree restarted) mof mos := by
  have hrelated := (related_initial correct_referenceTree).runEvents correct_referenceTree
    plain_restarted
  refine texts_consistent correct_referenceTree plain_restarted ?_ ?_
  · rw [afterEvents, hrelated.uploads]
    exact (sent_runEvents_le .initial restarted).1.trans_lt (by decide)
  · rw [afterEvents, hrelated.registrations]
    exact (sent_runEvents_le .initial restarted).2.trans_lt (by decide)

end Mp2p.Texts
