import Mp2p.Lib.Mutex
import Mp2p.Proof.Concurrency
import Mp2p.Proof.Requests

/-!
# One acknowledgement after the other

The threads of a master handle any packets at once, and only the handlers of acknowledgements wait
for each other. That is enough for them: whatever else is handled in between, the record of a file is
the one it was created with and every acknowledgement that was written, one after the other, as long
as no upload writes over a record that has come into being since it looked for a name.
-/

namespace Mp2p.Master

open Masks Network DB DB.Tools

/-! ### One thread -/

/-- The write of an acknowledgement: to the record of the file as its thread knows it. -/
def AckWrite (r : Request) (h : CommandHistory Record) (key : Bytes) (record : Record) : Prop :=
  putsOf h = [] ∧ ∃ req name fi, readPartAck r.packet = some req ∧ key = fileKey name ∧
    lastRead h key = some (.file fi) ∧
    record = .file { fi with parts := (ackParts req fi.parts).1 }

def Writes (r : Request) (h : CommandHistory Record) : Command Record → Prop
  | .put key record => match kindOf r.packet with
      | .upReq => key = filesKey ∨ ∃ name fi, key = fileKey name ∧ record = .file fi ∧ fi.parts = []
      | .idReq => ∀ name, key ≠ fileKey name
      | .partAck => AckWrite r h key record
      | _ => False
  | _ => True

/-- An acknowledgement that was handled without an exception has been written. -/
def Written (r : Request) (result : Except Halt KeepAlive) (h : CommandHistory Record) : Prop :=
  kindOf r.packet = .partAck → ∀ keepAlive, result = .ok keepAlive → putsOf h ≠ []

section Thread

variable {r : Request} {h : CommandHistory Record}

theorem writes_of_minor (h : CommandHistory Record) (command : Command Record)
    (hminor : Minor command) :
    Writes r h command := by
  cases command with
  | put key record => exact hminor.elim
  | _ => trivial

theorem follows_of_minor {p : Handler Record KeepAlive} (hkind : kindOf r.packet ≠ .partAck)
    (hp : p.All Minor) : p.Follows (Writes r) (Written r) h :=
  (Program.follows_of_all hp writes_of_minor h).mono fun _ _ _ hack => absurd hack hkind

theorem follows_bind_of_minor {α : Type} {p : Handler Record α} {f : α → Handler Record KeepAlive}
    (hkind : kindOf r.packet ≠ .partAck) (hp : p.All Minor)
    (hf : ∀ a h', (f a).Follows (Writes r) (Written r) h') :
    (p >>= f).Follows (Writes r) (Written r) h := by
  apply Program.follows_bind
  refine (Program.follows_of_all hp writes_of_minor h).mono ?_
  rintro (e | a) h' -
  · exact fun hack => absurd hack hkind
  · exact hf a h'

theorem follows_cmdGet {β : Type} {key : Bytes} {as : Record → Option β}
    {f : β → Handler Record KeepAlive}
    (hf : ∀ record b, as record = some b →
      (f b).Follows (Writes r) (Written r) (⟨.get key, some record⟩ :: h)) :
    (cmdGet key >>= fun json => Program.ofOption .exception (as json) >>= f).Follows (Writes r)
      (Written r) h := by
  refine ⟨trivial, fun record => ?_⟩
  cases record with
  | none => exact fun _ _ hok => nomatch hok
  | some record =>
      change (Program.ofOption .exception (as record) >>= f).Follows _ _ _
      cases hb : as record with
      | none => exact fun _ _ hok => nomatch hok
      | some b => exact hf record b hb

theorem follows_ofOption {α : Type} {e : Halt} {x : Option α} {f : α → Handler Record KeepAlive}
    (hf : ∀ a, x = some a → (f a).Follows (Writes r) (Written r) h) :
    (Program.ofOption e x >>= f).Follows (Writes r) (Written r) h := by
  cases x with
  | none => exact fun _ _ hok => nomatch hok
  | some a => exact hf a rfl

theorem writes_of_upReq (hkind : kindOf r.packet = .upReq) {key : Bytes} {record : Record}
    (hwrite : key = filesKey ∨ ∃ name fi, key = fileKey name ∧ record = .file fi ∧ fi.parts = []) :
    Writes r h (.put key record) := by
  rw [Writes, hkind]
  exact hwrite

theorem writes_of_idReq (hkind : kindOf r.packet = .idReq) {key : Bytes} {record : Record}
    (hwrite : ∀ name, key ≠ fileKey name) : Writes r h (.put key record) := by
  rw [Writes, hkind]
  exact hwrite

theorem writes_of_partAck (hkind : kindOf r.packet = .partAck) {key : Bytes} {record : Record}
    (hwrite : AckWrite r h key record) : Writes r h (.put key record) := by
  rw [Writes, hkind]
  exact hwrite

theorem minor_searchName (tmpName : Bytes) (fuel : ℕ) (i : UInt64) :
    (searchName tmpName fuel i).All Minor := by
  induction fuel generalizing i with
  | zero => exact Program.all_throw _
  | succ fuel ih =>
      refine ⟨trivial, fun record => ?_⟩
      cases record with
      | none => exact Program.all_pure _
      | some record => exact ih (i + 1)

theorem follows_cmUpReq (hkind : kindOf r.packet = .upReq) :
    (cmUpReq r).Follows (Writes r) (Written r) [] := by
  have hne : kindOf r.packet ≠ .partAck := by
    rw [hkind]
    decide
  refine follows_bind_of_minor hne (Program.all_ofOption _ _) fun ⟨req, fname⟩ h₁ => ?_
  refine follows_bind_of_minor hne (minor_numberOfParts _) fun nbParts h₂ => ?_
  split
  · exact follows_of_minor hne (minor_sendError _ _)
  refine follows_bind_of_minor hne (minor_getStpfieldsForUpload _ _ _) fun fields h₃ => ?_
  split
  · exact follows_of_minor hne (minor_sendError _ _)
  simp only [createNewFile, bind_assoc]
  refine follows_bind_of_minor hne (minor_searchName _ _ _) fun name h₄ => ?_
  refine follows_cmdGet fun _ mof _ => ?_
  refine ⟨writes_of_upReq hkind (.inl rfl), fun _ =>
    ⟨writes_of_upReq hkind (.inr ⟨name, _, rfl, rfl, rfl⟩), fun _ => ?_⟩⟩
  refine ⟨trivial, fun _ => ?_⟩
  change (firstField fields >>= fun _ => pure KeepAlive.no).Follows _ _ _
  exact follows_bind_of_minor hne (minor_firstField fields) fun _ h₅ hack => absurd hack hne

theorem follows_smIdReq (hkind : kindOf r.packet = .idReq) :
    (smIdReq r).Follows (Writes r) (Written r) [] := by
  have hne : kindOf r.packet ≠ .partAck := by
    rw [hkind]
    decide
  refine follows_cmdGet fun _ mos _ => ?_
  refine follows_ofOption fun hostAddr _ => ?_
  refine follows_ofOption fun req _ => ?_
  refine ⟨writes_of_idReq hkind fun name => fileKey_ne_storageKey.symm, fun _ =>
    ⟨writes_of_idReq hkind fun name => fileKey_ne_storagesKey.symm, fun _ => ⟨trivial, fun _ => ?_⟩⟩⟩
  exact fun hack => absurd hack hne

theorem follows_smPartAck (hkind : kindOf r.packet = .partAck) :
    (smPartAck r).Follows (Writes r) (Written r) [] := by
  refine follows_cmdGet fun _ mof hmof => ?_
  refine follows_ofOption fun fid hfid => ?_
  refine follows_ofOption fun fname hname => ?_
  refine follows_cmdGet fun record fi hfi => ?_
  rw [Record.file?_eq_some.mp hfi]
  refine follows_ofOption fun req hreq => ?_
  refine ⟨writes_of_partAck hkind ⟨rfl, req, fname, fi, hreq, rfl, if_pos rfl, rfl⟩, fun _ => ?_⟩
  -- Nothing behind the write writes again.
  have hrest (p : Handler Record KeepAlive) (hp : p.All Minor) {h : CommandHistory Record}
      (hputs : putsOf h ≠ []) : p.Follows (Writes r) (Written r) h := by
    refine (Program.follows_of_all hp writes_of_minor h).mono ?_
    rintro result h' ⟨l, rfl, hl⟩ - keepAlive -
    rw [putsOf, List.filterMap_append]
    exact fun hnil => hputs (List.append_eq_nil_iff.mp hnil).2
  refine hrest _ ?_ (List.cons_ne_nil _ _)
  change (Program.ofOption _ _ >>= _).All Minor
  refine Program.all_bind (Program.all_ofOption _ _) fun part => ?_
  split
  · exact Program.all_bind (minor_sendAck _ _) fun _ => Program.all_pure _
  · exact Program.all_bind (minor_replicate _ _ _) fun _ => Program.all_pure _

theorem follows_recvDispatcher (r : Request) :
    (recvDispatcher r).Follows (Writes r) (Written r) [] := by
  rw [recvDispatcher_eq]
  cases hkind : kindOf r.packet with
  | upReq => exact follows_cmUpReq hkind
  | partAck => exact follows_smPartAck hkind
  | idReq => exact follows_smIdReq hkind
  | invalid => exact follows_of_minor (by rw [hkind]; decide) (minor_sendError _ _)
  | ignored => exact follows_of_minor (by rw [hkind]; decide) (Program.all_pure _)
  | downReq => exact follows_of_minor (by rw [hkind]; decide) (minor_cmDownReq r)
  | delReq => exact follows_of_minor (by rw [hkind]; decide) (minor_cmDelReq r)

end Thread

/-! ### All threads -/

section Threads

variable {ι : Type} (requests : ι → Request)

/-- The thread holds `mutex_part_ack`. -/
def Acks (i : ι) : Prop := kindOf (requests i).packet = .partAck

/-- The name an upload has found is still free when it writes the record of its file. -/
def NameFree {V : Type} [Coding V] (i : ι) (w : World V) : Command V → Prop
  | .put key value => (Coding.file? value).isSome → kindOf (requests i).packet = .upReq →
      w.database.lookup key = none
  | _ => True

/-- The record a file had before any of the acknowledgements: one of the database, or a new one. -/
def Created (w : World Record) (c : Threads Record ι) (name : Bytes) (fi : FileItem) : Prop :=
  w.database.lookup (fileKey name) = some (.file fi) ∨
    fi.parts = [] ∧ ∃ i, kindOf (requests i).packet = .upReq ∧ (fileKey name, .file fi) ∈ puts c i

def HasAcked (c : Threads Record ι) (name : Bytes) (i : ι) : Prop :=
  Acks requests i ∧ ∃ record, (fileKey name, record) ∈ puts c i

/-- The record of the file is the first one after the acknowledgements that were written to it, each
once, in this order. -/
structure InTurn (w : World Record) (c : Threads Record ι) (name : Bytes) (fi₀ : FileItem)
    (order : List ι)
    (fi : FileItem) : Prop where
  created : Created requests w c name fi₀
  nodup : order.Nodup
  mem : ∀ i, i ∈ order ↔ HasAcked requests c name i
  value : fi = { fi₀ with parts := partsAfter fi₀.parts (acksOf (order.map requests)) }

def acknowledge (i : ι) (fi : FileItem) : FileItem :=
  (readPartAck (requests i).packet).elim fi fun req =>
    { fi with parts := (ackParts req fi.parts).1 }

/-- What an acknowledgement in the middle knows is so, and every record has had its acknowledgements
one after the other. -/
structure Serial (w : World Record) (c : Threads Record ι) : Prop where
  known : ∀ i, Acks requests i → (c.threads i).Running → puts c i = [] → ∀ name fi,
    lastRead (c.threads i).history (fileKey name) = some (.file fi) →
    c.store.database.lookup (fileKey name) = some (.file fi)
  written : ∀ i name record, (fileKey name, record) ∈ puts c i →
    c.store.database.lookup (fileKey name) ≠ none
  acked : ∀ i, Acks requests i → ∀ key record, (key, record) ∈ puts c i →
    ∃ req name fi, readPartAck (requests i).packet = some req ∧ key = fileKey name ∧
      c.store.database.lookup key = some (.file fi)
  serial : ∀ name fi, c.store.database.lookup (fileKey name) = some (.file fi) →
    ∃ fi₀, Created requests w c name fi₀ ∧
      Program.UpdatedBy (acknowledge requests) (HasAcked requests c name) fi₀ fi

variable {requests} {w : World Record} {c c' : Threads Record ι}

theorem serial_start (w : World Record) : Serial requests w (startRequests requests w) where
  known _ _ hrunning := absurd rfl hrunning.1
  written := nofun
  acked := nofun
  serial _ fi hfile :=
    ⟨fi, .inl hfile, Program.updatedBy_none fun _ hacked => nomatch hacked.2.choose_spec⟩

theorem ne_nil_of_lastRead {h : CommandHistory Record} {key : Bytes} {record : Record}
    (hread : lastRead h key = some record) : h ≠ [] := by
  rintro rfl
  cases hread

theorem Created.mono {name : Bytes} {fi : FileItem} (h : Created requests w c name fi)
    (hputs : ∀ i, ∀ entry ∈ puts c i, entry ∈ puts c' i) : Created requests w c' name fi := by
  obtain hold | ⟨hparts, i, hkind, hmem⟩ := h
  · exact .inl hold
  · exact .inr ⟨hparts, i, hkind, hputs i _ hmem⟩

section Put

variable {i : ι} {key : Bytes} {record : Record}

/-- A thread writes a record. -/
theorem Serial.put (h : Serial requests w c) (hwrote : Wrote c c' i key record)
    (hother : ∀ j ≠ i, c'.threads j = c.threads j)
    (hkeep : ∀ j ≠ i, Acks requests j → (c.threads j).Running → ∀ name fi,
      c.store.database.lookup (fileKey name) = some (.file fi) → key ≠ fileKey name)
    (hfile : ∀ name, key = fileKey name → ∃ fi, record = .file fi)
    (hacked : Acks requests i → ∃ req name, readPartAck (requests i).packet = some req ∧
      key = fileKey name)
    (hserial : ∀ name fi, key = fileKey name → record = .file fi → ∃ fi₀,
      Created requests w c' name fi₀ ∧
        Program.UpdatedBy (acknowledge requests) (HasAcked requests c' name) fi₀ fi) :
    Serial requests w c' := by
  have hself : c'.store.database.lookup key = some record := by
    rw [hwrote.database, AList.lookup_insert]
  have hsame {key' : Bytes} (hne : key' ≠ key) :
      c'.store.database.lookup key' = c.store.database.lookup key' := by
    rw [hwrote.database, AList.lookup_insert_ne hne]
  refine ⟨fun j hj hrunning hputs name fi hread => ?_, fun j name record' hmem => ?_,
    fun j hj key' record' hmem => ?_, fun name fi hlookup => ?_⟩
  · have hji : j ≠ i := by
      rintro rfl
      rw [hwrote.self] at hputs
      cases hputs
    rw [hother j hji] at hrunning hread
    rw [hwrote.other j hji] at hputs
    have hknown := h.known j hj hrunning hputs name fi hread
    rw [hsame (hkeep j hji hj hrunning name fi hknown).symm]
    exact hknown
  · by_cases hkey : fileKey name = key
    · rw [hkey, hself]
      exact Option.some_ne_none record
    · rw [hsame hkey]
      exact h.written j name record' ((hwrote.mem_of_ne hkey).mp hmem)
  · obtain ⟨rfl, heq⟩ | hold := hwrote.mem_iff.mp hmem
    · obtain ⟨req, name, hread, rfl⟩ := hacked hj
      obtain ⟨fi, rfl⟩ := hfile name rfl
      cases heq
      exact ⟨req, name, fi, hread, rfl, hself⟩
    · obtain ⟨req, name, fi, hread, rfl, hlookup⟩ := h.acked j hj key' record' hold
      by_cases hkey : fileKey name = key
      · obtain ⟨fi', rfl⟩ := hfile name hkey.symm
        exact ⟨req, name, fi', hread, rfl, by rw [hkey, hself]⟩
      · exact ⟨req, name, fi, hread, rfl, by rw [hsame hkey, hlookup]⟩
  · by_cases hkey : fileKey name = key
    · rw [hkey, hself, Option.some_inj] at hlookup
      exact hserial name fi hkey.symm hlookup
    · rw [hsame hkey] at hlookup
      obtain ⟨fi₀, hcreated, hupdated⟩ := h.serial name fi hlookup
      refine ⟨fi₀, hcreated.mono fun j entry hmem => hwrote.mem_iff.mpr (.inr hmem), ?_⟩
      refine hupdated.congr fun j => ?_
      simp only [HasAcked, hwrote.mem_of_ne hkey]

/-- An upload writes: the counters, or a new record. -/
theorem Serial.putUpload (h : Serial requests w c) (hwrote : Wrote c c' i key record)
    (hother : ∀ j ≠ i, c'.threads j = c.threads j) (hkind : kindOf (requests i).packet = .upReq)
    (hwrite : key = filesKey ∨ ∃ name fi, key = fileKey name ∧ record = .file fi ∧ fi.parts = [])
    (hfree : ∀ fi, record = .file fi → c.store.database.lookup key = none) :
    Serial requests w c' := by
  have hnot : ¬Acks requests i := by
    rw [Acks, hkind]
    decide
  obtain rfl | ⟨name, fi, rfl, rfl, hparts⟩ := hwrite
  · have hne {name : Bytes} (hkey : filesKey = fileKey name) : False := fileKey_ne_filesKey hkey.symm
    exact h.put hwrote hother (fun _ _ _ _ _ _ _ => hne) (fun _ hkey => (hne hkey).elim)
      (fun hack => absurd hack hnot) fun _ _ hkey => (hne hkey).elim
  · have hnone := hfree fi rfl
    refine h.put hwrote hother (fun j _ _ _ name' fi' hlookup hkey => ?_) (fun _ _ => ⟨fi, rfl⟩)
      (fun hack => absurd hack hnot) fun name' fi' hkey hrecord => ?_
    · rw [← hkey, hnone] at hlookup
      cases hlookup
    · obtain rfl := fileKey_injective hkey
      cases hrecord
      refine ⟨fi, .inr ⟨hparts, i, hkind, hwrote.mem_iff.mpr (.inl ⟨rfl, rfl⟩)⟩,
        Program.updatedBy_none fun j hacked => ?_⟩
      -- There was no record, so nobody has written to it.
      obtain ⟨hj, record', hmem⟩ := hacked
      obtain ⟨rfl, -⟩ | hold := hwrote.mem_iff.mp hmem
      · exact hnot hj
      · exact h.written j name record' hold hnone

/-- **An acknowledgement writes.** It has the record as it is. -/
theorem Serial.putAck (h : Serial requests w c) (hwrote : Wrote c c' i key record)
    (hother : ∀ j ≠ i, c'.threads j = c.threads j) (hack : Acks requests i)
    (hfree : ∀ j ≠ i, Acks requests j → ¬(c.threads j).Running)
    (hrunning : (c.threads i).Running)
    (hwrite : AckWrite (requests i) (c.threads i).history key record) :
    Serial requests w c' := by
  obtain ⟨hputs, req, name, fi, hread, rfl, hlast, rfl⟩ := hwrite
  have hknown := h.known i hack hrunning hputs name fi hlast
  refine h.put hwrote hother (fun j hji hj hrunning' => absurd hrunning' (hfree j hji hj))
    (fun _ _ => ⟨_, rfl⟩) (fun _ => ⟨req, name, hread, rfl⟩) fun name' fi' hkey hrecord => ?_
  obtain rfl := fileKey_injective hkey
  cases hrecord
  obtain ⟨fi₀, hcreated, hupdated⟩ := h.serial name fi hknown
  refine ⟨fi₀, hcreated.mono fun j entry hmem => hwrote.mem_iff.mpr (.inr hmem), ?_⟩
  have hnext : acknowledge requests i fi = { fi with parts := (ackParts req fi.parts).1 } := by
    rw [acknowledge, hread, Option.elim_some]
  rw [← hnext]
  refine hupdated.next ?_ fun j => ?_
  · rintro ⟨-, record, hmem⟩
    change _ ∈ putsOf _ at hmem
    rw [hputs] at hmem
    cases hmem
  · simp only [HasAcked, hwrote.mem_iff]
    constructor
    · rintro ⟨hj, record, ⟨rfl, -⟩ | hold⟩
      · exact .inl rfl
      · exact .inr ⟨hj, record, hold⟩
    · rintro (rfl | ⟨hj, record, hold⟩)
      · exact ⟨hack, _, .inl ⟨rfl, rfl⟩⟩
      · exact ⟨hj, record, .inr hold⟩

end Put

/-! ### The parts of a record -/

/-- Acknowledgements one after the other. -/
theorem foldl_acknowledge (fi₀ : FileItem) (order : List ι) :
    order.foldl (fun fi i => acknowledge requests i fi) fi₀ =
      { fi₀ with parts := partsAfter fi₀.parts (acksOf (order.map requests)) } := by
  induction order generalizing fi₀ with
  | nil => rfl
  | cons i rest ih =>
      rw [List.foldl_cons, ih, List.map_cons, acknowledge]
      cases hread : readPartAck (requests i).packet with
      | none =>
          have hnone : acksOf (requests i :: rest.map requests) = acksOf (rest.map requests) :=
            List.filterMap_cons_none hread
          rw [Option.elim_none, hnone]
      | some req =>
          rw [Option.elim_some, acksOf_cons hread]
          rfl

/-- What was acknowledged is listed, whatever is acknowledged after it. -/
theorem exists_part_of_mem {ack : SM.PartAck} {acks : List SM.PartAck} {parts : List PartItem}
    (hmem : ack ∈ acks) : ∃ part ∈ partsAfter parts acks, part.numGet = ack.partid.partnum ∧
      ack.stid ∈ part.locations := by
  induction acks using List.reverseRecOn with
  | nil => cases hmem
  | append_singleton acks last ih =>
      rw [partsAfter, List.foldl_append, List.foldl_cons, List.foldl_nil, ← partsAfter, ackParts_fst]
      obtain hmem | hlast := List.mem_append.mp hmem
      · obtain ⟨part, hpart, hnum, hstid⟩ := ih hmem
        refine ⟨addAck last part, List.mem_append_left _ (List.mem_map_of_mem hpart), ?_, ?_⟩
        · rw [numGet_addAck, hnum]
        · rw [addAck]
          split_ifs
          · exact List.mem_append_left _ hstid
          · exact hstid
      · rw [List.mem_singleton.mp hlast]
        exact ⟨ackItem last, List.mem_append_right _ (List.mem_singleton_self _), rfl,
          List.mem_singleton_self _⟩

theorem nameFree_of_acks {i : ι} (hack : Acks requests i) (w : World Record)
    (command : Command Record) :
    NameFree requests i w command := by
  cases command with
  | put key record =>
      intro _ hkind
      rw [Acks, hkind] at hack
      cases hack
  | _ => trivial

theorem Serial.inTurn (h : Serial requests w c) {name : Bytes} {fi : FileItem}
    (hfile : c.store.database.lookup (fileKey name) = some (.file fi)) :
    ∃ fi₀ order, InTurn requests w c name fi₀ order fi := by
  obtain ⟨fi₀, hcreated, order, hnodup, hmem, rfl⟩ := h.serial name fi hfile
  exact ⟨fi₀, order, hcreated, hnodup, hmem, foldl_acknowledge fi₀ order⟩

/-- An acknowledgement that was written is in the record of a file. -/
theorem Serial.listed (h : Serial requests w c) {i : ι} (hack : Acks requests i)
    (hputs : puts c i ≠ []) : ∃ req name fi, readPartAck (requests i).packet = some req ∧
      HasAcked requests c name i ∧ c.store.database.lookup (fileKey name) = some (.file fi) ∧
      ∃ part ∈ fi.parts, part.numGet = req.partid.partnum ∧ req.stid ∈ part.locations := by
  obtain ⟨⟨key, record⟩, hmem⟩ := List.exists_mem_of_ne_nil _ hputs
  obtain ⟨req, name, fi, hread, rfl, hfile⟩ := h.acked i hack key record hmem
  have hacked : HasAcked requests c name i := ⟨hack, record, hmem⟩
  refine ⟨req, name, fi, hread, hacked, hfile, ?_⟩
  obtain ⟨fi₀, order, hturn⟩ := h.inTurn hfile
  rw [hturn.value]
  refine exists_part_of_mem (List.mem_filterMap.mpr ⟨requests i, ?_, hread⟩)
  exact List.mem_map_of_mem ((hturn.mem i).mpr hacked)

/-! ### Whole runs -/

variable [DecidableEq ι]

/-- What the thread reads now is what the database holds. -/
theorem lastRead_cons {command : Command Record} {answer : command.Answer}
    {store store' : World Record}
    {h : CommandHistory Record} (hmay : may command store answer store')
    (hput : ∀ key record, command ≠ .put key record) {key : Bytes} {record : Record}
    (hread : lastRead (⟨command, answer⟩ :: h) key = some record) :
    store.database.lookup key = some record ∨ lastRead h key = some record := by
  cases command with
  | get key' =>
      by_cases hkey : key = key'
      · subst hkey
        have hanswer : answer = store.database.lookup key := congrArg Prod.fst hmay
        have hsame : lastRead (⟨.get key, answer⟩ :: h) key = answer := if_pos rfl
        exact .inl (hanswer.symm.trans (hsame.symm.trans hread))
      · exact .inr ((lastRead_get_of_ne hkey answer).symm.trans hread)
  | put key' record' => exact absurd rfl (hput key' record')
  | statics => exact .inr hread
  | setStatics statics => exact .inr hread
  | send packet => exact .inr hread

/-- Any other command. -/
theorem Serial.other (h : Serial requests w c) {i : ι} {command : Command Record}
    {next : command.Answer → Handler Record KeepAlive} {history : CommandHistory Record}
    {answer : command.Answer} {store : World Record}
    (hthread : c.threads i = ⟨.op command next, history⟩)
    (hmay : may command c.store answer store) (hput : ∀ key record, command ≠ .put key record) :
    Serial requests w (c.set i ⟨next answer, ⟨command, answer⟩ :: history⟩ store) := by
  set c' := c.set i ⟨next answer, ⟨command, answer⟩ :: history⟩ store with hc'
  have hself : c'.threads i = ⟨next answer, ⟨command, answer⟩ :: history⟩ :=
    Program.Pool.threads_set_self ..
  have hdatabase : c'.store.database = c.store.database := database_of_may hmay hput
  have hputs : puts c' = puts c := by
    funext j
    by_cases hj : j = i
    · rw [hj, puts, hself, puts, hthread, putsOf_cons hput]
    · rw [puts, hc', Program.Pool.threads_set_of_ne c hj, puts]
  refine ⟨fun j hj hrunning hnone name fi hread => ?_, ?_, ?_, ?_⟩
  · rw [hdatabase]
    by_cases hji : j = i
    · subst hji
      rw [hself] at hread
      rw [hputs] at hnone
      obtain hnow | hbefore := lastRead_cons hmay hput hread
      · exact hnow
      · refine h.known j hj ⟨?_, command, next, ?_⟩ hnone name fi ?_
        · rw [hthread]
          exact ne_nil_of_lastRead hbefore
        · rw [hthread]
        · rw [hthread]
          exact hbefore
    · rw [hc', Program.Pool.threads_set_of_ne c hji] at hrunning hread
      exact h.known j hj hrunning (hputs ▸ hnone) name fi hread
  · rw [hputs, hdatabase]
    exact h.written
  · rw [hputs, hdatabase]
    exact h.acked
  · rw [hdatabase]
    intro name fi hfile
    obtain ⟨fi₀, hcreated, hupdated⟩ := h.serial name fi hfile
    refine ⟨fi₀, hcreated.mono fun j entry hmem => hputs ▸ hmem, hupdated.congr fun j => ?_⟩
    rw [HasAcked, hputs, HasAcked]

/-- **One command.** -/
theorem Serial.step (h : Serial requests w c) {i : ι} {command : Command Record}
    {next : command.Answer → Handler Record KeepAlive} {history : CommandHistory Record}
    {answer : command.Answer} {store : World Record}
    (hthread : c.threads i = ⟨.op command next, history⟩)
    (hwrites : Writes (requests i) history command)
    (hfree : Acks requests i → ∀ j ≠ i, Acks requests j → ¬(c.threads j).Running)
    (hname : NameFree requests i c.store command) (hmay : may command c.store answer store) :
    Serial requests w (c.set i ⟨next answer, ⟨command, answer⟩ :: history⟩ store) := by
  have hhistory : (c.threads i).history = history := by rw [hthread]
  cases command with
  | put key record =>
      set c' := c.set i ⟨next answer, ⟨.put key record, answer⟩ :: history⟩ store with hc'
      have hother : ∀ j ≠ i, c'.threads j = c.threads j := fun j hj =>
        Program.Pool.threads_set_of_ne c hj _ _
      have hwrote : Wrote c c' i key record := by
        refine ⟨congrArg World.database (congrArg Prod.snd hmay), ?_, fun j hj => ?_⟩
        · rw [puts, hc', Program.Pool.threads_set_self, puts, hhistory]
          rfl
        · rw [puts, hother j hj, puts]
      rw [Writes] at hwrites
      split at hwrites
      · rename_i hkind
        refine h.putUpload hwrote hother hkind hwrites fun fi hrecord => ?_
        subst hrecord
        exact hname rfl hkind
      · rename_i hkind
        have hnot : ¬Acks requests i := by
          rw [Acks, hkind]
          decide
        exact h.put hwrote hother (fun _ _ _ _ name _ _ => hwrites name)
          (fun name hkey => absurd hkey (hwrites name)) (fun hack => absurd hack hnot)
          fun name _ hkey => absurd hkey (hwrites name)
      · rename_i hkind
        have hrunning : (c.threads i).Running := by
          obtain ⟨-, -, -, fi, -, -, hlast, -⟩ := hwrites
          rw [hthread]
          exact ⟨ne_nil_of_lastRead hlast, _, _, rfl⟩
        exact h.putAck hwrote hother hkind (hfree hkind) hrunning (hhistory.symm ▸ hwrites)
      · exact hwrites.elim
  | _ => exact h.other hthread hmay fun _ _ heq => by cases heq

theorem serial_of_locked {c : Threads Record ι}
    (hreach : Relation.ReflTransGen
      (Program.Pool.Locked may (NameFree requests) (Acks requests)) (startRequests requests w) c) :
    Serial requests w c ∧ ∀ i keepAlive, Acks requests i →
      (c.threads i).program = .pure keepAlive → puts c i ≠ [] := by
  obtain ⟨hserial, -, hfollows⟩ := Program.Pool.invariant_of_locked (Serial requests w)
    (fun i => follows_recvDispatcher (requests i)) (serial_start w)
    (fun c i command next h answer store hserial _ hthread hwrites hfree hname hmay =>
      hserial.step hthread hwrites hfree hname hmay) hreach
  refine ⟨hserial, fun i keepAlive hack hpure => ?_⟩
  have hends := hfollows i
  rw [hpure] at hends
  exact hends hack keepAlive rfl

/-- **Acknowledgements are serial.** Threads that handle any packets make their commands in any order,
but those that handle acknowledgements wait for each other. As long as the name that an upload has
found is free when it writes, in every state that is reached the record of a file is the one of the
database or of its upload after the acknowledgements that were written to it, each once, in some
order; and an acknowledgement that was handled without an exception is in the record of a file. -/
theorem acks_serial {c : Threads Record ι}
    (hreach : Relation.ReflTransGen
      (Program.Pool.Locked may (NameFree requests) (Acks requests)) (startRequests requests w) c) :
    (∀ name fi, c.store.database.lookup (fileKey name) = some (.file fi) →
      ∃ fi₀ order, InTurn requests w c name fi₀ order fi) ∧
    ∀ i keepAlive, Acks requests i → (c.threads i).program = .pure keepAlive →
      ∃ req name fi, readPartAck (requests i).packet = some req ∧ HasAcked requests c name i ∧
        c.store.database.lookup (fileKey name) = some (.file fi) ∧
        ∃ part ∈ fi.parts, part.numGet = req.partid.partnum ∧ req.stid ∈ part.locations := by
  obtain ⟨hserial, hwritten⟩ := serial_of_locked hreach
  exact ⟨fun _ _ => hserial.inTurn, fun i keepAlive hack hpure =>
    hserial.listed hack (hwritten i keepAlive hack hpure)⟩

/-- An acknowledgement goes on while no other thread is in the middle of one. -/
theorem locked_advance {i : ι} (hack : Acks requests i)
    (hfree : ∀ j ≠ i, ¬(c.threads j).Running) :
    Relation.ReflTransGen (Program.Pool.Locked may (NameFree requests) (Acks requests)) c
      (Program.Pool.advance exec c i) := by
  unfold Program.Pool.advance
  split
  · rename_i command next h hthread
    exact .single (.perform i command next h _ _ hthread (fun _ j hj _ => hfree j hj)
      (nameFree_of_acks hack _ _) (may_exec _ _))
  · exact .refl

end Threads

def twoAcks (second : Bool) : Request := ackRequest 0 (if second then 1 else 0)

theorem acks_twoAcks (second : Bool) : Acks twoAcks second := by
  cases second <;> rfl

theorem threads_advance_of_ne (c : Threads Record Bool) {i j : Bool} (hj : j ≠ i) :
    (Program.Pool.advance exec c i).threads j = c.threads j := by
  unfold Program.Pool.advance
  split
  · exact Program.Pool.threads_set_of_ne c hj _ _
  · rfl

theorem threads_runSchedule_of_ne (c : Threads Record Bool) {i j : Bool} (hj : j ≠ i) (k : ℕ) :
    (Program.Pool.runSchedule exec c (List.replicate k i)).threads j = c.threads j := by
  induction k generalizing c with
  | zero => rfl
  | succ k ih => exact (ih (Program.Pool.advance exec c i)).trans (threads_advance_of_ne c hj)

/-- One acknowledgement while the other is not in the middle. -/
theorem locked_replicate (i : Bool) {c : Threads Record Bool}
    (hfree : ∀ j ≠ i, ¬(c.threads j).Running)
    (k : ℕ) : Relation.ReflTransGen (Program.Pool.Locked may (NameFree twoAcks) (Acks twoAcks)) c
      (Program.Pool.runSchedule exec c (List.replicate k i)) := by
  induction k generalizing c with
  | zero => exact .refl
  | succ k ih =>
      refine (locked_advance (acks_twoAcks i) hfree).trans (ih fun j hj => ?_)
      rw [threads_advance_of_ne c hj]
      exact hfree j hj

def twoAcksDone : Threads Record Bool :=
  Program.Pool.runSchedule exec (Program.Pool.runSchedule exec (startRequests twoAcks oneFile)
    (List.replicate 4 false)) (List.replicate 4 true)

theorem acks_serial_twoAcks : ∃ req name fi, readPartAck (twoAcks false).packet = some req ∧
    HasAcked twoAcks twoAcksDone name false ∧
    twoAcksDone.store.database.lookup (fileKey name) = some (.file fi) ∧
    (∃ part ∈ fi.parts, part.numGet = req.partid.partnum ∧ req.stid ∈ part.locations) ∧
    ∃ fi₀ order, InTurn twoAcks oneFile twoAcksDone name fi₀ order fi := by
  have hfirst := @locked_replicate false (startRequests twoAcks oneFile)
    (fun _ _ hrunning => hrunning.1 rfl) 4
  have hover : ((Program.Pool.runSchedule exec (startRequests twoAcks oneFile)
      (List.replicate 4 false)).threads false).program = .pure .no := by rfl
  have hsecond := hfirst.trans (@locked_replicate true _ (fun j hj hrunning => by
    obtain rfl : j = false := Bool.eq_false_of_not_eq_true hj
    obtain ⟨-, command, next, hop⟩ := hrunning
    rw [hover] at hop
    cases hop) 4)
  obtain ⟨hrecords, hlisted⟩ := acks_serial hsecond
  have hpure : (twoAcksDone.threads false).program = .pure .no := by
    rw [twoAcksDone, threads_runSchedule_of_ne _ Bool.false_ne_true, hover]
  obtain ⟨req, name, fi, hread, hacked, hfile, hpart⟩ := hlisted false .no (acks_twoAcks _) hpure
  exact ⟨req, name, fi, hread, hacked, hfile, hpart, hrecords name fi hfile⟩

end Mp2p.Master
