import Mp2p.Proof.SmallUploads
import Mp2p.Proof.TextRuns
import Mp2p.Proof.Versions

/-!
# What can be lost

Nothing a storage has acknowledged is lost as long as the names that are uploaded need no escape, the
file of a part is written before the part is acknowledged, and the count of the files has not come
round. Each of the three is needed: a name with a quote makes the text of the files one nobody can
read, a file may be behind its stream, and the upload after the 2 ^ 64th gets the number of the first.
-/

namespace Mp2p.System

open Masks Network Texts

/-- The names and the addresses the master handles need no escape, and nothing is left in the stream
of a file when its part is acknowledged. -/
def Terms.careful : Terms := ⟨PlainRequest, fun _ => True, True⟩

section Kept

variable {S : Type} [DecidableEq S] {hashBufferHex : Bytes → Sha1Type} {setup : S → Storage.Setup}
  {directory : S → Storage.Directory}

/-- **No acknowledged part is lost.** In every state that any interleaving of any number of clients,
tasks and storages comes to, with a master over texts up to its 2 ^ 64th upload. -/
theorem kept_of_reachable {boost : DB.PropertyTree} (hboost : boost.Correct)
    {st : State (Value boost) S} (h : Reachable hashBufferHex setup .careful directory st)
    (hfew : Master.uploads st.master ≤ 2 ^ 64) : Kept setup st := by
  obtain ⟨w, hrelated, hreach⟩ := exists_over_records hboost (fun _ => id) h
  have hfew' : Master.uploads (st.over w).master ≤ 2 ^ 64 := hrelated.uploads.symm.trans_le hfew
  have hkept : Kept setup (st.over w) :=
    (sound_of_reachable hreach hfew').kept (durable_of_reachable hreach trivial hfew')
  refine ⟨hkept.held, fun s p hp => ?_, hkept.answers⟩
  obtain ⟨part, data, hread, htold⟩ := hkept.told s p hp
  exact ⟨part, data, hread, htold.imp_right (hrelated.recorded_iff _ _).mpr⟩

end Kept

/-! ### Plain uploads -/

theorem plain_uploadOf {n : ℕ} (hn : n < 10 ^ 20) : PlainRequest (uploadOf n) := by
  refine ⟨fun _ req fname hread => ?_, fun hkind => ?_⟩
  · rw [uploadOf, readUpReq_uploadUnder (length_digits_le hn)] at hread
    cases hread
    exact plain_digits n
  · rw [uploadOf, kindOf_uploadUnder (length_digits_le hn)] at hkind
    cases hkind

theorem plain_registration (port : PortType) (avspace : AvspaceType) :
    PlainRequest (DB.Tools.registration port avspace) := by
  refine ⟨nofun, fun _ hostAddr hhost => ?_⟩
  cases hhost
  exact plain_ascii (by decide)

/-- Terms that ask of a packet of the master no more than to be plain. -/
theorem allow_of_plain {terms : Terms} (hpacket : ∀ r, PlainRequest r → terms.packet r)
    (hstranger : ∀ r : Master.Request, Master.kindOf r.packet ≠ .partAck → terms.stranger r) :
    terms.Allow where
  uploads n hn := by
    refine ⟨hpacket _ (plain_uploadOf hn), hstranger _ ?_⟩
    rw [uploadOf, kindOf_uploadUnder (length_digits_le hn)]
    decide
  registration := ⟨hpacket _ (plain_registration _ _), hstranger _ (by decide)⟩
  partAcks r hkind := by
    apply hpacket r
    apply plain_of_kind
    · rw [hkind]
      decide
    · rw [hkind]
      decide

/-- A file of three bytes is uploaded to a master over texts. -/
theorem exists_kept_of_reachable :
    ∃ (st : State (Value DB.referenceTree) Unit) (p : Packet), Runs .careful st ∧
      ((), p) ∈ st.acked ∧ Kept onlyStorage st := by
  have hallow : Terms.careful.Allow := allow_of_plain (fun _ => id) fun _ _ => trivial
  obtain ⟨st, p, hst, -, -, hexchanged⟩ := exists_first hallow 3 fun _ => le_rfl
  obtain ⟨w, hrelated, hreach⟩ := exists_over_texts DB.correct_referenceTree (fun _ => id) hst
  have huploads : Master.uploads st.master = 1 :=
    hexchanged.master ▸ (filled_oneRegistered.next (by decide)).uploads
  refine ⟨st.over w, p, hreach, ?_, kept_of_reachable DB.correct_referenceTree hreach ?_⟩
  · change _ ∈ st.acked
    rw [hexchanged.acked]
    exact List.mem_cons_self
  · refine (hrelated.uploads.trans huploads).trans_le (by decide)

/-! ### A name that needs an escape -/

def quote : Bytes := DB.ascii "\""

/-- Nobody can read the text of the files. -/
def Unreadable {V : Type} [DB.Coding V] (w : DB.World V) : Prop :=
  (w.database.lookup DB.filesKey).bind DB.Coding.files? = none

theorem eq_of_same_empty {mof : DB.MetaOnFilesItem} (h : mof.Same ⟨0, 0, ∅⟩) :
    mof = ⟨0, 0, ∅⟩ := by
  obtain ⟨count, totalSize, names⟩ := mof
  obtain ⟨rfl, rfl, hnames⟩ := h
  have hempty : names = ∅ := by
    refine AList.ext (List.eq_nil_iff_forall_not_mem.mpr fun entry hentry => ?_)
    have hlookup := AList.mem_lookup_iff.mpr hentry
    rw [hnames entry.1] at hlookup
    cases hlookup
  rw [hempty]

theorem files?_of_empty {json : Value DB.referenceTree}
    (h : Represents DB.referenceTree json (.files ⟨0, 0, ∅⟩)) :
    DB.Coding.files? json = some ⟨0, 0, ∅⟩ := by
  have hrel := h.files_rel
  rw [DB.Record.files?_files] at hrel
  change DB.MetaOnFilesItem.deserialize DB.referenceTree json = _
  generalize DB.MetaOnFilesItem.deserialize DB.referenceTree json = decoded at hrel ⊢
  cases hrel with
  | some hmof => rw [eq_of_same_empty hmof.1]

def registeredTexts : DB.World (Value DB.referenceTree) :=
  Master.handle .initial (DB.Tools.registration 4242 (UInt64.ofNat (2 ^ 64 - 1)))

theorem related_registeredTexts : Related DB.referenceTree registeredTexts Master.oneRegistered := by
  rw [registeredTexts, Master.oneRegistered]
  exact ((related_initial DB.correct_referenceTree).handle DB.correct_referenceTree
    (plain_registration 4242 (UInt64.ofNat (2 ^ 64 - 1)))).2

theorem exists_placed_registeredTexts : ∃ w₁ : DB.World (Value DB.referenceTree),
    (DB.Tools.getStpfieldsForUpload DB.Tools.anyHost 2 3).run DB.exec registeredTexts =
      (.ok [onlyField], w₁) ∧
    Related DB.referenceTree w₁ { Master.oneRegistered with statics := usedStatics } :=
  related_registeredTexts.exists_placed filled_oneRegistered.placing

def quotedFile : DB.FileItem :=
  { Master.newFile ⟨3, 1⟩ quote with name := DB.Tools.suffixed quote 0, id := 0 }

/-- The upload is accepted, and leaves a text of the files that cannot be read. -/
theorem exists_handle_quote : ∃ w : DB.World (Value DB.referenceTree),
    Master.handle registeredTexts (uploadUnder quote) =
      Master.sending w [Master.upPiecesLocPacket 0 [onlyField]] ∧
    w.sent = registeredTexts.sent ∧ Unreadable w := by
  obtain ⟨w, hplacing, hrelated⟩ := exists_placed_registeredTexts
  have hempty : Master.oneRegistered.database.lookup DB.filesKey = some (.files ⟨0, 0, ∅⟩) := rfl
  obtain ⟨json, hjson, hrepresents⟩ := hrelated.exists_text hempty
  have hfiles : (w.database.lookup DB.filesKey).bind DB.Coding.files? = some ⟨0, 0, ∅⟩ := by
    rw [hjson, Option.bind_some, files?_of_empty hrepresents]
  have hfree : w.database.lookup (DB.fileKey (DB.Tools.suffixed quote 0)) = none := by
    rw [AList.lookup_eq_none, hrelated.mem_iff, ← AList.lookup_eq_none]
    rfl
  have htable : DB.Tools.partsOfSize registeredTexts.database 3 = some 1 :=
    (related_registeredTexts.partsOfSize_eq 3).trans filled_oneRegistered.table
  obtain ⟨next, hnext⟩ : ∃ next, DB.Coding.ofFiles (V := Value DB.referenceTree)
      (Master.addFile ⟨0, 0, ∅⟩ quotedFile) = some next :=
    Option.isSome_iff_exists.mp (by decide +kernel)
  have hregister : DB.Tools.registerFile (Master.newFile ⟨3, 1⟩ quote) (DB.Tools.suffixed quote 0) w =
      (.ok quotedFile, (w.put DB.filesKey next).put (DB.fileKey (DB.Tools.suffixed quote 0))
        (DB.Coding.ofFile quotedFile)) :=
    DB.Tools.registerFile_of_some hfiles hnext
  have hshort : quote.length ≤ 20 := by decide
  have hhandle := handle_uploadUnder hshort htable hplacing hfree hregister
  refine ⟨_, hhandle, ?_, ?_⟩
  · exact hrelated.sent.trans related_registeredTexts.sent.symm
  · -- What the upload wrote is the text of a name with a quote.
    have hlookup : ((w.put DB.filesKey next).put (DB.fileKey (DB.Tools.suffixed quote 0))
        (DB.Coding.ofFile quotedFile)).database.lookup DB.filesKey = some next :=
      (AList.lookup_insert_ne Master.fileKey_ne_filesKey.symm).trans (AList.lookup_insert _)
    rw [Unreadable, hlookup]
    exact DB.Tools.unreadable_quote
      (files?_of_empty (represents_filesJson DB.correct_referenceTree)) hnext

def acknowledged : Master.Request :=
  let m : Message := .partAck 0 ⟨0, 0⟩ 10
  ⟨received m.packet.header m.body, DB.Tools.anyHost, 0⟩

theorem handle_acknowledged {V : Type} [DB.Coding V] {w : DB.World V} (h : Unreadable w) :
    Master.handle w acknowledged = w := by
  have hdispatch : Master.recvDispatcher (V := V) acknowledged = Master.smPartAck acknowledged := rfl
  rw [Master.handle, hdispatch, Master.smPartAck, DB.Tools.run_cmdGet_decode, h]

theorem not_recorded {V : Type} [DB.Coding V] {w : DB.World V} (h : Unreadable w) (partid : PartId)
    (stid : StidType) : ¬Recorded w partid stid := by
  rintro ⟨mof, _, _, _, hfiles, -⟩
  rw [h] at hfiles
  cases hfiles

/-- The part of a file named with a quote is on the storage, and the master throws when it is told. -/
theorem exists_lost_quote {terms : Terms} (hallow : terms.Allow)
    (hquote : terms.packet (uploadUnder quote)) :
    ∃ (st : State (Value DB.referenceTree) Unit) (p : Packet), Runs terms st ∧
      Master.uploads st.master = 1 ∧ ((), p) ∈ st.acked ∧ Accepted abc p ∧ st.partAcks = [] ∧
      Unreadable st.master := by
  obtain ⟨p, hp⟩ := exists_accepted_abc
  obtain ⟨w, hhandle, hsent, hunreadable⟩ := exists_handle_quote
  have hregistered : Runs terms { (.start fun _ => ∅ : State (Value DB.referenceTree) Unit) with
      master := registeredTexts } := .single (.request _ hallow.registration)
  have hupload := hregistered.tail (.upload (uploadUnder quote) abc 1 quote
    (Master.upPiecesLocPacket 0 [onlyField]) hquote (arrival_uploadUnder (by decide))
    (by rw [hhandle, Master.sending, hsent]) rfl)
  obtain ⟨st, hst, -, hexchanged⟩ := exists_exchange hupload hp rfl 3 fun _ => le_rfl
  have hmaster : st.master = Master.sending w [Master.upPiecesLocPacket 0 [onlyField]] :=
    hexchanged.master.trans hhandle
  have hsame : Master.handle st.master acknowledged = st.master :=
    handle_acknowledged (hmaster ▸ hunreadable)
  have harrival : arrival (Storage.partAckPacket 0 ⟨0, 0⟩ 10) = some acknowledged.packet :=
    arrival_message (.partAck 0 ⟨0, 0⟩ 10) (by decide)
  have hdelivered := hst.tail (.deliver _ [] acknowledged
    (hallow.partAcks _ (by decide)) (hexchanged.partAcks ▸ .refl _) harrival)
  rw [hsame] at hdelivered
  refine ⟨_, p, hdelivered, ?_, ?_, hp, rfl, hmaster ▸ hunreadable⟩
  · change Master.uploads st.master = 1
    have huploads : Master.uploads w = 0 := by
      rw [Master.uploads, hsent]
      exact related_registeredTexts.uploads.trans filled_oneRegistered.uploads
    rw [hmaster, Master.uploads_sending, if_pos ⟨rfl, rfl⟩, huploads]
  · change _ ∈ st.acked
    rw [hexchanged.acked]
    exact List.mem_cons_self

theorem not_kept_of_unreadable {V : Type} [DB.Coding V] {st : State V Unit} {p : Packet}
    (hacked : ((), p) ∈ st.acked) (hpartAcks : st.partAcks = []) (h : Unreadable st.master) :
    ¬Kept onlyStorage st := by
  intro hkept
  obtain ⟨part, data, -, hflight | hrecorded⟩ := hkept.told () p hacked
  · rw [hpartAcks] at hflight
    cases hflight
  · exact not_recorded h _ _ hrecorded

theorem not_kept_of_lookup {V : Type} [DB.Coding V] {st : State V Unit} {p : Packet}
    (hacked : ((), p) ∈ st.acked) (hp : Accepted abc p) {contents : Bytes}
    (hlookup : (st.directory ()).lookup onlyPath = some contents) (hne : contents ≠ abc.data) :
    ¬Kept onlyStorage st := by
  intro hkept
  obtain ⟨part, data, hread, -, hheld⟩ := hkept.held () p hacked
  rw [hp.read] at hread
  cases hread
  exact hne (Option.some_inj.mp (hlookup.symm.trans hheld))

/-- A name that needs an escape is enough: the part of its file is acknowledged, and neither is the
master being told of it nor has it recorded it. -/
theorem not_kept_of_reachable :
    ¬∀ st : State (Value DB.referenceTree) Unit, Runs .free st → Kept onlyStorage st := by
  intro hall
  have hallow : Terms.free.Allow := allow_of_plain (fun _ _ => trivial) fun _ _ => trivial
  obtain ⟨st, p, hst, -, hacked, -, hpartAcks, hunreadable⟩ :=
    exists_lost_quote hallow trivial
  exact not_kept_of_unreadable hacked hpartAcks hunreadable (hall st hst)

/-- Without any of the three, something is lost. -/
theorem careful_needed :
    (∃ st : State (Value DB.referenceTree) Unit,
      Runs { Terms.careful with packet := fun _ => True } st ∧
        Master.uploads st.master ≤ 2 ^ 64 ∧ ¬Kept onlyStorage st) ∧
    (∃ st : State (Value DB.referenceTree) Unit, Runs { Terms.careful with prompt := False } st ∧
      Master.uploads st.master ≤ 2 ^ 64 ∧ ¬Kept onlyStorage st) ∧
    ∃ st : State (Value DB.referenceTree) Unit, Runs .careful st ∧ ¬Kept onlyStorage st := by
  refine ⟨?_, ?_, ?_⟩
  · have hallow : Terms.Allow { Terms.careful with packet := fun _ => True } :=
      allow_of_plain (fun _ _ => trivial) fun _ _ => trivial
    obtain ⟨st, p, hst, huploads, hacked, -, hpartAcks, hunreadable⟩ :=
      exists_lost_quote hallow trivial
    exact ⟨st, hst, huploads.trans_le (by decide),
      not_kept_of_unreadable hacked hpartAcks hunreadable⟩
  · -- Nothing of the file has got past its stream.
    have hallow : Terms.Allow { Terms.careful with prompt := False } :=
      allow_of_plain (fun _ => id) fun _ _ => trivial
    obtain ⟨st, p, hst, hp, -, hexchanged⟩ := exists_first hallow 0 nofun
    obtain ⟨w, hrelated, hreach⟩ := exists_over_texts DB.correct_referenceTree (fun _ => id) hst
    have huploads : Master.uploads st.master = 1 :=
      hexchanged.master ▸ (filled_oneRegistered.next (by decide)).uploads
    refine ⟨st.over w, hreach, (hrelated.uploads.trans huploads).trans_le (by decide), ?_⟩
    have hacked : ((), p) ∈ (st.over w).acked := hexchanged.acked ▸ List.mem_cons_self
    exact not_kept_of_lookup hacked hp hexchanged.held (by decide)
  · have hallow : Terms.careful.Allow := allow_of_plain (fun _ => id) fun _ _ => trivial
    obtain ⟨st, p, hst, hp, hacked, hlookup⟩ := exists_wrapped hallow
    obtain ⟨w, -, hreach⟩ := exists_over_texts DB.correct_referenceTree (fun _ => id) hst
    have hacked' : ((), p) ∈ (st.over w).acked := hacked
    exact ⟨st.over w, hreach, not_kept_of_lookup hacked' hp hlookup (by decide)⟩

end Mp2p.System
