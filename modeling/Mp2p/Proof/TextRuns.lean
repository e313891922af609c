import Mp2p.Proof.Refinement
import Mp2p.System.Uploads

/-!
# The system over texts

What a storage or a client does depends on what the master sends and not on how it stores its items.
So a master over the texts can take the place of one over records in any run in which no name and no
address needs an escape, and the other way round.
-/

namespace Mp2p.Texts

open Masks DB DB.Tools Master

variable {boost : PropertyTree} {w : World (Value boost)} {w' : World Record}

theorem recorded_iff_views {V : Type} [Coding V] {w : World V} {partid : PartId}
    {stid : StidType} : System.Recorded w partid stid ↔ ∃ fname fi part,
      nameOf w partid.fid = some fname ∧ fileOf w fname = some fi ∧
        part ∈ fi.parts ∧ part.numGet = partid.partnum ∧ stid ∈ part.locations := by
  simp only [System.Recorded, nameOf, fileOf, Option.bind_eq_some_iff]
  tauto

theorem Related.recorded_iff (h : Related boost w w') (partid : PartId) (stid : StidType) :
    System.Recorded w partid stid ↔ System.Recorded w' partid stid := by
  simp only [recorded_iff_views, h.nameOf_eq, h.fileOf_eq]

theorem Related.partsOfSize_eq (h : Related boost w w') (size : FsizeType) :
    partsOfSize w.database size = partsOfSize w'.database size := by
  have hkey := h.database storageSizesKey
  rw [partsOfSize, partsOfSize]
  generalize w.database.lookup storageSizesKey = text at hkey ⊢
  generalize w'.database.lookup storageSizesKey = record at hkey ⊢
  cases hkey with
  | none => rfl
  | some hjson =>
      rw [Option.bind_some, Option.bind_some]
      exact congrArg (Option.map _) hjson.storageSizes

/-- A placement over texts comes to what it comes to over records. -/
theorem Related.exists_placed (h : Related boost w w') {w₁' : World Record} {env : Env} {fuel : ℕ}
    {size : FsizeType} {fields : List StpField}
    (hplacing : (getStpfieldsForUpload env fuel size).run DB.exec w' =
      (.ok fields, w₁')) :
    ∃ w₁, (getStpfieldsForUpload env fuel size).run DB.exec w = (.ok fields, w₁) ∧
      Related boost w₁ w₁' := by
  obtain ⟨hagree, hafter⟩ := (mirrors_getStpfieldsForUpload env fuel size).run
    (fun _ _ _ _ hasks hrelated => hrelated.exec hasks) h
  rw [hplacing] at hagree hafter
  exact ⟨_, Prod.ext hagree.eq rfl, hafter⟩

end Mp2p.Texts

namespace Mp2p.System

open Masks Network

section Over

variable {V V' S : Type}

/-- The same clients and storages around another master. -/
def State.over (st : State V S) (master : DB.World V') : State V' S :=
  { master, answers := st.answers, tasks := st.tasks, directory := st.directory,
    partAcks := st.partAcks, acked := st.acked, consumed := st.consumed }

/-- Masters that are alike send the same, and are alike after every packet they may handle. -/
structure Alike [DB.Coding V] [DB.Coding V'] (terms : Terms)
    (R : DB.World V → DB.World V' → Prop) : Prop where
  initial : R .initial .initial
  sent : ∀ {w : DB.World V} {w' : DB.World V'}, R w w' → w.sent = w'.sent
  handle : ∀ {w : DB.World V} {w' : DB.World V'} {r : Master.Request}, R w w' → terms.packet r →
    R (Master.handle w r) (Master.handle w' r)

variable [DecidableEq S] {terms : Terms} {st st' : State V S} {w : DB.World V'}

theorem over_perform (j : ℕ) (task : Task S) (p : Packet) (flushed : ℕ)
    (command : Storage.Command) (next : command.Answer → Storage.Handler KeepAlive) :
    (st.perform j task p flushed command next).over w =
      (st.over w).perform j task p flushed command next := by
  cases command with
  | read path => rfl
  | write path data => rfl
  | send peer message => cases peer <;> rfl

theorem master_perform (j : ℕ) (task : Task S) (p : Packet) (flushed : ℕ)
    (command : Storage.Command) (next : command.Answer → Storage.Handler KeepAlive) :
    (st.perform j task p flushed command next).master = st.master := by
  cases command with
  | read path => rfl
  | write path data => rfl
  | send peer message => cases peer <;> rfl

variable [DB.Coding V] [DB.Coding V'] {R : DB.World V → DB.World V' → Prop}
  {hashBufferHex : Bytes → Sha1Type} {setup : S → Storage.Setup}

/-- **One step.** Only three steps concern the master, and what it sends is the same. -/
theorem Step.over (hstep : Step hashBufferHex setup terms st st') (halike : Alike terms R)
    (hmasters : R st.master w) :
    ∃ w', R st'.master w' ∧ Step hashBufferHex setup terms (st.over w) (st'.over w') := by
  cases hstep with
  | request r hterms => exact ⟨_, halike.handle hmasters hterms.1, .request r hterms⟩
  | upload r file rdcy fname answer hterms hrequest hanswer hwhat =>
      have hhandle := halike.handle hmasters hterms
      refine ⟨_, hhandle, .upload r file rdcy fname answer hterms hrequest ?_ hwhat⟩
      change (Master.handle w r).sent = w.sent ++ [answer]
      rw [← halike.sent hhandle, ← halike.sent hmasters, hanswer]
  | start file answer p answers listener fid stplist hanswers harrival hread =>
      exact ⟨w, hmasters, .start file answer p answers listener fid stplist
        hanswers harrival hread⟩
  | send j task toSend htask hready hlt hpacket =>
      exact ⟨w, hmasters, .send j task toSend htask hready hlt hpacket⟩
  | receive j task packet p rest env htask hidle hpacket harrival henv =>
      exact ⟨w, hmasters, .receive j task packet p rest env htask hidle hpacket
        harrival henv⟩
  | perform j task p flushed command next htask hhandling hprompt =>
      refine ⟨w, ?_, ?_⟩
      · rwa [master_perform]
      · rw [over_perform]
        exact .perform j task p flushed command next htask hhandling hprompt
  | finish j task p keepAlive htask hhandling =>
      exact ⟨w, hmasters, .finish j task p keepAlive htask hhandling⟩
  | fail j task p e htask hhandling =>
      exact ⟨w, hmasters, .fail j task p e htask hhandling⟩
  | deliver packet rest r hterms hpartAcks harrival =>
      exact ⟨_, halike.handle hmasters hterms, .deliver packet rest r hterms
        hpartAcks harrival⟩
  | consume j task ack answered p last rest htask hwaiting hlast hack haccepted =>
      exact ⟨w, hmasters, .consume j task ack answered p last rest htask hwaiting
        hlast hack haccepted⟩
  | refuse j task ack answered p rest htask hwaiting hack hthrew =>
      exact ⟨w, hmasters, .refuse j task ack answered p rest htask hwaiting hack
        hthrew⟩
  | lose j task htask hwaiting hclosed =>
      exact ⟨w, hmasters, .lose j task htask hwaiting hclosed⟩

/-- **Any run.** -/
theorem Reachable.over {directory : S → Storage.Directory} (halike : Alike terms R)
    (h : Reachable hashBufferHex setup terms directory st) :
    ∃ w, R st.master w ∧ Reachable hashBufferHex setup terms directory (st.over w) := by
  induction h with
  | refl => exact ⟨.initial, halike.initial, .refl⟩
  | tail _ hstep ih =>
      obtain ⟨w, hmasters, hreach⟩ := ih
      obtain ⟨w', hmasters', hstep'⟩ := hstep.over halike hmasters
      exact ⟨w', hmasters', hreach.tail hstep'⟩

end Over

/-! ### Masters over texts -/

section Texts

open Texts DB

variable {boost : PropertyTree} {S : Type} [DecidableEq S] {hashBufferHex : Bytes → Sha1Type}
  {setup : S → Storage.Setup} {terms : Terms} {directory : S → Storage.Directory}

theorem alike_related (hboost : boost.Correct) (hplain : ∀ r, terms.packet r → PlainRequest r) :
    Alike terms (Related boost) where
  initial := related_initial hboost
  sent := Related.sent
  handle h hterms := (h.handle hboost (hplain _ hterms)).2

/-- What the system over texts comes to, it comes to over records. -/
theorem exists_over_records (hboost : boost.Correct)
    (hplain : ∀ r, terms.packet r → PlainRequest r) {st : State (Value boost) S}
    (h : Reachable hashBufferHex setup terms directory st) :
    ∃ w : World Record, Related boost st.master w ∧
      Reachable hashBufferHex setup terms directory (st.over w) :=
  h.over (alike_related hboost hplain)

/-- What the system over records comes to, it comes to over texts. -/
theorem exists_over_texts (hboost : boost.Correct)
    (hplain : ∀ r, terms.packet r → PlainRequest r) {st : State Record S}
    (h : Reachable hashBufferHex setup terms directory st) :
    ∃ w : World (Value boost), Related boost w st.master ∧
      Reachable hashBufferHex setup terms directory (st.over w) := by
  have halike := alike_related hboost hplain
  exact h.over (R := fun w' w => Related boost w w') ⟨halike.initial,
    fun hrelated => (halike.sent hrelated).symm, fun hrelated => halike.handle hrelated⟩

end Texts

end Mp2p.System
