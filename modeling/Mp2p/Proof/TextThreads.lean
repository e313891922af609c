import Mp2p.Proof.Refinement

/-!
# Threads over texts

Threads over texts are beside threads over records that have done the same: they have read and written
texts that stand for the records, and sent the same packets. What is known of all runs of the threads
over records is so known of those over texts.
-/

namespace Mp2p.Texts

open Masks Network DB DB.Tools Master

section Histories

variable {boost : PropertyTree} {h : CommandHistory (Value boost)} {h' : CommandHistory Record}

/-- The commands over texts are those over records, one by one. -/
abbrev HistoriesRel (boost : PropertyTree) (h : CommandHistory (Value boost))
    (h' : CommandHistory Record) : Prop :=
  List.Forall₂ (Program.Pool.EventsRel (Asks boost) (Answers boost)) h h'

inductive EventCases (boost : PropertyTree) : (Σ command : Command (Value boost), command.Answer) →
    (Σ command : Command Record, command.Answer) → Prop where
  | get (key : Bytes) (text : Option (Value boost)) (record : Option Record)
      (hanswers : Option.Rel (Represents boost) text record) :
      EventCases boost ⟨.get key, text⟩ ⟨.get key, record⟩
  | put (key : Bytes) (text : Value boost) (record : Record)
      (hrepresents : Represents boost text record) :
      EventCases boost ⟨.put key text, ()⟩ ⟨.put key record, ()⟩
  | statics (statics : Statics) : EventCases boost ⟨.statics, statics⟩ ⟨.statics, statics⟩
  | setStatics (statics : Statics) :
      EventCases boost ⟨.setStatics statics, ()⟩ ⟨.setStatics statics, ()⟩
  | send (packet : Packet) : EventCases boost ⟨.send packet, ()⟩ ⟨.send packet, ()⟩

theorem eventCases {event : Σ command : Command (Value boost), command.Answer}
    {event' : Σ command : Command Record, command.Answer}
    (hevent : Program.Pool.EventsRel (Asks boost) (Answers boost) event event') :
    EventCases boost event event' := by
  obtain ⟨command, answer⟩ := event
  obtain ⟨command', answer'⟩ := event'
  obtain ⟨hasks, hanswers⟩ := hevent
  cases command with
  | get key =>
      cases command' with
      | get key' =>
          obtain rfl : key = key' := hasks
          exact .get key answer answer' hanswers
      | _ => exact hasks.elim
  | put key text =>
      cases command' with
      | put key' record =>
          obtain ⟨rfl, hrepresents⟩ := hasks
          exact .put key text record hrepresents
      | _ => exact hasks.elim
  | statics =>
      cases command' with
      | statics =>
          obtain rfl : answer = answer' := hanswers
          exact .statics answer
      | _ => exact hasks.elim
  | setStatics statics =>
      cases command' with
      | setStatics statics' =>
          obtain rfl : statics = statics' := hasks
          exact .setStatics statics
      | _ => exact hasks.elim
  | send packet =>
      cases command' with
      | send packet' =>
          obtain rfl : packet = packet' := hasks
          exact .send packet
      | _ => exact hasks.elim

theorem rel_ite {α β : Type} {R : α → β → Prop} {p : Prop} [Decidable p] {x x' : Option α}
    {y y' : Option β} (h : Option.Rel R x y) (h' : Option.Rel R x' y') :
    Option.Rel R (if p then x else x') (if p then y else y') := by
  split_ifs
  · exact h
  · exact h'

theorem lastRead_rel (hhistories : HistoriesRel boost h h') (key : Bytes) :
    Option.Rel (Represents boost) (lastRead h key) (lastRead h' key) := by
  induction hhistories with
  | nil => exact .none
  | cons hevent _ ih =>
      cases eventCases hevent with
      | get other text record hanswers =>
          exact rel_ite hanswers ih
      | put other text record hrepresents =>
          exact rel_ite (.some hrepresents) ih
      | _ => exact ih

theorem putsOf_rel (hhistories : HistoriesRel boost h h') :
    List.Forall₂ (fun entry entry' => entry.1 = entry'.1 ∧ Represents boost entry.2 entry'.2)
      (putsOf h) (putsOf h') := by
  induction hhistories with
  | nil => exact .nil
  | cons hevent _ ih =>
      cases eventCases hevent with
      | put key text record hrepresents => exact .cons ⟨rfl, hrepresents⟩ ih
      | _ => exact ih

theorem send_mem_iff (hhistories : HistoriesRel boost h h') (packet : Packet) :
    ⟨.send packet, ()⟩ ∈ h ↔ ⟨.send packet, ()⟩ ∈ h' := by
  induction hhistories with
  | nil => exact iff_of_false List.not_mem_nil List.not_mem_nil
  | cons hevent _ ih =>
      rw [List.mem_cons, List.mem_cons, ih]
      refine or_congr_left ?_
      cases eventCases hevent with
      | send other =>
          constructor
          · intro heq
            cases heq
            rfl
          · intro heq
            cases heq
            rfl
      | _ => exact iff_of_false nofun nofun

theorem accepted_iff (hhistories : HistoriesRel boost h h') (fid : FidType) :
    Accepted h fid ↔ Accepted h' fid :=
  exists_congr fun _ => send_mem_iff hhistories _

theorem registered_iff (hhistories : HistoriesRel boost h h') (stid : StidType) :
    Registered h stid ↔ Registered h' stid :=
  send_mem_iff hhistories _

theorem exists_mem_of_forall₂ {α β : Type} {R : α → β → Prop} {l : List α} {l' : List β}
    (h : List.Forall₂ R l l') {a : α} (ha : a ∈ l) : ∃ b ∈ l', R a b := by
  induction h with
  | nil => cases ha
  | cons hab _ ih =>
      obtain rfl | ha := List.mem_cons.mp ha
      · exact ⟨_, List.mem_cons_self, hab⟩
      · obtain ⟨b, hb, hR⟩ := ih ha
        exact ⟨b, List.mem_cons_of_mem _ hb, hR⟩

theorem exists_of_rel {α β : Type} {R : α → β → Prop} {x : Option α} {y : Option β}
    (h : Option.Rel R x y) {b : β} (hy : y = some b) : ∃ a, x = some a ∧ R a b := by
  rw [hy] at h
  cases h with
  | some hab => exact ⟨_, rfl, hab⟩

end Histories

/-! ### Beside each other -/

section Abreast

variable {boost : PropertyTree} {ι : Type} {c : Threads (Value boost) ι} {d : Threads Record ι}

/-- The threads over texts are beside those over records. -/
abbrev Abreast (boost : PropertyTree) (c : Threads (Value boost) ι) (d : Threads Record ι) : Prop :=
  Program.Pool.Beside (Asks boost) (Answers boost) Eq (Related boost) c d

theorem exists_put (h : Abreast boost c d) {i : ι} {key : Bytes} {text : Value boost}
    (hput : (key, text) ∈ puts c i) :
    ∃ record, (key, record) ∈ puts d i ∧ Represents boost text record := by
  obtain ⟨⟨key', record⟩, hmem, rfl, hrepresents⟩ :=
    exists_mem_of_forall₂ (putsOf_rel (h.histories i)) hput
  exact ⟨record, hmem, hrepresents⟩

theorem exists_put_text (h : Abreast boost c d) {i : ι} {key : Bytes} {record : Record}
    (hput : (key, record) ∈ puts d i) :
    ∃ text, (key, text) ∈ puts c i ∧ Represents boost text record := by
  obtain ⟨⟨key', text⟩, hmem, rfl, hrepresents⟩ :=
    exists_mem_of_forall₂ (putsOf_rel (h.histories i)).flip hput
  exact ⟨text, hmem, hrepresents⟩

section Requests

variable (hboost : boost.Correct) {w : World (Value boost)} {w' : World Record}
  (hrelated : Related boost w w') {requests : ι → Request}
  (hplain : ∀ i, PlainRequest (requests i))
include hboost hrelated hplain

theorem abreast_startRequests :
    Abreast boost (startRequests requests w) (startRequests requests w') :=
  Program.Pool.beside_start hrelated fun i => mirrors_recvDispatcher hboost (hplain i)

variable [DecidableEq ι]

end Requests

/-! ### Acknowledgements -/

theorem nameFree_of_asks {requests : ι → Request} {i : ι} {command : Command (Value boost)}
    {command' : Command Record} {w : World (Value boost)} {w' : World Record}
    (hasks : Asks boost command command') (hrelated : Related boost w w')
    (hfree : NameFree requests i w command) : NameFree requests i w' command' := by
  cases command with
  | put key text =>
      cases command' with
      | put key' record =>
          obtain ⟨rfl, hrepresents⟩ := hasks
          intro hfile hkind
          rw [← hrepresents.file] at hfile
          rw [AList.lookup_eq_none, ← hrelated.mem_iff, ← AList.lookup_eq_none]
          exact hfree hfile hkind
      | _ => exact hasks.elim
  | _ =>
      cases command' with
      | put key record => exact hasks.elim
      | _ => trivial

/-- **Acknowledgements are serial over texts.** Beside threads over texts there are threads over
records, and the file under a name is decoded to the one their acknowledgements come to in some
order. -/
theorem acks_serial_over_texts [DecidableEq ι] (hboost : boost.Correct) {w : World (Value boost)}
    {w' : World Record} (hrelated : Related boost w w') {requests : ι → Request}
    (hplain : ∀ i, PlainRequest (requests i))
    (hreach : Relation.ReflTransGen
      (Program.Pool.Locked may (NameFree requests) (Acks requests)) (startRequests requests w) c) :
    ∃ d : Threads Record ι, Abreast boost c d ∧
      (∀ name fi, fileOf c.store name = some fi →
        ∃ fi₀ order, InTurn requests w' d name fi₀ order fi) ∧
      ∀ i keepAlive, Acks requests i → (c.threads i).program = .pure keepAlive →
        ∃ req name fi, readPartAck (requests i).packet = some req ∧ HasAcked requests d name i ∧
          fileOf c.store name = some fi ∧
          ∃ part ∈ fi.parts, part.numGet = req.partid.partnum ∧ req.stid ∈ part.locations := by
  obtain ⟨d, hreach', habreast⟩ : ∃ d : Threads Record ι, Relation.ReflTransGen
      (Program.Pool.Locked may (NameFree requests) (Acks requests)) (startRequests requests w') d ∧
        Abreast boost c d :=
    (abreast_startRequests hboost hrelated hplain).locked
      (fun _ _ _ _ _ _ hasks hrelated hmay => hrelated.may hasks hmay)
      (fun _ _ _ _ _ hasks hrelated => nameFree_of_asks hasks hrelated) hreach
  obtain ⟨hserial, hwritten⟩ := serial_of_locked hreach'
  refine ⟨d, habreast, fun name fi hfile => ?_, fun i keepAlive hack hpure => ?_⟩
  · rw [habreast.store.fileOf_eq] at hfile
    exact hserial.inTurn (fileOf_eq_some.mp hfile)
  · have hmirrors := habreast.threads i
    rw [hpure] at hmirrors
    obtain ⟨_, hpure', rfl⟩ := Program.exists_of_pure_mirrors hmirrors
    obtain ⟨req, name, fi, hread, hacked, hfile, hpart⟩ :=
      hserial.listed hack (hwritten i keepAlive hack hpure')
    exact ⟨req, name, fi, hread, hacked,
      (habreast.store.fileOf_eq name).trans (fileOf_eq_some.mpr hfile), hpart⟩

end Abreast

end Mp2p.Texts
