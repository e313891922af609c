import Mp2p.Proof.Coherence

/-!
# A master that is started again

A new master over the records of the last one finds them all and writes none, so what the requests
keep is kept over restarts as well.
-/

namespace Mp2p.Master

open Masks Network DB

variable {w : World Record} {mof : MetaOnFilesItem} {mos : MetaOnStoragesItem}

theorem run_fill {α : Type} {key : Bytes} {old : Record} (record : Record)
    {g : Unit → Handler Record α} (h : w.database.lookup key = some old) :
    (tryGet key >>= fun old => if old.isNone then cmdPut key record >>= g else g ()).run
      exec w = (g ()).run exec w := by
  change Program.run exec (if (w.database.lookup key).isNone then _ else _) w = _
  rw [h]
  rfl

/-- Over the records of a master before it a new one writes none. -/
theorem restart_eq {sizes storages files : Record}
    (hsizes : w.database.lookup storageSizesKey = some sizes)
    (hstorages : w.database.lookup storagesKey = some storages)
    (hfiles : w.database.lookup filesKey = some files) :
    w.restart = { w with statics := ⟨false, 0, []⟩ } := by
  have hrun : getInstance.run exec { w with statics := ⟨false, 0, []⟩ } =
      (.ok (), { w with statics := ⟨false, 0, []⟩ }) := by
    refine Eq.trans (run_fill _ hsizes) ?_
    refine Eq.trans (run_fill _ hstorages) ?_
    change Program.run exec (if (w.database.lookup filesKey).isNone then _ else _) _ = _
    rw [hfiles]
    rfl
  rw [World.restart, hrun]

def Keeps (w : World Record) : Prop :=
  ∃ mof mos, Consistent w mof mos ∧
    w.database.lookup storageSizesKey = some (.storageSizes Master.storageSizes)

theorem Keeps.event (h : Keeps w) (event : Event)
    (huploads : uploads (event.apply w) < 2 ^ 64)
    (hregistrations : registrations (event.apply w) < 2 ^ 32) : Keeps (event.apply w) := by
  obtain ⟨mof, mos, hconsistent, htable⟩ := h
  cases event with
  | request r =>
      have heffect := effect_handle w r
      obtain ⟨mof', mos', h⟩ := hconsistent.effect heffect huploads hregistrations
      refine ⟨mof', mos', h, ?_⟩
      rw [← lookup_storageSizes_of_effect heffect] at htable
      exact htable
  | restart =>
      have hrestart := restart_eq htable hconsistent.storages.storages hconsistent.files.files
      rw [Event.apply, hrestart]
      exact ⟨mof, mos, ⟨hconsistent.files, hconsistent.storages, hconsistent.count_files,
        hconsistent.count_storages⟩, htable⟩

theorem all_fill {α : Type} (key : Bytes) (record : Record) {g : Unit → Handler Record α}
    (hg : (g ()).All fun command => ∀ packet, command ≠ .send packet) :
    (tryGet key >>= fun old => if old.isNone then cmdPut key record >>= g else g ()).All
      fun command => ∀ packet, command ≠ .send packet := by
  refine Program.all_bind (Program.all_perform nofun) fun old => ?_
  cases old with
  | some _ => exact hg
  | none => exact Program.all_bind (Program.all_perform nofun) fun _ => hg

theorem sent_restart (w : World Record) : w.restart.sent = w.sent := by
  have hexec : ∀ command : Command Record, (∀ packet, command ≠ .send packet) →
      ∀ w, (exec command w).2.sent = w.sent := by
    intro command hcommand w
    cases command with
    | send packet => exact absurd rfl (hcommand packet)
    | _ => rfl
  have hquiet : getInstance.All fun command => ∀ packet, command ≠ .send packet := by
    refine all_fill _ _ (all_fill _ _ (Program.all_bind (Program.all_perform nofun) fun old => ?_))
    cases old with
    | some _ => exact Program.all_pure ()
    | none => exact Program.all_perform nofun
  exact Program.wp_of_all hexec hquiet _

theorem sent_le_event (w : World Record) (event : Event) :
    uploads w ≤ uploads (event.apply w) ∧ registrations w ≤ registrations (event.apply w) := by
  cases event with
  | request r => exact uploads_le_of_effect (effect_handle w r)
  | restart =>
      rw [Event.apply, uploads, uploads, registrations, registrations, sent_restart]
      exact ⟨le_rfl, le_rfl⟩

theorem sent_le_runEvents (w : World Record) (events : List Event) :
    uploads w ≤ uploads (runEvents w events) ∧
      registrations w ≤ registrations (runEvents w events) := by
  induction events generalizing w with
  | nil => exact ⟨le_rfl, le_rfl⟩
  | cons event rest ih =>
      have hstep := sent_le_event w event
      exact ⟨hstep.1.trans (ih _).1, hstep.2.trans (ih _).2⟩

theorem sent_runEvents_le (w : World Record) (events : List Event) :
    uploads (runEvents w events) ≤ uploads w + events.length ∧
      registrations (runEvents w events) ≤ registrations w + events.length := by
  induction events generalizing w with
  | nil => exact ⟨le_rfl, le_rfl⟩
  | cons event rest ih =>
      have hstep : uploads (event.apply w) ≤ uploads w + 1 ∧
          registrations (event.apply w) ≤ registrations w + 1 := by
        cases event with
        | request r =>
            rw [Event.apply]
            cases effect_handle w r <;> omega
        | restart =>
            rw [Event.apply, uploads, uploads, registrations, registrations, sent_restart]
            exact ⟨Nat.le_succ _, Nat.le_succ _⟩
      have hrest := ih (event.apply w)
      rw [List.length_cons]
      change uploads (runEvents (event.apply w) rest) ≤ _ ∧
        registrations (runEvents (event.apply w) rest) ≤ _
      omega

theorem Keeps.runEvents (h : Keeps w) {events : List Event}
    (huploads : uploads (runEvents w events) < 2 ^ 64)
    (hregistrations : registrations (runEvents w events) < 2 ^ 32) :
    Keeps (runEvents w events) := by
  induction events generalizing w with
  | nil => exact h
  | cons event rest ih =>
      have hrest := sent_le_runEvents (event.apply w) rest
      exact ih (h.event event (hrest.1.trans_lt huploads) (hrest.2.trans_lt hregistrations))
        huploads hregistrations

end Mp2p.Master
