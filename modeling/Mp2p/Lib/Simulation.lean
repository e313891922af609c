import Mathlib.Data.Option.Defs
import Mp2p.Lib.Mutex

/-!
# Programs that mirror each other

Two programs over operations of different kinds mirror each other when they ask alike and end alike,
as long as they are given answers that are related. When the operations keep the stores on both sides
related, so do the programs, alone or interleaved with others that are mirrored too.
-/

namespace Program

universe u

variable {Op Op' : Type} {Ans : Op → Type} {Ans' : Op' → Type} {ε α β γ δ σ τ : Type}

def Agree (Q : α → β → Prop) : Except ε α → Except ε β → Prop
  | .ok a, .ok b => Q a b
  | .error e, .error e' => e = e'
  | _, _ => False

theorem Agree.eq {x y : Except ε α} (h : Agree Eq x y) : x = y := by
  cases x with
  | ok a =>
      cases y with
      | ok b => exact congrArg Except.ok h
      | error e => exact h.elim
  | error e =>
      cases y with
      | ok b => exact h.elim
      | error e' => exact congrArg Except.error h

/-- Operations related by `Asks` are asked for in turn, whatever answers related by `Answers` come
back, until both programs throw the same or return values related by `Q`. -/
def Mirrors (Asks : Op → Op' → Prop) (Answers : (o : Op) → (o' : Op') → Ans o → Ans' o' → Prop)
    (Q : α → β → Prop) : Program Op Ans ε α → Program Op' Ans' ε β → Prop
  | .pure a, .pure b => Q a b
  | .throw e, .throw e' => e = e'
  | .op o next, .op o' next' =>
      Asks o o' ∧ ∀ a a', Answers o o' a a' → (next a).Mirrors Asks Answers Q (next' a')
  | _, _ => False

section Rules

variable {Asks : Op → Op' → Prop} {Answers : (o : Op) → (o' : Op') → Ans o → Ans' o' → Prop}
  {Q : α → β → Prop} {p : Program Op Ans ε α} {q : Program Op' Ans' ε β}

theorem mirrors_pure {a : α} {b : β} (h : Q a b) :
    Mirrors Asks Answers Q (pure a : Program Op Ans ε α) (pure b : Program Op' Ans' ε β) := h

theorem mirrors_throw (e : ε) :
    Mirrors Asks Answers Q (.throw e : Program Op Ans ε α) (.throw e : Program Op' Ans' ε β) := rfl

theorem mirrors_perform {o : Op} {o' : Op'} (h : Asks o o') :
    Mirrors Asks Answers (Answers o o') (perform o : Program Op Ans ε (Ans o))
      (perform o' : Program Op' Ans' ε (Ans' o')) :=
  ⟨h, fun _ _ hanswers => hanswers⟩

theorem exists_of_pure_mirrors {a : α}
    (h : Mirrors Asks Answers Q (.pure a : Program Op Ans ε α) q) : ∃ b, q = .pure b ∧ Q a b := by
  cases q with
  | pure b => exact ⟨b, rfl, h⟩
  | throw e => exact h.elim
  | op o next => exact h.elim

theorem eq_of_throw_mirrors {e : ε}
    (h : Mirrors Asks Answers Q (.throw e : Program Op Ans ε α) q) : q = .throw e := by
  cases q with
  | pure b => exact h.elim
  | throw e' => exact congrArg Program.throw (Eq.symm h)
  | op o next => exact h.elim

theorem exists_of_op_mirrors {o : Op} {next : Ans o → Program Op Ans ε α}
    (h : Mirrors Asks Answers Q (.op o next) q) :
    ∃ o' next', q = .op o' next' ∧ Asks o o' ∧
      ∀ a a', Answers o o' a a' → (next a).Mirrors Asks Answers Q (next' a') := by
  cases q with
  | pure b => exact h.elim
  | throw e => exact h.elim
  | op o' next' => exact ⟨o', next', rfl, h⟩

theorem exists_of_mirrors_op {o : Op'} {next : Ans' o → Program Op' Ans' ε β}
    (h : Mirrors Asks Answers Q p (.op o next)) : ∃ o' next', p = .op o' next' := by
  cases p with
  | pure a => exact h.elim
  | throw e => exact h.elim
  | op o' next' => exact ⟨o', next', rfl⟩

theorem Mirrors.mono {R : α → β → Prop} (h : p.Mirrors Asks Answers Q q)
    (hQR : ∀ a b, Q a b → R a b) : p.Mirrors Asks Answers R q := by
  induction p generalizing q with
  | pure a =>
      obtain ⟨b, rfl, hab⟩ := exists_of_pure_mirrors h
      exact hQR a b hab
  | throw e =>
      obtain rfl := eq_of_throw_mirrors h
      exact mirrors_throw e
  | op o next ih =>
      obtain ⟨o', next', rfl, hasks, hnext⟩ := exists_of_op_mirrors h
      exact ⟨hasks, fun a a' hanswers => ih a (hnext a a' hanswers)⟩

/-- **Sequencing.** Programs that mirror each other go on with programs that do. -/
theorem mirrors_bind {R : γ → δ → Prop} {f : α → Program Op Ans ε γ} {g : β → Program Op' Ans' ε δ}
    (h : p.Mirrors Asks Answers Q q)
    (hfg : ∀ a b, Q a b → (f a).Mirrors Asks Answers R (g b)) :
    (p >>= f).Mirrors Asks Answers R (q >>= g) := by
  induction p generalizing q with
  | pure a =>
      obtain ⟨b, rfl, hab⟩ := exists_of_pure_mirrors h
      exact hfg a b hab
  | throw e =>
      obtain rfl := eq_of_throw_mirrors h
      exact mirrors_throw e
  | op o next ih =>
      obtain ⟨o', next', rfl, hasks, hnext⟩ := exists_of_op_mirrors h
      exact ⟨hasks, fun a a' hanswers => ih a (hnext a a' hanswers)⟩

theorem mirrors_ofOption {e : ε} {x : Option α} {y : Option β} (h : Option.Rel Q x y) :
    Mirrors Asks Answers Q (ofOption e x : Program Op Ans ε α)
      (ofOption e y : Program Op' Ans' ε β) := by
  cases h with
  | some hab => exact hab
  | none => exact rfl

theorem mirrors_ofOption_self (e : ε) (x : Option α) :
    Mirrors Asks Answers (fun a b => a = b ∧ x = some a) (ofOption e x : Program Op Ans ε α)
      (ofOption e x : Program Op' Ans' ε α) := by
  cases x with
  | some a => exact ⟨rfl, rfl⟩
  | none => exact rfl

theorem mirrors_ofExcept_self (x : Except ε α) :
    Mirrors Asks Answers Eq (ofExcept x : Program Op Ans ε α)
      (ofExcept x : Program Op' Ans' ε α) := by
  cases x with
  | ok a => exact rfl
  | error e => exact rfl

/-- **Running alone.** Operations that give related answers and keep the stores related make the
programs end alike in related stores. -/
theorem Mirrors.run {exec : (o : Op) → σ → Ans o × σ} {exec' : (o : Op') → τ → Ans' o × τ}
    {R : σ → τ → Prop} (hexec : ∀ o o' s t, Asks o o' → R s t →
      Answers o o' (exec o s).1 (exec' o' t).1 ∧ R (exec o s).2 (exec' o' t).2)
    (h : p.Mirrors Asks Answers Q q) {s : σ} {t : τ} (hst : R s t) :
    Agree Q (p.run exec s).1 (q.run exec' t).1 ∧ R (p.run exec s).2 (q.run exec' t).2 := by
  induction p generalizing q s t with
  | pure a =>
      obtain ⟨b, rfl, hab⟩ := exists_of_pure_mirrors h
      exact ⟨hab, hst⟩
  | throw e =>
      obtain rfl := eq_of_throw_mirrors h
      exact ⟨rfl, hst⟩
  | op o next ih =>
      obtain ⟨o', next', rfl, hasks, hnext⟩ := exists_of_op_mirrors h
      obtain ⟨hanswers, hafter⟩ := hexec o o' s t hasks hst
      exact ih _ (hnext _ _ hanswers) hafter

end Rules

def outcome? : Program Op Ans ε α → Option (Except ε α)
  | .pure a => some (.ok a)
  | .throw e => some (.error e)
  | .op _ _ => none

theorem Mirrors.outcome? {Asks : Op → Op' → Prop}
    {Answers : (o : Op) → (o' : Op') → Ans o → Ans' o' → Prop} {p : Program Op Ans ε α}
    {q : Program Op' Ans' ε α} (h : p.Mirrors Asks Answers Eq q) : p.outcome? = q.outcome? := by
  cases p with
  | pure a =>
      obtain ⟨b, rfl, rfl⟩ := exists_of_pure_mirrors h
      rfl
  | throw e =>
      obtain rfl := eq_of_throw_mirrors h
      rfl
  | op o next =>
      obtain ⟨o', next', rfl, -⟩ := exists_of_op_mirrors h
      rfl

/-! ### Interleaved -/

namespace Pool

variable {ι : Type u} {Asks : Op → Op' → Prop}
  {Answers : (o : Op) → (o' : Op') → Ans o → Ans' o' → Prop} {Q : α → β → Prop} {R : σ → τ → Prop}

def EventsRel (Asks : Op → Op' → Prop)
    (Answers : (o : Op) → (o' : Op') → Ans o → Ans' o' → Prop) (e : Σ o, Ans o)
    (e' : Σ o, Ans' o) : Prop :=
  Asks e.1 e'.1 ∧ Answers e.1 e'.1 e.2 e'.2

/-- The stores are related, and each thread mirrors the one of its name and has done what it has. -/
structure Beside (Asks : Op → Op' → Prop) (Answers : (o : Op) → (o' : Op') → Ans o → Ans' o' → Prop)
    (Q : α → β → Prop) (R : σ → τ → Prop) (c : Pool ι Op Ans ε α σ)
    (d : Pool ι Op' Ans' ε β τ) : Prop where
  store : R c.store d.store
  threads : ∀ i, (c.threads i).program.Mirrors Asks Answers Q (d.threads i).program
  histories : ∀ i, List.Forall₂ (EventsRel Asks Answers) (c.threads i).history
    (d.threads i).history

variable {c c' : Pool ι Op Ans ε α σ} {d : Pool ι Op' Ans' ε β τ}

theorem beside_start {s : σ} {t : τ} {p : ι → Program Op Ans ε α} {q : ι → Program Op' Ans' ε β}
    (hst : R s t) (h : ∀ i, (p i).Mirrors Asks Answers Q (q i)) :
    Beside Asks Answers Q R (start s p) (start t q) :=
  ⟨hst, h, fun _ => .nil⟩

/-- The thread that mirrors one that goes on goes on too. -/
theorem Beside.exists_op (h : Beside Asks Answers Q R c d) {i : ι} {o : Op}
    {next : Ans o → Program Op Ans ε α} {history : History Op Ans}
    (hthread : c.threads i = ⟨.op o next, history⟩) : ∃ o' next' history',
      d.threads i = ⟨.op o' next', history'⟩ ∧ Asks o o' ∧
        List.Forall₂ (EventsRel Asks Answers) history history' ∧
        ∀ a a', Answers o o' a a' → (next a).Mirrors Asks Answers Q (next' a') := by
  have hmirrors := h.threads i
  have hhistories := h.histories i
  rw [hthread] at hmirrors hhistories
  obtain ⟨o', next', hprogram, hasks, hnext⟩ := exists_of_op_mirrors hmirrors
  exact ⟨o', next', (d.threads i).history, by rw [← hprogram], hasks, hhistories, hnext⟩

variable [DecidableEq ι] {may : (o : Op) → σ → Ans o → σ → Prop}
  {may' : (o : Op') → τ → Ans' o → τ → Prop} {guard : σ → History Op Ans → Op → Prop}
  {guard' : τ → History Op' Ans' → Op' → Prop}

/-- Both threads go on, each by one operation. -/
theorem Beside.set (h : Beside Asks Answers Q R c d) {i : ι} {p : Program Op Ans ε α}
    {q : Program Op' Ans' ε β} {history : History Op Ans} {history' : History Op' Ans'} {s : σ}
    {t : τ} (hprograms : p.Mirrors Asks Answers Q q)
    (hhistories : List.Forall₂ (EventsRel Asks Answers) history history') (hst : R s t) :
    Beside Asks Answers Q R (c.set i ⟨p, history⟩ s) (d.set i ⟨q, history'⟩ t) := by
  refine ⟨hst, fun j => ?_, fun j => ?_⟩
  · by_cases hj : j = i
    · subst hj
      rwa [threads_set_self, threads_set_self]
    · rw [threads_set_of_ne _ hj, threads_set_of_ne _ hj]
      exact h.threads j
  · by_cases hj : j = i
    · subst hj
      rwa [threads_set_self, threads_set_self]
    · rw [threads_set_of_ne _ hj, threads_set_of_ne _ hj]
      exact h.histories j

/-- What a thread does, the thread that mirrors it can do. -/
theorem Beside.step (hmay : ∀ o o' s t a s', Asks o o' → R s t → may o s a s' →
      ∃ a' t', may' o' t a' t' ∧ Answers o o' a a' ∧ R s' t')
    (hguard : ∀ o o' s t h h', Asks o o' → R s t → List.Forall₂ (EventsRel Asks Answers) h h' →
      guard s h o → guard' t h' o')
    (h : Beside Asks Answers Q R c d) (hstep : Step may guard c c') :
    ∃ d', Step may' guard' d d' ∧ Beside Asks Answers Q R c' d' := by
  cases hstep with
  | perform i o next history a s' hthread hallowed hdone =>
      obtain ⟨o', next', history', hthread', hasks, hhistories, hnext⟩ := h.exists_op hthread
      obtain ⟨a', t', hdone', hanswers, hafter⟩ := hmay o o' _ _ a s' hasks h.store hdone
      have hallowed' := hguard o o' _ _ _ _ hasks h.store hhistories hallowed
      exact ⟨_, .perform i o' next' _ a' t' hthread' hallowed' hdone',
        h.set (hnext a a' hanswers) (.cons ⟨hasks, hanswers⟩ hhistories) hafter⟩

/-- **Interleavings are mirrored.** Every run of threads is matched by one of the threads that mirror
them, step by step. -/
theorem Beside.reachable (hmay : ∀ o o' s t a s', Asks o o' → R s t → may o s a s' →
      ∃ a' t', may' o' t a' t' ∧ Answers o o' a a' ∧ R s' t')
    (hguard : ∀ o o' s t h h', Asks o o' → R s t → List.Forall₂ (EventsRel Asks Answers) h h' →
      guard s h o → guard' t h' o')
    (h : Beside Asks Answers Q R c d) (hreach : Reachable may guard c c') :
    ∃ d', Reachable may' guard' d d' ∧ Beside Asks Answers Q R c' d' := by
  induction hreach with
  | refl => exact ⟨d, .refl, h⟩
  | tail _ hlast ih =>
      obtain ⟨d₁, hreach', hbeside⟩ := ih
      obtain ⟨d₂, hstep, hbeside'⟩ := hbeside.step hmay hguard hlast
      exact ⟨d₂, hreach'.tail hstep, hbeside'⟩

/-! ### Under a mutex -/

section Locked

variable {mutex : ι → Prop} {allowed : ι → σ → Op → Prop} {allowed' : ι → τ → Op' → Prop}

omit [DecidableEq ι] in
theorem Beside.running_iff (h : Beside Asks Answers Q R c d) (i : ι) :
    (c.threads i).Running ↔ (d.threads i).Running := by
  have hhistories := h.histories i
  have hmirrors := h.threads i
  refine and_congr (not_congr ⟨fun hnil => ?_, fun hnil => ?_⟩) ⟨?_, ?_⟩
  · rw [hnil] at hhistories
    exact List.forall₂_nil_left_iff.mp hhistories
  · rw [hnil] at hhistories
    exact List.forall₂_nil_right_iff.mp hhistories
  · rintro ⟨o, next, hprogram⟩
    rw [hprogram] at hmirrors
    obtain ⟨o', next', hprogram', -⟩ := exists_of_op_mirrors hmirrors
    exact ⟨o', next', hprogram'⟩
  · rintro ⟨o, next, hprogram⟩
    rw [hprogram] at hmirrors
    exact exists_of_mirrors_op hmirrors

theorem Beside.locked (hmay : ∀ o o' s t a s', Asks o o' → R s t → may o s a s' →
      ∃ a' t', may' o' t a' t' ∧ Answers o o' a a' ∧ R s' t')
    (hallowed : ∀ i o o' s t, Asks o o' → R s t → allowed i s o → allowed' i t o')
    (h : Beside Asks Answers Q R c d)
    (hreach : Relation.ReflTransGen (Locked may allowed mutex) c c') :
    ∃ d', Relation.ReflTransGen (Locked may' allowed' mutex) d d' ∧
      Beside Asks Answers Q R c' d' := by
  induction hreach with
  | refl => exact ⟨d, .refl, h⟩
  | tail _ hlast ih =>
      obtain ⟨d₁, hreach', hbeside⟩ := ih
      cases hlast with
      | perform i o next history a s' hthread hfree hguard hdone =>
          obtain ⟨o', next', history', hthread', hasks, hhistories, hnext⟩ := hbeside.exists_op hthread
          obtain ⟨a', t', hdone', hanswers, hafter⟩ :=
            hmay o o' _ _ a s' hasks hbeside.store hdone
          refine ⟨_, hreach'.tail (.perform i o' next' history' a' t' hthread' ?_ ?_ hdone'),
            hbeside.set (hnext a a' hanswers) (.cons ⟨hasks, hanswers⟩ hhistories) hafter⟩
          · exact fun hmutex j hj hmutex' hrunning =>
              hfree hmutex j hj hmutex' ((hbeside.running_iff j).mpr hrunning)
          · exact hallowed i o o' _ _ hasks hbeside.store hguard

end Locked

/-! ### On one schedule -/

section Schedule

variable {exec : (o : Op) → σ → Ans o × σ} {exec' : (o : Op') → τ → Ans' o × τ}

theorem Beside.advance (hexec : ∀ o o' s t, Asks o o' → R s t →
      Answers o o' (exec o s).1 (exec' o' t).1 ∧ R (exec o s).2 (exec' o' t).2)
    (h : Beside Asks Answers Q R c d) (i : ι) :
    Beside Asks Answers Q R (advance exec c i) (advance exec' d i) := by
  have hmirrors := h.threads i
  cases hc : c.threads i with
  | mk program history =>
  rw [hc] at hmirrors
  cases program with
  | op o next =>
      obtain ⟨o', next', history', hd, hasks, hhistories, hnext⟩ := h.exists_op hc
      obtain ⟨hanswers, hafter⟩ := hexec o o' c.store d.store hasks h.store
      rw [Pool.advance, hc, Pool.advance, hd]
      exact h.set (hnext _ _ hanswers) (.cons ⟨hasks, hanswers⟩ hhistories) hafter
  | pure a =>
      obtain ⟨b, hprogram, -⟩ := exists_of_pure_mirrors hmirrors
      have hd : d.threads i = ⟨.pure b, (d.threads i).history⟩ := by rw [← hprogram]
      rw [Pool.advance, hc, Pool.advance, hd]
      exact h
  | throw e =>
      have hd : d.threads i = ⟨.throw e, (d.threads i).history⟩ := by
        rw [← eq_of_throw_mirrors hmirrors]
      rw [Pool.advance, hc, Pool.advance, hd]
      exact h

theorem Beside.runSchedule (hexec : ∀ o o' s t, Asks o o' → R s t →
      Answers o o' (exec o s).1 (exec' o' t).1 ∧ R (exec o s).2 (exec' o' t).2)
    (h : Beside Asks Answers Q R c d) (schedule : List ι) :
    Beside Asks Answers Q R (runSchedule exec c schedule) (runSchedule exec' d schedule) := by
  induction schedule generalizing c d with
  | nil => exact h
  | cons i rest ih => exact ih (h.advance hexec i)

end Schedule

end Pool

end Program
