import Mathlib.Logic.Function.Basic
import Mathlib.Logic.Relation
import Mp2p.Lib.Program

/-!
# Interleaved programs

Threads that run programs over one store, one operation at a time in any order. Every thread keeps
the history of the operations it performed and the answers it got; what a program does is stated of
its own operations and histories, and holds of it among any others.
-/

namespace Program

universe u

section History

variable {Op : Type} {Ans : Op → Type} {ε α β : Type}

/-- Operations performed and the answers to them, the last first. -/
abbrev History (Op : Type) (Ans : Op → Type) : Type := List (Σ o, Ans o)

/-- After the history, whatever the answers: every operation the program comes to satisfies `Φ`, and
its end satisfies `Q`. -/
def Follows (Φ : History Op Ans → Op → Prop) (Q : Except ε α → History Op Ans → Prop) :
    Program Op Ans ε α → History Op Ans → Prop
  | .pure a, h => Q (.ok a) h
  | .throw e, h => Q (.error e) h
  | .op o next, h => Φ h o ∧ ∀ a, (next a).Follows Φ Q (⟨o, a⟩ :: h)

variable {Φ : History Op Ans → Op → Prop} {p : Program Op Ans ε α}
  {f : α → Program Op Ans ε β} {h : History Op Ans}

theorem Follows.mono {Q R : Except ε α → History Op Ans → Prop} (hp : p.Follows Φ Q h)
    (hQR : ∀ r h', Q r h' → R r h') : p.Follows Φ R h := by
  induction p generalizing h with
  | pure a => exact hQR _ _ hp
  | throw e => exact hQR _ _ hp
  | op o next ih => exact ⟨hp.1, fun a => ih a (hp.2 a)⟩

theorem follows_bind {Q : Except ε β → History Op Ans → Prop}
    (hp : p.Follows Φ (fun r h' => match r with
      | .ok a => (f a).Follows Φ Q h'
      | .error e => Q (.error e) h') h) : (p >>= f).Follows Φ Q h := by
  induction p generalizing h with
  | pure a => exact hp
  | throw e => exact hp
  | op o next ih => exact ⟨hp.1, fun a => ih a (hp.2 a)⟩

/-- A program of harmless operations adds only those to the history. -/
theorem follows_of_all {P : Op → Prop} (hp : p.All P) (hΦ : ∀ h o, P o → Φ h o)
    (h : History Op Ans) :
    p.Follows Φ (fun _ h' => ∃ l, h' = l ++ h ∧ ∀ e ∈ l, P e.1) h := by
  induction p generalizing h with
  | pure a => exact ⟨[], rfl, nofun⟩
  | throw e => exact ⟨[], rfl, nofun⟩
  | op o next ih =>
      refine ⟨hΦ h o hp.1, fun a => (ih a (hp.2 a) _).mono ?_⟩
      rintro r h' ⟨l, rfl, hl⟩
      refine ⟨l ++ [⟨o, a⟩], by simp, fun e he => ?_⟩
      rcases List.mem_append.mp he with he | he
      · exact hl e he
      · rw [List.mem_singleton.mp he]
        exact hp.1

end History

variable {ι : Type u} {Op : Type} {Ans : Op → Type} {ε α σ : Type}

structure Thread (Op : Type) (Ans : Op → Type) (ε α : Type) where
  program : Program Op Ans ε α
  history : History Op Ans

structure Pool (ι : Type u) (Op : Type) (Ans : Op → Type) (ε α σ : Type) where
  store : σ
  threads : ι → Thread Op Ans ε α

namespace Pool

def start (store : σ) (programs : ι → Program Op Ans ε α) : Pool ι Op Ans ε α σ where
  store := store
  threads i := ⟨programs i, []⟩

variable [DecidableEq ι]

def set (c : Pool ι Op Ans ε α σ) (i : ι) (thread : Thread Op Ans ε α) (store : σ) :
    Pool ι Op Ans ε α σ where
  store := store
  threads := Function.update c.threads i thread

theorem threads_set_self (c : Pool ι Op Ans ε α σ) (i : ι) (thread : Thread Op Ans ε α)
    (store : σ) : (c.set i thread store).threads i = thread :=
  Function.update_self ..

theorem threads_set_of_ne (c : Pool ι Op Ans ε α σ) {i j : ι} (h : j ≠ i)
    (thread : Thread Op Ans ε α) (store : σ) :
    (c.set i thread store).threads j = c.threads j :=
  Function.update_of_ne h ..

/-- Thread `i` performs its next operation, which the guard lets it. -/
inductive Step (may : (o : Op) → σ → Ans o → σ → Prop)
    (guard : σ → History Op Ans → Op → Prop) (c : Pool ι Op Ans ε α σ) :
    Pool ι Op Ans ε α σ → Prop where
  | perform (i : ι) (o : Op) (next : Ans o → Program Op Ans ε α) (h : History Op Ans)
      (a : Ans o) (store : σ) (hthread : c.threads i = ⟨.op o next, h⟩)
      (hguard : guard c.store h o) (hmay : may o c.store a store) :
      Step may guard c (c.set i ⟨next a, ⟨o, a⟩ :: h⟩ store)

def Reachable (may : (o : Op) → σ → Ans o → σ → Prop) (guard : σ → History Op Ans → Op → Prop) :
    Pool ι Op Ans ε α σ → Pool ι Op Ans ε α σ → Prop :=
  Relation.ReflTransGen (Step may guard)

section Rule

variable {may : (o : Op) → σ → Ans o → σ → Prop} {guard : σ → History Op Ans → Op → Prop}
  {Φ : History Op Ans → Op → Prop} {Q : Except ε α → History Op Ans → Prop}
  {c₀ c : Pool ι Op Ans ε α σ}

/-- **Invariants of interleavings.** What holds at first and is preserved by every operation of a
thread that the thread's own program allows, holds in every pool that is reached, where every thread
still follows its program. -/
theorem invariant_of_reachable (I : Pool ι Op Ans ε α σ → Prop)
    (hfollows : ∀ i, (c₀.threads i).program.Follows Φ Q (c₀.threads i).history) (hinit : I c₀)
    (hstep : ∀ (c : Pool ι Op Ans ε α σ) i o next h a store, I c →
      c.threads i = ⟨.op o next, h⟩ → Φ h o → guard c.store h o → may o c.store a store →
      I (c.set i ⟨next a, ⟨o, a⟩ :: h⟩ store))
    (hreach : Reachable may guard c₀ c) :
    I c ∧ ∀ i, (c.threads i).program.Follows Φ Q (c.threads i).history := by
  induction hreach with
  | refl => exact ⟨hinit, hfollows⟩
  | tail _ hlast ih =>
      obtain ⟨hI, hall⟩ := ih
      cases hlast with
      | perform i o next h a store hthread hguard hmay =>
          have hi := hall i
          rw [hthread] at hi
          refine ⟨hstep _ i o next h a store hI hthread hi.1 hguard hmay, fun j => ?_⟩
          by_cases hj : j = i
          · rw [hj, threads_set_self]
            exact hi.2 a
          · rw [threads_set_of_ne _ hj]
            exact hall j

end Rule

/-! ### Schedules -/

section Schedule

variable (exec : (o : Op) → σ → Ans o × σ)

def advance (c : Pool ι Op Ans ε α σ) (i : ι) : Pool ι Op Ans ε α σ :=
  match c.threads i with
  | ⟨.op o next, h⟩ =>
      c.set i ⟨next (exec o c.store).1, ⟨o, (exec o c.store).1⟩ :: h⟩ (exec o c.store).2
  | _ => c

def runSchedule (c : Pool ι Op Ans ε α σ) (schedule : List ι) : Pool ι Op Ans ε α σ :=
  schedule.foldl (advance exec) c

def Guarded (guard : σ → History Op Ans → Op → Prop) : Pool ι Op Ans ε α σ → List ι → Prop
  | _, [] => True
  | c, i :: rest =>
      (∀ o next h, c.threads i = ⟨.op o next, h⟩ → guard c.store h o) ∧
        Guarded guard (advance exec c i) rest

section Guarded

variable {exec} {guard : σ → History Op Ans → Op → Prop} {c : Pool ι Op Ans ε α σ} {i : ι}
  {rest : List ι}

theorem guarded_cons_of_op {o : Op} {next : Ans o → Program Op Ans ε α} {h : History Op Ans}
    (hthread : c.threads i = ⟨.op o next, h⟩) : Guarded exec guard c (i :: rest) ↔
      guard c.store h o ∧ Guarded exec guard (advance exec c i) rest := by
  refine and_congr_left fun _ => ⟨fun hall => hall o next h hthread, ?_⟩
  intro hguard o' next' h' heq
  rw [hthread] at heq
  cases heq
  exact hguard

theorem guarded_cons_of_ended (hended : ∀ o next h, c.threads i ≠ ⟨.op o next, h⟩) :
    Guarded exec guard c (i :: rest) ↔ Guarded exec guard (advance exec c i) rest :=
  and_iff_right fun o next h heq => absurd heq (hended o next h)

end Guarded

instance decidableGuarded {guard : σ → History Op Ans → Op → Prop}
    [∀ s h o, Decidable (guard s h o)] :
    (c : Pool ι Op Ans ε α σ) → (schedule : List ι) → Decidable (Guarded exec guard c schedule)
  | _, [] => .isTrue trivial
  | c, i :: rest =>
      have : Decidable (Guarded exec guard (advance exec c i) rest) := decidableGuarded _ rest
      match hthread : c.threads i with
      | ⟨.op _ _, _⟩ => decidable_of_iff _ (guarded_cons_of_op hthread).symm
      | ⟨.pure _, _⟩ => decidable_of_iff _ (guarded_cons_of_ended (by simp [hthread])).symm
      | ⟨.throw _, _⟩ => decidable_of_iff _ (guarded_cons_of_ended (by simp [hthread])).symm

theorem reachable_runSchedule {may : (o : Op) → σ → Ans o → σ → Prop}
    {guard : σ → History Op Ans → Op → Prop}
    (hexec : ∀ o s, may o s (exec o s).1 (exec o s).2) {c : Pool ι Op Ans ε α σ}
    {schedule : List ι} (hguarded : Guarded exec guard c schedule) :
    Reachable may guard c (runSchedule exec c schedule) := by
  induction schedule generalizing c with
  | nil => exact .refl
  | cons i rest ih =>
      have hfirst : Reachable may guard c (advance exec c i) := by
        unfold advance
        split
        · rename_i o next h hthread
          exact .single (.perform i o next h _ _ hthread (hguarded.1 o next h hthread)
            (hexec o c.store))
        · exact .refl
      exact hfirst.trans (ih hguarded.2)

theorem guarded_true (c : Pool ι Op Ans ε α σ) (schedule : List ι) :
    Guarded exec (fun _ _ _ => True) c schedule := by
  induction schedule generalizing c with
  | nil => trivial
  | cons i rest ih => exact ⟨fun _ _ _ _ => trivial, ih _⟩

end Schedule

end Pool

end Program
