import Mathlib.Data.List.Nodup
import Mp2p.Lib.Interleaving

/-!
# Interleaved programs with a mutex

Some threads of a pool hold one mutex from their first operation to their last. Of those at most one
is in the middle of its program, so what it knows of the store changes only by what the others do.
Updates that are made in turn come to one order in which each is made once.
-/

namespace Program

universe u

variable {ι : Type u} {Op : Type} {Ans : Op → Type} {ε α σ : Type}

def Thread.Running (thread : Thread Op Ans ε α) : Prop :=
  thread.history ≠ [] ∧ ∃ o next, thread.program = .op o next

namespace Pool

def Alone (mutex : ι → Prop) (c : Pool ι Op Ans ε α σ) : Prop :=
  ∀ i j, mutex i → mutex j → (c.threads i).Running → (c.threads j).Running → i = j

theorem alone_start {mutex : ι → Prop} (store : σ) (programs : ι → Program Op Ans ε α) :
    Alone mutex (Pool.start store programs) :=
  fun _ _ _ _ hi => absurd rfl hi.1

variable [DecidableEq ι]

/-- Thread `i` performs its next operation. A thread with the mutex waits until no other one with
the mutex is running. -/
inductive Locked (may : (o : Op) → σ → Ans o → σ → Prop) (guard : ι → σ → Op → Prop)
    (mutex : ι → Prop) (c : Pool ι Op Ans ε α σ) : Pool ι Op Ans ε α σ → Prop where
  | perform (i : ι) (o : Op) (next : Ans o → Program Op Ans ε α) (h : History Op Ans)
      (a : Ans o) (store : σ) (hthread : c.threads i = ⟨.op o next, h⟩)
      (hfree : mutex i → ∀ j ≠ i, mutex j → ¬(c.threads j).Running) (hguard : guard i c.store o)
      (hmay : may o c.store a store) : Locked may guard mutex c (c.set i ⟨next a, ⟨o, a⟩ :: h⟩ store)

section Rule

variable {may : (o : Op) → σ → Ans o → σ → Prop} {guard : ι → σ → Op → Prop} {mutex : ι → Prop}
  {c c' : Pool ι Op Ans ε α σ}

theorem Alone.locked (h : Alone mutex c) (hstep : Locked may guard mutex c c') :
    Alone mutex c' := by
  cases hstep with
  | perform i o next h' a store hthread hfree =>
      -- Whoever runs beside the thread that made the step was running before.
      have hother {j : ι} (hj : j ≠ i) (hmutex : mutex j) (hi : mutex i)
          (hrunning : ((c.set i ⟨next a, ⟨o, a⟩ :: h'⟩ store).threads j).Running) : False := by
        rw [threads_set_of_ne _ hj] at hrunning
        exact hfree hi j hj hmutex hrunning
      intro j k hmj hmk hj hk
      by_cases hji : j = i
      · subst hji
        by_contra hne
        exact hother (Ne.symm hne) hmk hmj hk
      · by_cases hki : k = i
        · subst hki
          exact (hother hji hmj hmk hj).elim
        · rw [threads_set_of_ne _ hji] at hj
          rw [threads_set_of_ne _ hki] at hk
          exact h j k hmj hmk hj hk

/-- **Invariants under a mutex.** What holds at first and is preserved by every operation that the
program of a thread allows, while at most one thread with the mutex is running, holds in every pool
that is reached, where every thread still follows its program. -/
theorem invariant_of_locked {Φ : ι → History Op Ans → Op → Prop}
    {Q : ι → Except ε α → History Op Ans → Prop} (I : Pool ι Op Ans ε α σ → Prop) {store : σ}
    {programs : ι → Program Op Ans ε α} (hfollows : ∀ i, (programs i).Follows (Φ i) (Q i) [])
    (hinit : I (Pool.start store programs))
    (hstep : ∀ (c : Pool ι Op Ans ε α σ) i o next h a store, I c → Alone mutex c →
      c.threads i = ⟨.op o next, h⟩ → Φ i h o →
      (mutex i → ∀ j ≠ i, mutex j → ¬(c.threads j).Running) → guard i c.store o →
      may o c.store a store → I (c.set i ⟨next a, ⟨o, a⟩ :: h⟩ store))
    (hreach : Relation.ReflTransGen (Locked may guard mutex) (Pool.start store programs) c) :
    I c ∧ Alone mutex c ∧
      ∀ i, (c.threads i).program.Follows (Φ i) (Q i) (c.threads i).history := by
  induction hreach with
  | refl => exact ⟨hinit, alone_start store programs, hfollows⟩
  | tail _ hlast ih =>
      obtain ⟨hI, halone, hall⟩ := ih
      refine ⟨?_, halone.locked hlast, ?_⟩
      · cases hlast with
        | perform i o next h a store hthread hfree hguard hmay =>
            have hi := hall i
            rw [hthread] at hi
            exact hstep _ i o next h a store hI halone hthread hi.1 hfree hguard hmay
      · cases hlast with
        | perform i o next h a store hthread =>
            intro j
            by_cases hj : j = i
            · have hi := hall i
              rw [hthread] at hi
              rw [hj, threads_set_self]
              exact hi.2 a
            · rw [threads_set_of_ne _ hj]
              exact hall j

end Rule

end Pool

/-! ### Updates in turn -/

section Updates

variable {β : Type}

/-- The second value is the first one after the updates of these threads, each made once, in some
order. -/
def UpdatedBy (update : ι → β → β) (done : ι → Prop) (b₀ b : β) : Prop :=
  ∃ order : List ι, order.Nodup ∧ (∀ i, i ∈ order ↔ done i) ∧
    b = order.foldl (fun b i => update i b) b₀

variable {update : ι → β → β} {done done' : ι → Prop} {b₀ b : β}

theorem updatedBy_none (hnone : ∀ i, ¬done i) : UpdatedBy update done b b :=
  ⟨[], List.nodup_nil, fun i => iff_of_false List.not_mem_nil (hnone i), rfl⟩

theorem UpdatedBy.congr (h : UpdatedBy update done b₀ b) (hdone : ∀ i, done' i ↔ done i) :
    UpdatedBy update done' b₀ b := by
  obtain ⟨order, hnodup, hmem, hvalue⟩ := h
  exact ⟨order, hnodup, fun i => (hmem i).trans (hdone i).symm, hvalue⟩

/-- The next update. -/
theorem UpdatedBy.next (h : UpdatedBy update done b₀ b) {i : ι} (hnot : ¬done i)
    (hdone : ∀ j, done' j ↔ j = i ∨ done j) : UpdatedBy update done' b₀ (update i b) := by
  obtain ⟨order, hnodup, hmem, rfl⟩ := h
  refine ⟨order ++ [i], ?_, fun j => ?_, ?_⟩
  · rw [List.nodup_append]
    refine ⟨hnodup, List.nodup_singleton i, fun j hj k hk heq => ?_⟩
    rw [heq, List.mem_singleton.mp hk, hmem] at hj
    exact hnot hj
  · rw [List.mem_append, List.mem_singleton, hmem, hdone, or_comm]
  · rw [List.foldl_append, List.foldl_cons, List.foldl_nil]

end Updates

end Program
