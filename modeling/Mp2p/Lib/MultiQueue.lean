import Mathlib.Logic.Function.Basic
import Mathlib.Tactic.Common

/-!
# Queues of several producers

A queue that keeps one sub-queue for each producer. What one producer pushes comes out in its order;
between producers there is none, since a pop may take the head of any sub-queue.
-/

abbrev MultiQueue (ι α : Type) : Type := ι → List α

namespace MultiQueue

variable {ι α : Type}

def empty : MultiQueue ι α := fun _ => []

variable [DecidableEq ι]

def push (q : MultiQueue ι α) (i : ι) (a : α) : MultiQueue ι α :=
  Function.update q i (q i ++ [a])

def pop (q : MultiQueue ι α) (i : ι) : Option (α × MultiQueue ι α) :=
  match q i with
  | [] => none
  | a :: rest => some (a, Function.update q i rest)

variable {q q' : MultiQueue ι α} {i j : ι} {a : α}

@[simp]
theorem push_self (q : MultiQueue ι α) (i : ι) (a : α) : q.push i a i = q i ++ [a] :=
  Function.update_self ..

theorem push_of_ne (h : j ≠ i) : q.push i a j = q j := Function.update_of_ne h ..

theorem mem_push {b : α} : b ∈ q.push i a j ↔ b ∈ q j ∨ j = i ∧ b = a := by
  by_cases hj : j = i
  · rw [hj, push_self, List.mem_append, List.mem_singleton, and_iff_right rfl]
  · rw [push_of_ne hj, or_iff_left fun h => hj h.1]

theorem eq_cons_of_pop (h : q.pop i = some (a, q')) : q i = a :: q' i := by
  rw [pop] at h
  split at h
  · cases h
  · rename_i hcons
    cases h
    rw [hcons, Function.update_self]

theorem eq_of_pop_of_ne (h : q.pop i = some (a, q')) (hne : j ≠ i) : q' j = q j := by
  rw [pop] at h
  split at h
  · cases h
  · cases h
    exact Function.update_of_ne hne ..

theorem mem_of_pop (h : q.pop i = some (a, q')) : a ∈ q i := by
  rw [eq_cons_of_pop h]
  exact List.mem_cons_self

theorem mem_of_mem_of_pop {b : α} (h : q.pop i = some (a, q')) (hb : b ∈ q' j) : b ∈ q j := by
  by_cases hj : j = i
  · rw [hj, eq_cons_of_pop h]
    exact List.mem_cons_of_mem a (hj ▸ hb)
  · rwa [← eq_of_pop_of_ne h hj]

end MultiQueue
