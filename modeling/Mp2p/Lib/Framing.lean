import Mathlib.Algebra.Order.BigOperators.Group.List
import Mathlib.Algebra.Order.Group.Nat
import Mathlib.Data.List.Basic
import Mathlib.Tactic.Common

/-!
# Concatenations of frames

A stream made of frames laid back to back and cut anywhere is some whole frames followed by a proper
prefix of the next one. Frames that shrink are missed in the stream, whatever follows them.
-/

namespace Framing

variable {α : Type*}

/-- How many of the frames end at or before the cut. -/
def within : List (List α) → ℕ → ℕ
  | [], _ => 0
  | frame :: rest, cut => if frame.length ≤ cut then within rest (cut - frame.length) + 1 else 0

/-- The cut stream is the whole frames and a proper prefix of the frame after them. -/
theorem exists_take_eq (frames : List (List α)) (cut : ℕ) :
    ∃ tail, frames.flatten.take cut = (frames.take (within frames cut)).flatten ++ tail ∧
      (tail = [] ∨ ∃ frame ∈ frames, ∃ n < frame.length, tail = frame.take n) := by
  induction frames generalizing cut with
  | nil => exact ⟨[], by simp [within], Or.inl rfl⟩
  | cons frame rest ih =>
      by_cases h : frame.length ≤ cut
      · obtain ⟨tail, heq, htail⟩ := ih (cut - frame.length)
        refine ⟨tail, ?_, ?_⟩
        · rw [within, if_pos h, List.flatten_cons, List.take_succ_cons, List.flatten_cons,
            List.append_assoc, ← heq, List.take_append, List.take_of_length_le h]
        · rcases htail with hnil | ⟨f, hf, n, hn, heqn⟩
          · exact Or.inl hnil
          · exact Or.inr ⟨f, List.mem_cons_of_mem _ hf, n, hn, heqn⟩
      · refine ⟨frame.take cut, ?_, Or.inr ⟨frame, List.mem_cons_self, cut, by omega, rfl⟩⟩
        rw [within, if_neg h, List.flatten_cons, List.take_append_of_le_length (by omega)]
        simp

theorem length_flatMap_le {ι : Type*} {f g : ι → List α} {l : List ι}
    (hle : ∀ i ∈ l, (f i).length ≤ (g i).length) :
    (l.flatMap f).length ≤ (l.flatMap g).length := by
  rw [List.length_flatMap, List.length_flatMap]
  exact List.sum_le_sum hle

/-- Frames that are nowhere longer than others run together to the same stream only when each is the
other. -/
theorem flatMap_eq_flatMap_iff {ι : Type*} {f g : ι → List α} {l : List ι}
    (hle : ∀ i ∈ l, (f i).length ≤ (g i).length) :
    l.flatMap f = l.flatMap g ↔ ∀ i ∈ l, f i = g i := by
  induction l with
  | nil => exact ⟨fun _ => nofun, fun _ => rfl⟩
  | cons i rest ih =>
      have hfirst := hle i List.mem_cons_self
      have hrest : ∀ j ∈ rest, (f j).length ≤ (g j).length := fun j hj =>
        hle j (List.mem_cons_of_mem i hj)
      rw [List.flatMap_cons, List.flatMap_cons, List.forall_mem_cons, ← ih hrest]
      constructor
      · intro heq
        have htotal := congrArg List.length heq
        have htail := length_flatMap_le hrest
        rw [List.length_append, List.length_append] at htotal
        exact List.append_inj heq (by omega)
      · rintro ⟨hhead, htail⟩
        rw [hhead, htail]

end Framing
