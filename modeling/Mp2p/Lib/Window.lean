import Mathlib.Data.List.Basic
import Mathlib.Tactic.Common

/-!
# Windows of a buffer

Reading and overwriting a range of a buffer, both refused when the range leaves the buffer. Writes
that all carry the contents of one source at their own offsets can be made in any order and may
overlap: what the buffer holds afterwards is the source wherever some write reached, and what it
held before everywhere else.
-/

namespace Window

variable {α : Type*}

def read (buf : List α) (off len : ℕ) : Option (List α) :=
  if off + len ≤ buf.length then some ((buf.drop off).take len) else none

def write (buf : List α) (off : ℕ) (data : List α) : Option (List α) :=
  if off + data.length ≤ buf.length then
    some (buf.take off ++ data ++ buf.drop (off + data.length))
  else none

def writeAll (buf : List α) (writes : List (ℕ × List α)) : Option (List α) :=
  writes.foldlM (fun out w => write out w.1 w.2) buf

/-- The write carries the contents of `src` at its own offset. -/
def CopyOf (src : List α) (w : ℕ × List α) : Prop :=
  ∀ j < w.2.length, w.2[j]? = src[w.1 + j]?

def Reaches (w : ℕ × List α) (k : ℕ) : Prop := w.1 ≤ k ∧ k < w.1 + w.2.length

instance (w : ℕ × List α) (k : ℕ) : Decidable (Reaches w k) := by
  unfold Reaches
  infer_instance

variable {buf src out data : List α} {off len k : ℕ}

theorem read_eq_some_iff :
    read buf off len = some data ↔
      off + len ≤ buf.length ∧ data = (buf.drop off).take len := by
  unfold read
  split_ifs with h <;> simp [h, eq_comm]

theorem length_of_read (h : read buf off len = some data) : data.length = len := by
  obtain ⟨hle, rfl⟩ := read_eq_some_iff.mp h
  simp only [List.length_take, List.length_drop]
  omega

theorem getElem?_of_read (h : read buf off len = some data) {j : ℕ} (hj : j < len) :
    data[j]? = buf[off + j]? := by
  obtain ⟨_, rfl⟩ := read_eq_some_iff.mp h
  rw [List.getElem?_take_of_lt hj, List.getElem?_drop]

/-- Windows that lie one behind the other hold the buffer up to where the next one would start. -/
theorem exists_mapM_read (off : ℕ → ℕ) {len : ℕ → ℕ} {f : ℕ → Option (List α)} {n : ℕ}
    (hfirst : off 0 = 0) (hnext : ∀ i < n, off (i + 1) = off i + len i) (hfit : off n ≤ buf.length)
    (hread : ∀ i < n, f i = read buf (off i) (len i)) :
    ∃ parts, (List.range n).mapM f = some parts ∧ parts.flatten = buf.take (off n) := by
  induction n with
  | zero => exact ⟨[], rfl, by rw [hfirst, List.take_zero, List.flatten_nil]⟩
  | succ n ih =>
      have hend := hnext n (Nat.lt_succ_self n)
      obtain ⟨parts, hparts, hflatten⟩ := ih (fun i hi => hnext i (by omega)) (by omega)
        (fun i hi => hread i (by omega))
      have hlast : f n = some ((buf.drop (off n)).take (len n)) := by
        rw [hread n (Nat.lt_succ_self n)]
        exact read_eq_some_iff.mpr ⟨by omega, rfl⟩
      refine ⟨parts ++ [(buf.drop (off n)).take (len n)], ?_, ?_⟩
      · rw [List.range_succ, List.mapM_append, hparts, List.mapM_cons, hlast]
        rfl
      · rw [List.flatten_append, hflatten, List.flatten_singleton, hend, List.take_add]

theorem write_eq_some_iff :
    write buf off data = some out ↔
      off + data.length ≤ buf.length ∧
        out = buf.take off ++ data ++ buf.drop (off + data.length) := by
  unfold write
  split_ifs with h <;> simp [h, eq_comm]

theorem length_of_write (h : write buf off data = some out) : out.length = buf.length := by
  obtain ⟨hle, rfl⟩ := write_eq_some_iff.mp h
  simp only [List.length_append, List.length_take, List.length_drop]
  omega

theorem getElem?_of_write (h : write buf off data = some out) (k : ℕ) :
    out[k]? = if Reaches (off, data) k then data[k - off]? else buf[k]? := by
  obtain ⟨hle, rfl⟩ := write_eq_some_iff.mp h
  have htake : (buf.take off).length = off := by
    rw [List.length_take]
    omega
  rcases Nat.lt_or_ge k off with hlt | hge
  · rw [if_neg (by simp only [Reaches]; omega), List.append_assoc,
      List.getElem?_append_left (by omega), List.getElem?_take_of_lt hlt]
  · rw [List.append_assoc, List.getElem?_append_right (by omega), htake]
    rcases Nat.lt_or_ge k (off + data.length) with hlt | hge'
    · rw [if_pos ⟨hge, hlt⟩, List.getElem?_append_left (by omega)]
    · rw [if_neg (by simp only [Reaches]; omega), List.getElem?_append_right (by omega),
        List.getElem?_drop]
      congr 1
      omega

@[simp]
theorem writeAll_nil : writeAll buf [] = some buf := rfl

theorem writeAll_cons (w : ℕ × List α) (rest : List (ℕ × List α)) :
    writeAll buf (w :: rest) = (write buf w.1 w.2).bind fun out => writeAll out rest := rfl

theorem length_of_writeAll {writes : List (ℕ × List α)} (h : writeAll buf writes = some out) :
    out.length = buf.length := by
  induction writes generalizing buf with
  | nil =>
      rw [writeAll_nil, Option.some_inj] at h
      rw [h]
  | cons w rest ih =>
      rw [writeAll_cons, Option.bind_eq_some_iff] at h
      obtain ⟨mid, hmid, hrest⟩ := h
      rw [ih hrest, length_of_write hmid]

/-- **Copies of one source commute.** The order of the writes and their overlaps leave no trace. -/
theorem getElem?_of_writeAll {writes : List (ℕ × List α)} (h : writeAll buf writes = some out)
    (hcopy : ∀ w ∈ writes, CopyOf src w) (k : ℕ) :
    out[k]? = if ∃ w ∈ writes, Reaches w k then src[k]? else buf[k]? := by
  induction writes generalizing buf with
  | nil =>
      rw [writeAll_nil, Option.some_inj] at h
      simp [h]
  | cons w rest ih =>
      rw [writeAll_cons, Option.bind_eq_some_iff] at h
      obtain ⟨mid, hmid, hrest⟩ := h
      rw [ih hrest fun v hv => hcopy v (List.mem_cons_of_mem _ hv)]
      by_cases hlater : ∃ v ∈ rest, Reaches v k
      · obtain ⟨v, hv, hreach⟩ := hlater
        rw [if_pos ⟨v, hv, hreach⟩, if_pos ⟨v, List.mem_cons_of_mem _ hv, hreach⟩]
      · rw [if_neg hlater, getElem?_of_write hmid]
        by_cases hnow : Reaches w k
        · have hlo := hnow.1
          have hhi := hnow.2
          rw [if_pos hnow, if_pos ⟨w, List.mem_cons_self, hnow⟩,
            hcopy w List.mem_cons_self _ (by omega), Nat.add_sub_cancel' hlo]
        · rw [if_neg hnow, if_neg]
          rintro ⟨v, hv, hreach⟩
          rcases List.mem_cons.mp hv with rfl | hv
          · exact hnow hreach
          · exact hlater ⟨v, hv, hreach⟩

theorem exists_writeAll {writes : List (ℕ × List α)}
    (hfit : ∀ w ∈ writes, w.1 + w.2.length ≤ buf.length) :
    ∃ out, writeAll buf writes = some out := by
  induction writes generalizing buf with
  | nil => exact ⟨buf, rfl⟩
  | cons w rest ih =>
      obtain ⟨mid, hmid⟩ : ∃ mid, write buf w.1 w.2 = some mid :=
        ⟨_, write_eq_some_iff.mpr ⟨hfit w List.mem_cons_self, rfl⟩⟩
      obtain ⟨out, hout⟩ := @ih mid fun v hv => by
        rw [length_of_write hmid]
        exact hfit v (List.mem_cons_of_mem _ hv)
      exact ⟨out, by rw [writeAll_cons, hmid, Option.bind_some, hout]⟩

/-- Copies of the source that reach every position rebuild it. -/
theorem writeAll_eq_source {writes : List (ℕ × List α)} (hlen : buf.length = src.length)
    (hfit : ∀ w ∈ writes, w.1 + w.2.length ≤ src.length) (hcopy : ∀ w ∈ writes, CopyOf src w)
    (hcover : ∀ k < src.length, ∃ w ∈ writes, Reaches w k) :
    writeAll buf writes = some src := by
  obtain ⟨out, hout⟩ := @exists_writeAll _ buf writes (by rwa [hlen])
  rw [hout, Option.some_inj]
  apply List.ext_getElem?
  intro k
  rw [getElem?_of_writeAll hout hcopy]
  split_ifs with hreach
  · rfl
  · have hk : src.length ≤ k := by
      by_contra hlt
      exact hreach (hcover k (by omega))
    rw [List.getElem?_eq_none (by omega), List.getElem?_eq_none hk]

end Window
