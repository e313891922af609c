import Mathlib.Algebra.BigOperators.Group.Finset.Basic
import Mathlib.Data.Int.CardIntervalMod
import Mathlib.Data.List.Rotate

/-!
# Round robin

Places in a circle and a cursor. A task is given to the first place, from the cursor on, that takes
it, and the cursor moves right behind that place. As long as the places that take tasks stay the
same, the tasks go round these places in order.
-/

namespace RoundRobin

def rotation (n cursor : ℕ) : List ℕ := (List.range n).rotate cursor

def next (n : ℕ) (accepts : ℕ → Bool) (cursor : ℕ) : Option ℕ := (rotation n cursor).find? accepts

/-- The places that so many tasks from `task` on are given to, and the cursor behind the last. -/
def assign (n : ℕ) (accepts : ℕ → ℕ → Bool) : ℕ → ℕ → ℕ → Option (List ℕ × ℕ)
  | 0, _, cursor => some ([], cursor)
  | count + 1, task, cursor =>
      (next n (accepts task) cursor).bind fun place =>
        (assign n accepts count (task + 1) (place + 1)).map fun r => (place :: r.1, r.2)

section Next

variable {n cursor place : ℕ} {accepts : ℕ → Bool}

theorem mem_rotation : place ∈ rotation n cursor ↔ place < n := by
  rw [rotation, List.mem_rotate, List.mem_range]

theorem nodup_rotation (n cursor : ℕ) : (rotation n cursor).Nodup :=
  List.nodup_rotate.mpr List.nodup_range

theorem length_rotation (n cursor : ℕ) : (rotation n cursor).length = n := by
  rw [rotation, List.length_rotate, List.length_range]

theorem getElem_rotation {k : ℕ} (h : k < (rotation n cursor).length) :
    (rotation n cursor)[k] = (k + cursor) % n := by
  simp only [rotation, List.getElem_rotate, List.getElem_range, List.length_range]

theorem rotation_rotate (n cursor k : ℕ) :
    (rotation n cursor).rotate k = rotation n (cursor + k) :=
  List.rotate_rotate _ _ _

theorem rotation_mod (n cursor : ℕ) : rotation n (cursor % n) = rotation n cursor := by
  have h := List.rotate_mod (List.range n) cursor
  rwa [List.length_range] at h

theorem rotation_eq_cons (hn : 0 < n) (cursor : ℕ) :
    ∃ others, rotation n cursor = cursor % n :: others ∧
      rotation n (cursor + 1) = others ++ [cursor % n] := by
  have hlength := length_rotation n cursor
  cases hrotation : rotation n cursor with
  | nil =>
      rw [hrotation] at hlength
      exact absurd hlength hn.ne
  | cons first others =>
      have hfirst := @getElem_rotation n cursor 0 (by omega)
      simp only [hrotation, List.getElem_cons_zero, Nat.zero_add] at hfirst
      refine ⟨others, by rw [hfirst], ?_⟩
      rw [← rotation_rotate, hrotation, List.rotate_cons_succ, List.rotate_zero, hfirst]

theorem lt_of_next (h : next n accepts cursor = some place) : place < n :=
  mem_rotation.mp (List.mem_of_find?_eq_some h)

theorem accepts_of_next (h : next n accepts cursor = some place) : accepts place = true :=
  List.find?_some h

theorem next_eq_none_iff : next n accepts cursor = none ↔ ∀ place < n, accepts place = false := by
  rw [next, List.find?_eq_none]
  simp only [mem_rotation, Bool.not_eq_true]

theorem next_of_accepts (hn : 0 < n) (h : accepts (cursor % n) = true) :
    next n accepts cursor = some (cursor % n) := by
  obtain ⟨others, hrotation, -⟩ := rotation_eq_cons hn cursor
  rw [next, hrotation, List.find?_cons_of_pos h]

/-- The place that takes a task is so many places away, and none in between takes it. -/
theorem exists_distance (h : next n accepts cursor = some place) :
    ∃ k < n, place = (cursor + k) % n ∧ ∀ j < k, accepts ((cursor + j) % n) = false := by
  obtain ⟨-, k, hk, hplace, hbefore⟩ := List.find?_eq_some_iff_getElem.mp h
  rw [length_rotation] at hk
  refine ⟨k, hk, ?_, ?_⟩
  · rw [← hplace, getElem_rotation, Nat.add_comm]
  · intro j hj
    have hfalse := hbefore j hj
    rwa [getElem_rotation, Nat.add_comm, Bool.not_eq_true'] at hfalse

end Next

section Assign

variable {n count task cursor cursor' : ℕ} {accepts : ℕ → ℕ → Bool} {places : List ℕ}

theorem assign_succ_eq_some_iff {r : List ℕ × ℕ} :
    assign n accepts (count + 1) task cursor = some r ↔
      ∃ place rest, next n (accepts task) cursor = some place ∧
        assign n accepts count (task + 1) (place + 1) = some (rest, r.2) ∧
        r.1 = place :: rest := by
  rw [assign, Option.bind_eq_some_iff]
  constructor
  · rintro ⟨place, hplace, hrest⟩
    obtain ⟨⟨rest, cursor'⟩, hassign, rfl⟩ := Option.map_eq_some_iff.mp hrest
    exact ⟨place, rest, hplace, hassign, rfl⟩
  · rintro ⟨place, rest, hplace, hassign, hr⟩
    exact ⟨place, hplace, Option.map_eq_some_iff.mpr ⟨_, hassign, Prod.ext hr.symm rfl⟩⟩

theorem assign_isSome_iff : (assign n accepts count task cursor).isSome ↔
    ∀ j < count, ∃ place < n, accepts (task + j) place = true := by
  induction count generalizing task cursor with
  | zero => exact iff_of_true rfl nofun
  | succ count ih =>
      have hshift : (∀ j < count + 1, ∃ place < n, accepts (task + j) place = true) ↔
          (∃ place < n, accepts task place = true) ∧
            ∀ j < count, ∃ place < n, accepts (task + 1 + j) place = true := by
        rw [Nat.forall_lt_succ_left]
        simp only [Nat.add_zero, Nat.add_assoc, Nat.add_comm 1]
      rw [hshift, assign]
      cases hnext : next n (accepts task) cursor with
      | none =>
          refine iff_of_false nofun ?_
          rintro ⟨⟨place, hlt, haccepts⟩, -⟩
          rw [next_eq_none_iff.mp hnext place hlt] at haccepts
          cases haccepts
      | some place =>
          rw [Option.bind_some, Option.isSome_map, ih]
          exact (and_iff_right ⟨place, lt_of_next hnext, accepts_of_next hnext⟩).symm

theorem length_of_assign (h : assign n accepts count task cursor = some (places, cursor')) :
    places.length = count := by
  induction count generalizing task cursor places with
  | zero =>
      cases h
      rfl
  | succ count ih =>
      obtain ⟨place, rest, -, hrest, rfl⟩ := assign_succ_eq_some_iff.mp h
      rw [List.length_cons, ih hrest]

theorem lt_of_mem_assign (h : assign n accepts count task cursor = some (places, cursor'))
    {place : ℕ} (hmem : place ∈ places) : place < n := by
  induction count generalizing task cursor places with
  | zero =>
      cases h
      cases hmem
  | succ count ih =>
      obtain ⟨first, rest, hfirst, hrest, rfl⟩ := assign_succ_eq_some_iff.mp h
      obtain rfl | hmem := List.mem_cons.mp hmem
      · exact lt_of_next hfirst
      · exact ih hrest hmem

theorem cursor_le_of_assign (h : assign n accepts count task cursor = some (places, cursor'))
    (hcursor : cursor ≤ n) : cursor' ≤ n := by
  induction count generalizing task cursor places with
  | zero =>
      cases h
      exact hcursor
  | succ count ih =>
      obtain ⟨first, rest, hfirst, hrest, -⟩ := assign_succ_eq_some_iff.mp h
      exact ih hrest (lt_of_next hfirst)

theorem assign_add (first second : ℕ) : assign n accepts (first + second) task cursor =
    (assign n accepts first task cursor).bind fun r =>
      (assign n accepts second (task + first) r.2).map fun r' => (r.1 ++ r'.1, r'.2) := by
  induction first generalizing task cursor with
  | zero => simp [assign]
  | succ first ih =>
      rw [Nat.succ_add, assign, assign]
      cases next n (accepts task) cursor with
      | none => rfl
      | some place =>
          rw [Option.bind_some, Option.bind_some, ih, Nat.succ_add_eq_add_succ]
          cases assign n accepts first (task + 1) (place + 1) with
          | none => rfl
          | some r => simp [Function.comp_def]

theorem assign_congr {accepts' : ℕ → ℕ → Bool}
    (h : ∀ j < count, accepts (task + j) = accepts' (task + j)) :
    assign n accepts count task cursor = assign n accepts' count task cursor := by
  induction count generalizing task cursor with
  | zero => rfl
  | succ count ih =>
      have hfirst : accepts task = accepts' task := h 0 (Nat.succ_pos count)
      have hrest (place : ℕ) : assign n accepts count (task + 1) (place + 1) =
          assign n accepts' count (task + 1) (place + 1) := by
        apply ih
        intro j hj
        rw [Nat.add_assoc, Nat.add_comm 1]
        exact h (j + 1) (Nat.succ_lt_succ hj)
      rw [assign, assign, hfirst]
      simp only [hrest]

/-- The cursor is left right behind the place of the last task. -/
theorem cursor_of_assign
    (h : assign n accepts (count + 1) task cursor = some (places, cursor')) :
    ∃ place, places[count]? = some place ∧ cursor' = place + 1 := by
  induction count generalizing task cursor places with
  | zero =>
      obtain ⟨place, rest, -, hrest, rfl⟩ := assign_succ_eq_some_iff.mp h
      cases hrest
      exact ⟨place, rfl, rfl⟩
  | succ count ih =>
      obtain ⟨first, rest, -, hrest, rfl⟩ := assign_succ_eq_some_iff.mp h
      rw [List.getElem?_cons_succ]
      exact ih hrest

end Assign

/-! ### Tasks that are all alike -/

section Alike

variable {n count task cursor cursor' : ℕ} {accepts : ℕ → Bool}

/-- The places that take tasks, in the order their turns come. -/
def willing (n : ℕ) (accepts : ℕ → Bool) (cursor : ℕ) : List ℕ :=
  (rotation n cursor).filter accepts

theorem willing_succ (hn : 0 < n) (h : accepts (cursor % n) = false) :
    willing n accepts (cursor + 1) = willing n accepts cursor := by
  obtain ⟨others, hrotation, hsucc⟩ := rotation_eq_cons hn cursor
  simp [willing, hrotation, hsucc, h]

theorem willing_next {place : ℕ} (h : next n accepts cursor = some place) :
    ∃ others, willing n accepts cursor = place :: others ∧
      willing n accepts (place + 1) = others ++ [place] := by
  obtain ⟨k, hk, hplace, hbefore⟩ := exists_distance h
  have hn : 0 < n := Nat.zero_lt_of_lt hk
  have haccepts := accepts_of_next h
  have hskip : ∀ j ≤ k, willing n accepts (cursor + j) = willing n accepts cursor := by
    intro j hj
    induction j with
    | zero => rfl
    | succ j ih =>
        rw [← ih (Nat.le_of_succ_le hj)]
        exact willing_succ hn (hbefore j hj)
  obtain ⟨others, hrotation, hsucc⟩ := rotation_eq_cons hn (cursor + k)
  rw [← hplace] at hrotation hsucc
  refine ⟨others.filter accepts, ?_, ?_⟩
  · rw [← hskip k le_rfl, willing, hrotation, List.filter_cons_of_pos haccepts]
  · have hmod : rotation n (place + 1) = rotation n (cursor + k + 1) := by
      rw [← rotation_rotate, ← rotation_rotate, hplace, rotation_mod]
    rw [willing, hmod, hsucc, List.filter_append, List.filter_cons_of_pos haccepts, List.filter_nil]

/-- **Turns.** Tasks that the same places take go round these places in order. -/
theorem getElem?_of_assign {places : List ℕ}
    (h : assign n (fun _ => accepts) count task cursor = some (places, cursor')) {j : ℕ}
    (hj : j < count) :
    places[j]? = (willing n accepts cursor)[j % (willing n accepts cursor).length]? := by
  induction count generalizing task cursor places j with
  | zero => cases hj
  | succ count ih =>
      obtain ⟨place, rest, hplace, hrest, hplaces⟩ := assign_succ_eq_some_iff.mp h
      obtain ⟨others, hwilling, hwilling'⟩ := willing_next hplace
      dsimp only at hplaces
      subst hplaces
      cases j with
      | zero => rw [hwilling, Nat.zero_mod, List.getElem?_cons_zero, List.getElem?_cons_zero]
      | succ j =>
          have hrotate : willing n accepts (place + 1) = (willing n accepts cursor).rotate 1 := by
            rw [hwilling, hwilling', List.rotate_cons_succ, List.rotate_zero]
          have hlength : 0 < (willing n accepts cursor).length := by
            rw [hwilling]
            exact Nat.succ_pos _
          rw [List.getElem?_cons_succ, ih hrest (Nat.lt_of_succ_lt_succ hj), hrotate,
            List.length_rotate, List.getElem?_rotate (Nat.mod_lt _ hlength), Nat.mod_add_mod]

theorem nodup_willing (n : ℕ) (accepts : ℕ → Bool) (cursor : ℕ) :
    (willing n accepts cursor).Nodup :=
  (nodup_rotation n cursor).filter _

/-- How many of the tasks the place whose turn is number `j` takes. -/
theorem count_of_assign {places : List ℕ}
    (h : assign n (fun _ => accepts) count task cursor = some (places, cursor')) {j place : ℕ}
    (hj : (willing n accepts cursor)[j]? = some place) :
    Nat.count (fun i => places[i]? = some place) count =
      count / (willing n accepts cursor).length +
        if j < count % (willing n accepts cursor).length then 1 else 0 := by
  set turns := willing n accepts cursor with hturns
  obtain ⟨hlt, hplace⟩ := List.getElem?_eq_some_iff.mp hj
  have hpos : 0 < turns.length := Nat.zero_lt_of_lt hlt
  have hturn : ∀ i < count, places[i]? = some place ↔ i ≡ j [MOD turns.length] := by
    intro i hi
    have hmod := Nat.mod_lt i hpos
    rw [getElem?_of_assign h hi, ← hturns, List.getElem?_eq_getElem hmod, Option.some_inj, ← hplace,
      (nodup_willing n accepts cursor).getElem_inj_iff, Nat.ModEq, Nat.mod_eq_of_lt hlt]
  have hcount : Nat.count (fun i => places[i]? = some place) count =
      Nat.count (fun i => i ≡ j [MOD turns.length]) count := by
    rw [Nat.count_eq_card_filter_range, Nat.count_eq_card_filter_range]
    congr 1
    apply Finset.filter_congr
    intro i hi
    exact hturn i (Finset.mem_range.mp hi)
  rw [hcount, Nat.count_modEq_card _ hpos, Nat.mod_eq_of_lt hlt]

/-- How many of the tasks go to places of a kind: what each turn of the kind takes, added up. -/
theorem count_any_of_assign {places : List ℕ}
    (h : assign n (fun _ => accepts) count task cursor = some (places, cursor')) (kind : ℕ → Bool) :
    Nat.count (fun i => places[i]?.any kind) count =
      ∑ j ∈ Finset.range (willing n accepts cursor).length,
        if (willing n accepts cursor)[j]?.any kind then
          count / (willing n accepts cursor).length +
            if j < count % (willing n accepts cursor).length then 1 else 0
        else 0 := by
  set turns := willing n accepts cursor with hturns
  have hplace : ∀ i < count, places[i]? = turns[i % turns.length]? :=
    fun i hi => getElem?_of_assign h hi
  have hmaps : ∀ i ∈ (Finset.range count).filter fun i => places[i]?.any kind,
      i % turns.length ∈ Finset.range turns.length := by
    intro i hi
    rw [Finset.mem_filter, Finset.mem_range] at hi
    rw [Finset.mem_range]
    refine Nat.mod_lt _ (Nat.pos_of_ne_zero fun hzero => ?_)
    rw [hplace i hi.1, List.length_eq_zero_iff.mp hzero] at hi
    cases hi.2
  rw [Nat.count_eq_card_filter_range, Finset.card_eq_sum_card_fiberwise hmaps]
  refine Finset.sum_congr rfl fun j hj => ?_
  have hlt := Finset.mem_range.mp hj
  have hpos : 0 < turns.length := Nat.zero_lt_of_lt hlt
  have hat : ∀ i < count, i % turns.length = j → places[i]? = turns[j]? := by
    intro i hi hij
    rw [hplace i hi, hij]
  by_cases hkind : turns[j]?.any kind
  · rw [if_pos hkind]
    have hturn : turns[j]? = some turns[j] := List.getElem?_eq_getElem hlt
    rw [← count_of_assign h hturn, Nat.count_eq_card_filter_range, Finset.filter_filter]
    congr 1
    apply Finset.filter_congr
    intro i hi
    have hi := Finset.mem_range.mp hi
    constructor
    · rintro ⟨-, hij⟩
      rw [hat i hi hij, hturn]
    · intro hi'
      have hmod : i % turns.length = j := by
        rw [hplace i hi, List.getElem?_eq_getElem (Nat.mod_lt i hpos), Option.some_inj] at hi'
        exact (nodup_willing n accepts cursor).getElem_inj_iff.mp hi'
      refine ⟨?_, hmod⟩
      rwa [hat i hi hmod]
  · rw [if_neg hkind, Finset.card_eq_zero, Finset.filter_eq_empty_iff]
    intro i hi hij
    rw [Finset.mem_filter, Finset.mem_range] at hi
    rw [hat i hi.1 hij] at hi
    exact hkind hi.2

end Alike

/-! ### Places that take every task -/

section Balance

variable {n count task cursor cursor' : ℕ} {accepts : ℕ → ℕ → Bool} {places : List ℕ}

def turns (n cursor count : ℕ) : List ℕ := (List.range count).map fun j => (cursor + j) % n

theorem turns_add (n cursor first second : ℕ) :
    turns n cursor (first + second) = turns n cursor first ++ turns n (cursor + first) second := by
  rw [turns, turns, turns, List.range_add, List.map_append, List.map_map]
  congr 1
  apply List.map_congr_left
  intro j _
  rw [Function.comp_apply, Nat.add_assoc]

theorem turns_congr (h : cursor % n = cursor' % n) (count : ℕ) :
    turns n cursor count = turns n cursor' count := by
  apply List.map_congr_left
  intro j _
  rw [← Nat.mod_add_mod, h, Nat.mod_add_mod]

/-- Places that take every task take one each in turn, and the cursor is where the next turn is. -/
theorem assign_of_forall (hn : 0 < n)
    (haccepts : ∀ j < count, ∀ place < n, accepts (task + j) place = true)
    (h : assign n accepts count task cursor = some (places, cursor')) :
    places = turns n cursor count ∧ cursor' % n = (cursor + count) % n := by
  induction count generalizing task cursor places with
  | zero =>
      cases h
      exact ⟨rfl, rfl⟩
  | succ count ih =>
      obtain ⟨place, rest, hplace, hrest, hplaces⟩ := assign_succ_eq_some_iff.mp h
      have hfirst := @next_of_accepts n cursor (accepts task) hn
        (haccepts 0 (Nat.succ_pos _) _ (Nat.mod_lt _ hn))
      rw [hplace, Option.some_inj] at hfirst
      obtain ⟨hrest', hcursor⟩ := ih (fun j hj place hlt => by
        have := haccepts (j + 1) (Nat.succ_lt_succ hj) place hlt
        rwa [Nat.add_comm j, ← Nat.add_assoc] at this) hrest
      have hturn (j : ℕ) : (place + 1 + j) % n = (cursor + (j + 1)) % n := by
        rw [hfirst, Nat.add_assoc, Nat.mod_add_mod, Nat.add_comm 1]
      refine ⟨?_, ?_⟩
      · dsimp only at hplaces
        rw [hplaces, hrest', turns, turns, List.range_succ_eq_map, List.map_cons, List.map_map, hfirst,
          Nat.add_zero]
        refine congrArg _ (List.map_congr_left fun j _ => ?_)
        rw [Function.comp_apply, ← hturn, hfirst]
      · rw [hcursor, hturn]

theorem exists_assign_of_forall (hn : 0 < n)
    (haccepts : ∀ j < count, ∀ place < n, accepts (task + j) place = true) :
    ∃ r, assign n accepts count task cursor = some r :=
  Option.isSome_iff_exists.mp
    (assign_isSome_iff.mpr fun j hj => ⟨0, hn, haccepts j hj 0 hn⟩)

/-- How many of the tasks that go once round a place takes, one by one. -/
theorem count_turns (hn : 0 < n) (cursor count : ℕ) {place : ℕ} (hplace : place < n) :
    (turns n cursor count).count place = count / n ∨
      (turns n cursor count).count place = count / n + 1 := by
  -- The turns of the place are the tasks congruent to its distance from the cursor.
  have hcongr (j : ℕ) : (cursor + j) % n = place ↔ j ≡ place + n - cursor % n [MOD n] := by
    have hlt := Nat.mod_lt cursor hn
    rw [← Nat.mod_add_mod, Nat.ModEq]
    constructor
    · intro h
      have hsum : cursor % n + j ≡ cursor % n + (place + n - cursor % n) [MOD n] := by
        rw [Nat.ModEq, h, Nat.add_sub_cancel' (by omega), Nat.add_mod_right, Nat.mod_eq_of_lt hplace]
      exact Nat.ModEq.add_left_cancel' _ hsum
    · intro h
      have hsum : cursor % n + j ≡ cursor % n + (place + n - cursor % n) [MOD n] :=
        Nat.ModEq.add_left _ h
      rwa [Nat.ModEq, Nat.add_sub_cancel' (by omega), Nat.add_mod_right,
        Nat.mod_eq_of_lt hplace] at hsum
  have hcount : (turns n cursor count).count place =
      count.count (· ≡ place + n - cursor % n [MOD n]) := by
    rw [turns, List.count, List.countP_map, Nat.count]
    refine List.countP_congr fun j _ => ?_
    simp only [Function.comp_apply, beq_iff_eq, decide_eq_true_eq, hcongr]
  rw [hcount, Nat.count_modEq_card _ hn]
  split_ifs
  · exact .inr rfl
  · exact .inl rfl

/-- **Balance.** Of the tasks that go round, any two places take the same number up to one. -/
theorem count_turns_le (hn : 0 < n) (cursor count : ℕ) {p q : ℕ} (hp : p < n) (hq : q < n) :
    (turns n cursor count).count p ≤ (turns n cursor count).count q + 1 := by
  have hp := count_turns hn cursor count hp
  have hq := count_turns hn cursor count hq
  omega

/-- As many places take a turn as there are turns, until all have taken one. -/
theorem card_turns (hn : 0 < n) (cursor count : ℕ) :
    (turns n cursor count).toFinset.card = min n count := by
  have himage : (turns n cursor count).toFinset =
      (Finset.range count).image fun j => (cursor + j) % n := by
    ext place
    simp only [turns, List.mem_toFinset, List.mem_map, List.mem_range, Finset.mem_image,
      Finset.mem_range]
  rw [himage]
  obtain hle | hle := Nat.le_total count n
  · rw [Nat.min_eq_right hle, Finset.card_image_of_injOn, Finset.card_range]
    intro i hi j hj hij
    rw [Finset.mem_coe, Finset.mem_range] at hi hj
    have hmod : i ≡ j [MOD n] := Nat.ModEq.add_left_cancel' cursor hij
    rwa [Nat.ModEq, Nat.mod_eq_of_lt (by omega), Nat.mod_eq_of_lt (by omega)] at hmod
  · have hall : ((Finset.range count).image fun j => (cursor + j) % n) = Finset.range n := by
      ext place
      rw [Finset.mem_image, Finset.mem_range]
      constructor
      · rintro ⟨j, -, rfl⟩
        exact Nat.mod_lt _ hn
      · intro hplace
        have hpos : 0 < (turns n cursor count).count place := by
          have hdiv : 0 < count / n := Nat.div_pos hle hn
          obtain hcount | hcount := count_turns hn cursor count hplace
          · omega
          · omega
        have hmem := List.count_pos_iff.mp hpos
        rw [← List.mem_toFinset, himage, Finset.mem_image] at hmem
        exact hmem
    rw [Nat.min_eq_left hle, hall, Finset.card_range]

end Balance

end RoundRobin
