import Mathlib.Algebra.BigOperators.Group.Finset.Basic
import Mathlib.Algebra.Order.Group.Multiset
import Mathlib.Data.Fintype.BigOperators
import Mathlib.Logic.Relation

/-!
# Fork and join

Tasks run in any order beside a supervisor that watches a counter of some of their actions. Once the
counter has reached a limit the supervisor waits for every task to end and returns. The course of a
task is fixed by what its peer answers, so runs differ only in how the courses are interleaved.
-/

/-- What one task does: its actions in order, and how it stops. -/
inductive Course (α : Type) where
  | ended
  | fault
  | act (a : α) (rest : Course α)
  deriving DecidableEq, Repr

namespace Course

variable {α : Type}

def actions : Course α → List α
  | .ended => []
  | .fault => []
  | .act a rest => a :: rest.actions

def Faults : Course α → Prop
  | .ended => False
  | .fault => True
  | .act _ rest => rest.Faults

@[simp] theorem actions_ended : (ended : Course α).actions = [] := rfl
@[simp] theorem actions_fault : (fault : Course α).actions = [] := rfl
@[simp] theorem actions_act (a : α) (rest : Course α) :
    (act a rest).actions = a :: rest.actions := rfl

@[simp] theorem not_faults_ended : ¬(ended : Course α).Faults := not_false
@[simp] theorem faults_fault : (fault : Course α).Faults := trivial
@[simp] theorem faults_act (a : α) (rest : Course α) : (act a rest).Faults ↔ rest.Faults := Iff.rfl

end Course

namespace ForkJoin

inductive Phase where
  | watching
  | joining
  | returned
  | crashed
  deriving DecidableEq, Repr

structure State (ι α : Type) where
  /-- What every task has still to do. -/
  courses : ι → Course α
  /-- What was done, the last first. -/
  log : List α
  phase : Phase

variable {ι α : Type}

def start (courses : ι → Course α) : State ι α where
  courses := courses
  log := []
  phase := .watching

variable [DecidableEq ι] {counts : α → Bool} {begin limit : ℕ}

def State.act (s : State ι α) (i : ι) (a : α) (rest : Course α) : State ι α where
  courses := Function.update s.courses i rest
  log := a :: s.log
  phase := s.phase

theorem State.courses_act_self (s : State ι α) (i : ι) (a : α) (rest : Course α) :
    (s.act i a rest).courses i = rest :=
  Function.update_self ..

theorem State.courses_act_of_ne (s : State ι α) {i j : ι} (h : j ≠ i) (a : α) (rest : Course α) :
    (s.act i a rest).courses j = s.courses j :=
  Function.update_of_ne h ..

/-- A fault of one task takes the whole process down. -/
inductive Step (counts : α → Bool) (begin limit : ℕ) (s : State ι α) : State ι α → Prop where
  | act (i : ι) (a : α) (rest : Course α) (hcourse : s.courses i = .act a rest)
      (hlive : s.phase ≠ .crashed) : Step counts begin limit s (s.act i a rest)
  | fault (i : ι) (hcourse : s.courses i = .fault) (hlive : s.phase ≠ .crashed) :
      Step counts begin limit s { s with phase := .crashed }
  | watch (hphase : s.phase = .watching) (hlimit : limit ≤ begin + s.log.countP counts) :
      Step counts begin limit s { s with phase := .joining }
  | join (hphase : s.phase = .joining) (hended : ∀ i, s.courses i = .ended) :
      Step counts begin limit s { s with phase := .returned }

def Reachable (counts : α → Bool) (begin limit : ℕ) : State ι α → State ι α → Prop :=
  Relation.ReflTransGen (Step counts begin limit)

variable [Fintype ι]

def remaining (courses : ι → Course α) : Multiset α :=
  ∑ i, ((courses i).actions : Multiset α)

omit [DecidableEq ι] in
theorem mem_remaining {courses : ι → Course α} {a : α} :
    a ∈ remaining courses ↔ ∃ i, a ∈ (courses i).actions := by
  simp [remaining, Multiset.mem_sum]

omit [DecidableEq ι] in
theorem countP_log {courses : ι → Course α} {log : List α}
    (hlog : (log : Multiset α) = remaining courses) :
    log.countP counts = ∑ i, (courses i).actions.countP counts := by
  have hcount := congrArg (Multiset.countPAddMonoidHom fun a => counts a = true) hlog
  rw [remaining, map_sum] at hcount
  simpa only [Multiset.coe_countPAddMonoidHom, Multiset.coe_countP, Bool.decide_eq_true] using
    hcount

theorem remaining_update {courses : ι → Course α} {i : ι} {a : α} {rest : Course α}
    (hcourse : courses i = .act a rest) :
    a ::ₘ remaining (Function.update courses i rest) = remaining courses := by
  have hupdate : (fun j => ((Function.update courses i rest j).actions : Multiset α)) =
      Function.update (fun j => ((courses j).actions : Multiset α)) i rest.actions := by
    funext j
    by_cases hj : j = i
    · subst hj
      rw [Function.update_self, Function.update_self]
    · rw [Function.update_of_ne hj, Function.update_of_ne hj]
  rw [remaining, hupdate, Finset.sum_update_of_mem (Finset.mem_univ i), remaining,
    ← Finset.sum_erase_add Finset.univ _ (Finset.mem_univ i), hcourse, Course.actions_act,
    ← Multiset.cons_coe, Finset.sdiff_singleton_eq_erase, ← Multiset.cons_add,
    add_comm]

/-- What every interleaving keeps: no action is lost or made up, and the supervisor has read its
limit before it joins. -/
structure Conserved (counts : α → Bool) (begin limit : ℕ) (init : ι → Course α) (s : State ι α) :
    Prop where
  actions : (s.log : Multiset α) + remaining s.courses = remaining init
  faults : ∀ i, (s.courses i).Faults ↔ (init i).Faults
  reached : s.phase = .joining ∨ s.phase = .returned → limit ≤ begin + s.log.countP counts
  ended : s.phase = .returned → ∀ i, s.courses i = .ended

theorem Conserved.step {init : ι → Course α} {s t : State ι α}
    (hs : Conserved counts begin limit init s) (hstep : Step counts begin limit s t) :
    Conserved counts begin limit init t := by
  cases hstep with
  | act i a rest hcourse hlive =>
      refine ⟨?_, fun j => ?_, fun hphase => ?_, fun hphase => ?_⟩
      · rw [← hs.actions, ← remaining_update hcourse, State.act, ← Multiset.cons_coe,
          Multiset.cons_add, Multiset.add_cons]
      · rw [← hs.faults j]
        by_cases hj : j = i
        · subst hj
          rw [State.courses_act_self, hcourse, Course.faults_act]
        · rw [State.courses_act_of_ne s hj]
      · have hreached := hs.reached hphase
        have hgrows : s.log.countP counts ≤ (a :: s.log).countP counts :=
          (List.sublist_cons_self a s.log).countP_le
        exact hreached.trans (Nat.add_le_add_left hgrows begin)
      · have hended := hs.ended hphase i
        rw [hcourse] at hended
        cases hended
  | fault i hcourse hlive =>
      refine ⟨hs.actions, hs.faults, ?_, nofun⟩
      rintro (h | h) <;> cases h
  | watch hphase hlimit =>
      exact ⟨hs.actions, hs.faults, fun _ => hlimit, nofun⟩
  | join hphase hended =>
      exact ⟨hs.actions, hs.faults, fun _ => hs.reached (.inl hphase), fun _ => hended⟩

theorem conserved_of_reachable {init : ι → Course α} {s : State ι α}
    (hreach : Reachable counts begin limit (start init) s) :
    Conserved counts begin limit init s := by
  induction hreach with
  | refl =>
      refine ⟨?_, fun _ => Iff.rfl, ?_, nofun⟩
      · exact zero_add _
      · rintro (h | h) <;> cases h
  | tail _ hstep ih => exact ih.step hstep

omit [Fintype ι] in
/-- Every task has done a first stretch of its course, and the log holds just these stretches. -/
theorem exists_done {init : ι → Course α} {s : State ι α}
    (hreach : Reachable counts begin limit (start init) s) :
    ∃ done : ι → List α, (∀ i, (init i).actions = done i ++ (s.courses i).actions) ∧
      ∀ a, a ∈ s.log ↔ ∃ i, a ∈ done i := by
  induction hreach with
  | refl => exact ⟨fun _ => [], fun _ => rfl, fun a => by simp [start]⟩
  | tail _ hstep ih =>
      obtain ⟨done, hcourses, hlog⟩ := ih
      cases hstep with
      | act i a rest hcourse hlive =>
          refine ⟨Function.update done i (done i ++ [a]), fun j => ?_, fun b => ?_⟩
          · by_cases hj : j = i
            · subst hj
              rw [Function.update_self, State.courses_act_self, hcourses j, hcourse,
                Course.actions_act, List.append_assoc, List.singleton_append]
            · rw [Function.update_of_ne hj, State.courses_act_of_ne _ hj, hcourses j]
          · rw [State.act, List.mem_cons, hlog]
            constructor
            · rintro (rfl | ⟨j, hj⟩)
              · exact ⟨i, by simp⟩
              · refine ⟨j, ?_⟩
                by_cases hji : j = i
                · subst hji
                  rw [Function.update_self]
                  exact List.mem_append_left _ hj
                · rwa [Function.update_of_ne hji]
            · rintro ⟨j, hj⟩
              by_cases hji : j = i
              · subst hji
                rw [Function.update_self, List.mem_append, List.mem_singleton] at hj
                exact hj.symm.imp_right fun h => ⟨j, h⟩
              · rw [Function.update_of_ne hji] at hj
                exact .inr ⟨j, hj⟩
      | fault i hcourse hlive => exact ⟨done, hcourses, hlog⟩
      | watch hphase hlimit => exact ⟨done, hcourses, hlog⟩
      | join hphase hended => exact ⟨done, hcourses, hlog⟩

/-- **What a return means.** The supervisor returns only after every task went through its whole
course, none of them faulted and together they brought the counter to the limit. -/
theorem of_returned {init : ι → Course α} {s : State ι α}
    (hreach : Reachable counts begin limit (start init) s) (hphase : s.phase = .returned) :
    (s.log : Multiset α) = remaining init ∧ (∀ i, ¬(init i).Faults) ∧
      limit ≤ begin + ∑ i, (init i).actions.countP counts := by
  have hs := conserved_of_reachable hreach
  have hended := hs.ended hphase
  have hlog : (s.log : Multiset α) = remaining init := by
    rw [← hs.actions, left_eq_add, remaining]
    exact Finset.sum_eq_zero fun i _ => by rw [hended i]; rfl
  refine ⟨hlog, fun i => ?_, ?_⟩
  · rw [← hs.faults i, hended i]
    exact Course.not_faults_ended
  · rw [← countP_log hlog]
    exact hs.reached (.inr hphase)

omit [Fintype ι] in
/-- Any task can be run up to an action of its own before any other moves. -/
theorem exists_logged {init : ι → Course α} {i : ι} {a : α} (ha : a ∈ (init i).actions) :
    ∃ s, Reachable counts begin limit (start init) s ∧ a ∈ s.log := by
  suffices hfrom : ∀ s : State ι α, s.phase ≠ .crashed → a ∈ (s.courses i).actions →
      ∃ t, Reachable counts begin limit s t ∧ a ∈ t.log from hfrom (start init) nofun ha
  intro s hlive ha
  induction hcourse : s.courses i generalizing s with
  | ended =>
      rw [hcourse] at ha
      cases ha
  | fault =>
      rw [hcourse] at ha
      cases ha
  | act b rest ih =>
      have hstep : Step counts begin limit s (s.act i b rest) := .act i b rest hcourse hlive
      rw [hcourse, Course.actions_act, List.mem_cons] at ha
      rcases ha with rfl | ha
      · exact ⟨_, .single hstep, List.mem_cons_self⟩
      · have hcourse' := s.courses_act_self i b rest
        obtain ⟨t, ht, hat⟩ := ih (s.act i b rest) hlive (by rwa [hcourse']) hcourse'
        exact ⟨t, .head hstep ht, hat⟩

/-- **When there is a return.** Tasks that do not fault and together bring the counter to the limit
leave the supervisor a way to return. -/
theorem exists_returned {init : ι → Course α} (hfaults : ∀ i, ¬(init i).Faults)
    (hlimit : limit ≤ begin + ∑ i, (init i).actions.countP counts) :
    ∃ s, Reachable counts begin limit (start init) s ∧ s.phase = .returned := by
  -- The tasks are run to their ends first, so that nothing is left when the supervisor looks.
  suffices hend : ∀ n, ∀ s : State ι α, Reachable counts begin limit (start init) s →
      s.phase = .watching → (remaining s.courses).card = n →
      ∃ t, Reachable counts begin limit (start init) t ∧ t.phase = .watching ∧
        ∀ i, t.courses i = .ended by
    obtain ⟨t, ht, hphase, hended⟩ := hend _ (start init) .refl rfl rfl
    have hlog : (t.log : Multiset α) = remaining init := by
      rw [← (conserved_of_reachable ht).actions, left_eq_add, remaining]
      exact Finset.sum_eq_zero fun i _ => by rw [hended i]; rfl
    have hread : limit ≤ begin + t.log.countP counts := by rwa [countP_log hlog]
    exact ⟨_, (ht.tail (.watch hphase hread)).tail (.join rfl hended), rfl⟩
  intro n
  induction n with
  | zero =>
      intro s hreach hphase hcard
      refine ⟨s, hreach, hphase, fun i => ?_⟩
      have hfault := (conserved_of_reachable hreach).faults i
      cases hcourse : s.courses i with
      | ended => rfl
      | fault =>
          rw [hcourse] at hfault
          exact absurd (hfault.mp trivial) (hfaults i)
      | act a rest =>
          rw [← remaining_update hcourse, Multiset.card_cons] at hcard
          omega
  | succ n ih =>
      intro s hreach hphase hcard
      obtain ⟨a, ha⟩ := Multiset.card_pos_iff_exists_mem.mp (by omega : 0 < (remaining s.courses).card)
      obtain ⟨i, hi⟩ := mem_remaining.mp ha
      cases hcourse : s.courses i with
      | ended =>
          rw [hcourse] at hi
          cases hi
      | fault =>
          rw [hcourse] at hi
          cases hi
      | act b rest =>
          refine ih _ (hreach.tail (.act i b rest hcourse (by rw [hphase]; nofun))) hphase ?_
          rw [← remaining_update hcourse, Multiset.card_cons] at hcard
          exact Nat.succ.inj hcard

end ForkJoin
