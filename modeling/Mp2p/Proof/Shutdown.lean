import Mathlib.Data.List.Nodup
import Mp2p.Proof.Logging

/-!
# What is executed before the destructor returns

The message that stops the thread is one among those of the thread that destroys the logger, and it
overtakes what other threads sent before. Whatever is in a sub-queue when it is dequeued is never
executed.
-/

namespace Mp2p.Utils.Active

variable {P : Type} [DecidableEq P]

/-! ### What is lost -/

/-- No sub-queue holds a message whose call of `Send` had returned when `~Active` began. -/
def Drained (s : Active P) : Prop := ∀ q p n, .print p n ∈ s.mq q → s.before p ≤ n

def TakesStop (s s' : Active P) : Prop := s.runner = .dequeuing ∧ s'.runner = .calling .stop

def CleanStep (d : P) (s s' : Active P) : Prop := Step d s s' ∧ (TakesStop s s' → s.Drained)

/-- Every message whose call of `Send` had returned when `~Active` began has been executed once, and
those of one thread in the order of its calls. -/
structure LosesNothing (s : Active P) : Prop where
  once : ∀ p n, n < s.before p → s.called.count (.print p n) = 1
  inOrder : ∀ p, (numbersOf p s.called).Pairwise (· < ·)

def executed (s : Active P) (p : P) : ℕ := (numbersOf p s.called).length

omit [DecidableEq P] in
theorem eq_range_of_append {l l' : List ℕ} {n : ℕ} (h : l ++ l' = List.range n) :
    l = List.range l.length := by
  have hlength := congrArg List.length h
  rw [List.length_append, List.length_range] at hlength
  have htake := congrArg (List.take l.length) h
  rwa [List.take_left, List.take_range, Nat.min_eq_left (by omega)] at htake

omit [DecidableEq P] in
theorem mem_right_of_append_eq_range {l l' : List ℕ} {m n : ℕ} (h : l ++ l' = List.range n) :
    m ∈ l' ↔ l.length ≤ m ∧ m < n := by
  have hmem : m ∈ l ++ l' ↔ m < n := by rw [h, List.mem_range]
  have hleft : m ∈ l ↔ m < l.length := by
    rw [eq_range_of_append h, List.mem_range, List.length_range]
  have hnodup := List.nodup_append.mp (h ▸ List.nodup_range)
  rw [List.mem_append, hleft] at hmem
  constructor
  · intro hright
    refine ⟨?_, hmem.mp (.inr hright)⟩
    by_contra hlt
    exact hnodup.2.2 m (hleft.mpr (by omega)) m hright rfl
  · rintro ⟨hle, hlt⟩
    exact (hmem.mpr hlt).resolve_left (by omega)

section Lost

variable {d : P} {s s' : Active P}

theorem Delivers.numbersOf_called (hs : s.Delivers) (p : P) :
    numbersOf p s.called = List.range (s.executed p) := by
  have hnumbers := hs.numbers p
  rw [taken, List.append_assoc, numbersOf_append] at hnumbers
  exact eq_range_of_append hnumbers

/-- Of each thread the messages that are executed are the first ones. -/
theorem losesNothing_iff_executed (hs : s.Delivers) :
    s.LosesNothing ↔ ∀ p, s.before p ≤ s.executed p := by
  have hcount (p : P) (n : ℕ) : s.called.count (.print p n) = 1 ↔ n < s.executed p := by
    rw [← count_numbersOf, hs.numbersOf_called, List.nodup_range.count]
    split_ifs with hmem
    · exact iff_of_true rfl (List.mem_range.mp hmem)
    · exact iff_of_false nofun fun hlt => hmem (List.mem_range.mpr hlt)
  constructor
  · intro h p
    by_contra hlt
    have hexecuted := (hcount p (s.executed p)).mp (h.once p (s.executed p) (by omega))
    omega
  · intro h
    refine ⟨fun p n hn => (hcount p n).mpr (Nat.lt_of_lt_of_le hn (h p)), fun p => ?_⟩
    rw [hs.numbersOf_called]
    exact List.pairwise_lt_range

theorem drained_iff_executed (hs : Sound d s) (hdequeuing : s.runner = .dequeuing) :
    s.Drained ↔ ∀ p, s.before p ≤ s.executed p := by
  have hqueued (p : P) (n : ℕ) : .print p n ∈ s.mq p ↔ s.executed p ≤ n ∧ n < s.sent p := by
    have hnumbers := hs.delivers.numbers p
    rw [taken, hdequeuing, Runner.inCall, List.append_nil, numbersOf_append] at hnumbers
    rw [← mem_numbersOf, mem_right_of_append_eq_range hnumbers, executed]
  constructor
  · intro h p
    by_contra hlt
    have hle : s.before p ≤ s.sent p := by
      have hbefore := hs.counts.before p
      have hreturned := hs.counts.returned p
      omega
    have hfirst := h p p (s.executed p) ((hqueued p _).mpr ⟨Nat.le_refl _, by omega⟩)
    omega
  · intro h q p n hmem
    obtain rfl := hs.delivers.own q p n hmem
    exact Nat.le_trans (h p) ((hqueued p n).mp hmem).1

/-! ### After the message that stops the thread -/

def Stopped (s : Active P) : Prop := .stop ∈ s.taken

omit [DecidableEq P] in
theorem stopped_congr (htaken : s'.taken = s.taken) : s'.Stopped ↔ s.Stopped := by
  rw [Stopped, Stopped, htaken]

theorem Stops.not_dequeuing (hs : s.Stops d) (hstopped : s.Stopped) : s.runner ≠ .dequeuing := by
  intro hdequeuing
  rw [Stopped, taken, hdequeuing, Runner.inCall, List.append_nil] at hstopped
  exact hs.going hdequeuing (hs.done_iff.mpr hstopped)

theorem Stops.eq_stop_of_calling (hs : s.Stops d) (hstopped : s.Stopped) {m : Message P}
    (hcalling : s.runner = .calling m) : m = .stop := by
  rw [Stopped, taken, hcalling, Runner.inCall, List.mem_append, List.mem_singleton] at hstopped
  obtain hcalled | hm := hstopped
  · obtain hrunner | hrunner := hs.halting (hs.done_iff.mpr hcalled) <;>
      cases hcalling.symm.trans hrunner
  · exact hm.symm

theorem Stops.joining (hs : s.Stops d) (hstopped : s.Stopped) :
    ¬(s.shutdown = .alive ∨ s.shutdown = .stopping) := by
  intro hphase
  have hnone := hs.count
  rw [if_pos hphase, List.count_eq_zero] at hnone
  exact hnone (List.mem_append_left _ hstopped)

structure Frozen (s s' : Active P) : Prop where
  stopped : s'.Stopped
  before : s'.before = s.before
  executed : ∀ p, s'.executed p = s.executed p

theorem frozen_step (hs : s.Stops d) (hstopped : s.Stopped) (h : Step d s s') : Frozen s s' := by
  cases h with
  | send | enqueue | finish | enqueueStop | join => exact ⟨hstopped, rfl, fun _ => rfl⟩
  | destroy halive => exact absurd (.inl halive) (hs.joining hstopped)
  | test htesting =>
      have hbefore : s.runner.inCall = [] := by rw [htesting, Runner.inCall]
      exact ⟨(stopped_congr (taken_of_loop hbefore (inCall_test _))).mpr hstopped, rfl, fun _ => rfl⟩
  | dequeue p m mq hdequeuing => exact absurd hdequeuing (hs.not_dequeuing hstopped)
  | sleep hdequeuing => exact absurd hdequeuing (hs.not_dequeuing hstopped)
  | call m hcalling =>
      obtain rfl := hs.eq_stop_of_calling hstopped hcalling
      refine ⟨(stopped_congr (taken_execute hcalling)).mpr hstopped, rfl, fun p => ?_⟩
      rw [executed, called_execute, numbersOf_append, numbersOf_singleton rfl, List.append_nil,
        executed]

theorem frozen_of_reflTransGen (hs : Sound d s) (hstopped : s.Stopped)
    (h : Relation.ReflTransGen (Step d) s s') : Frozen s s' := by
  have hboth : Sound d s' ∧ Frozen s s' := by
    induction h with
    | refl => exact ⟨hs, hstopped, rfl, fun _ => rfl⟩
    | tail _ hstep ih =>
        obtain ⟨hsound, hfrozen⟩ := ih
        have hnext := frozen_step hsound.stops hfrozen.stopped hstep
        exact ⟨sound_step hsound hstep, hnext.stopped, hnext.before.trans hfrozen.before,
          fun p => (hnext.executed p).trans (hfrozen.executed p)⟩
  exact hboth.2

/-- The thread comes to a stop by dequeuing that message, and has executed nothing in that step. -/
theorem takesStop_of_step (hstopped : ¬s.Stopped) (h : Step d s s') (hstopped' : s'.Stopped) :
    TakesStop s s' ∧ s'.before = s.before ∧ s'.called = s.called := by
  cases h with
  | send | enqueue | finish | destroy | enqueueStop | join => exact absurd hstopped' hstopped
  | test htesting =>
      have hbefore : s.runner.inCall = [] := by rw [htesting, Runner.inCall]
      exact absurd ((stopped_congr (taken_of_loop hbefore (inCall_test _))).mp hstopped') hstopped
  | dequeue p m mq hdequeuing =>
      rw [Stopped, taken_dequeue hdequeuing, List.mem_append, List.mem_singleton] at hstopped'
      obtain rfl := hstopped'.resolve_left hstopped
      exact ⟨⟨hdequeuing, rfl⟩, rfl, rfl⟩
  | sleep hdequeuing =>
      have hbefore : s.runner.inCall = [] := by rw [hdequeuing, Runner.inCall]
      exact absurd ((stopped_congr (taken_of_loop hbefore rfl)).mp hstopped') hstopped
  | call m hcalling => exact absurd ((stopped_congr (taken_execute hcalling)).mp hstopped') hstopped

omit [DecidableEq P] in
theorem stopped_of_takesStop (h : TakesStop s s') : s'.Stopped := by
  rw [Stopped, taken, h.2, Runner.inCall]
  exact List.mem_append_right _ List.mem_cons_self

theorem Sound.stopped_of_joined (hs : Sound d s) (hjoined : s.shutdown = .joined) : s.Stopped :=
  List.mem_append_left _ (hs.stops.done_iff.mp (hs.stops.ended (hs.stops.joined hjoined)))

/-- The message that stops the thread is dequeued as the only one of its sub-queue. -/
theorem Sound.mq_of_takesStop (hs : Sound d s) (h : Step d s s') (htakes : TakesStop s s') :
    s.mq d = [.stop] := by
  cases h with
  | send | enqueue | finish | destroy | enqueueStop | join =>
      cases htakes.1.symm.trans htakes.2
  | test htesting => cases htesting.symm.trans htakes.1
  | sleep => cases htakes.2
  | call m hcalling => cases hcalling.symm.trans htakes.1
  | dequeue p m mq _ hpop =>
      obtain rfl : m = .stop := Runner.calling.inj htakes.2
      obtain rfl := hs.stops.own p (MultiQueue.mem_of_pop hpop)
      have hcons := MultiQueue.eq_cons_of_pop hpop
      obtain ⟨messages, hlast⟩ := hs.quiet.last (MultiQueue.mem_of_pop hpop)
      cases messages with
      | nil => exact hlast
      | cons first messages =>
          rw [hcons, List.cons_append, List.cons.injEq] at hlast
          have hcount := hs.stops.count
          rw [List.count_append, hcons, hlast.2, List.count_cons_self, List.count_append,
            List.count_singleton_self] at hcount
          split_ifs at hcount
          omega

/-! ### Whole runs -/

/-- A run whose stop is clean has executed all it must when the thread stops. -/
theorem executed_of_clean (h : Relation.ReflTransGen (CleanStep d) .start s) :
    Sound d s ∧ (s.Stopped → ∀ p, s.before p ≤ s.executed p) := by
  induction h with
  | refl => exact ⟨sound_start d, nofun⟩
  | tail _ hstep ih =>
      rename_i u v _
      obtain ⟨hsound, hall⟩ := ih
      refine ⟨sound_step hsound hstep.1, fun hstopped p => ?_⟩
      by_cases hbefore : u.Stopped
      · have hfrozen := frozen_step hsound.stops hbefore hstep.1
        rw [hfrozen.before, hfrozen.executed]
        exact hall hbefore p
      · obtain ⟨htakes, hsame, hcalled⟩ := takesStop_of_step hbefore hstep.1 hstopped
        rw [hsame, executed, hcalled]
        exact (drained_iff_executed hsound htakes.1).mp (hstep.2 htakes) p

/-- What was true of every stop on the way was true of the run. -/
theorem clean_of_drained (h : Relation.ReflTransGen (Step d) s s') (hs : Sound d s)
    (hdrained : ∀ u v, Sound d u → Step d u v → TakesStop u v →
      (∀ p, u.before p = s'.before p ∧ u.executed p = s'.executed p) → u.Drained) :
    Relation.ReflTransGen (CleanStep d) s s' := by
  induction h using Relation.ReflTransGen.head_induction_on with
  | refl => exact .refl
  | head hstep hrest ih =>
      rename_i u v
      have hsound := sound_step hs hstep
      refine .head ⟨hstep, fun htakes => ?_⟩ (ih hsound)
      have hstopped := stopped_of_takesStop htakes
      have hgoing : ¬u.Stopped := fun h => hs.stops.not_dequeuing h htakes.1
      obtain ⟨-, hsame, hcalled⟩ := takesStop_of_step hgoing hstep hstopped
      have hfrozen := frozen_of_reflTransGen hsound hstopped hrest
      apply hdrained u v hs hstep htakes
      intro p
      constructor
      · rw [hfrozen.before, hsame]
      · rw [hfrozen.executed, executed, executed, hcalled]

/-- A run after which nothing is lost had a clean stop. -/
theorem clean_of_executed (h : Relation.ReflTransGen (Step d) s s') (hs : Sound d s)
    (hall : ∀ p, s'.before p ≤ s'.executed p) : Relation.ReflTransGen (CleanStep d) s s' := by
  apply clean_of_drained h hs
  intro u v hsound _ htakes hsame
  rw [drained_iff_executed hsound htakes.1]
  intro p
  rw [(hsame p).1, (hsame p).2]
  exact hall p

end Lost

/-- **Shutdown.** When the destructor returns nothing is lost exactly when, in the run, the message
that stops the thread was dequeued with no earlier message left in any sub-queue. -/
theorem losesNothing_iff {d : P} {s : Active P} (hreach : Reachable d s)
    (hjoined : s.shutdown = .joined) :
    s.LosesNothing ↔ Relation.ReflTransGen (CleanStep d) .start s := by
  have hsound := sound_of_reachable hreach
  rw [losesNothing_iff_executed hsound.delivers]
  constructor
  · exact clean_of_executed hreach (sound_start d)
  · intro hclean
    exact (executed_of_clean hclean).2 (hsound.stopped_of_joined hjoined)

/-- **One thread.** A logger that only the thread that destroys it has used loses nothing. -/
theorem losesNothing_of_own {d : P} {s : Active P} (hreach : Reachable d s)
    (hjoined : s.shutdown = .joined) (hown : ∀ p, p ≠ d → s.before p = 0) : s.LosesNothing := by
  rw [losesNothing_iff hreach hjoined]
  apply clean_of_drained hreach (sound_start d)
  intro u v hsound hstep htakes hsame q p n hmem
  obtain rfl := hsound.delivers.own q p n hmem
  by_cases hp : p = d
  · rw [hp, hsound.mq_of_takesStop hstep htakes, List.mem_singleton] at hmem
    cases hmem
  · rw [(hsame p).1, hown p hp]
    exact Nat.zero_le n

/-- A thread that logs one message and then destroys the logger. -/
theorem exists_ownMessage : ∃ s : Active Bool, Reachable true s ∧ s.shutdown = .joined ∧
    s.before true = 1 ∧ s.called = [.print true 0, .stop] := by
  have hsent : Reachable true _ :=
    .tail (.tail (.tail .refl (.send true rfl fun _ => rfl)) (.enqueue true rfl)) (.finish true rfl)
  have hstopping := (hsent.tail (.destroy rfl rfl)).tail (.enqueueStop rfl)
  have hprinted := ((hstopping.tail (.test rfl)).tail (.dequeue true _ _ rfl rfl)).tail (.call _ rfl)
  have hstopped := ((hprinted.tail (.test rfl)).tail (.dequeue true _ _ rfl rfl)).tail (.call _ rfl)
  exact ⟨_, (hstopped.tail (.test rfl)).tail (.join rfl rfl), rfl, rfl, rfl⟩

/-- A thread logs one message, and another one destroys the logger. -/
theorem exists_lost : ∃ s : Active Bool, Reachable true s ∧ s.shutdown = .joined ∧
    s.before false = 1 ∧ s.called = [.stop] := by
  have hsent : Reachable true _ :=
    .tail (.tail (.tail .refl (.send false rfl nofun)) (.enqueue false rfl)) (.finish false rfl)
  have hstopping := (hsent.tail (.destroy rfl rfl)).tail (.enqueueStop rfl)
  have hstopped := ((hstopping.tail (.test rfl)).tail (.dequeue true _ _ rfl rfl)).tail (.call _ rfl)
  exact ⟨_, (hstopped.tail (.test rfl)).tail (.join rfl rfl), rfl, rfl, rfl⟩

theorem losesNothing_iff_ownMessage : ∃ s : Active Bool, s.before true = 1 ∧
    (s.LosesNothing ↔ Relation.ReflTransGen (CleanStep true) .start s) := by
  obtain ⟨s, hreach, hjoined, hbefore, -⟩ := exists_ownMessage
  exact ⟨s, hbefore, losesNothing_iff hreach hjoined⟩

/-- The message that stops the thread overtakes the one that was sent before. -/
theorem not_losesNothing : ¬∀ s : Active Bool, Reachable true s → s.shutdown = .joined →
    s.LosesNothing := by
  intro h
  obtain ⟨s, hreach, hjoined, hbefore, hcalled⟩ := exists_lost
  have honce := (h s hreach hjoined).once false 0 (by omega)
  rw [hcalled] at honce
  exact absurd honce (by decide)

end Mp2p.Utils.Active
