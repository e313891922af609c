import Mathlib.Data.List.Basic
import Mp2p.Utils.Logger

/-!
# Where the messages of a logger are

At every moment the messages of a thread are, in the order of its calls, those that were executed,
the one in the call and those in its sub-queue. The message that stops the thread is in one place, the
last of its sub-queue, and after it nothing is executed.
-/

namespace Mp2p.Utils

/-- The message that has been dequeued and is not yet executed. -/
def Runner.inCall {P : Type} : Runner P → List (Message P)
  | testing => []
  | dequeuing => []
  | calling message => [message]
  | ended => []

/-- The calls of a thread that have enqueued their message and are not back. -/
def Sender.unreturned : Sender → ℕ
  | idle => 0
  | sending => 0
  | returning => 1

namespace Active

variable {P : Type}

def taken (s : Active P) : List (Message P) := s.called ++ s.runner.inCall

variable [DecidableEq P]

def numberOf (p : P) : Message P → Option ℕ
  | .print q n => if q = p then some n else none
  | .stop => none

def numbersOf (p : P) (messages : List (Message P)) : List ℕ := messages.filterMap (numberOf p)

/-- Every message of a thread has been dequeued or is in its sub-queue, in the order of its calls. -/
structure Delivers (s : Active P) : Prop where
  own : ∀ p q n, .print q n ∈ s.mq p → q = p
  numbers : ∀ p, numbersOf p (s.taken ++ s.mq p) = List.range (s.sent p)

/-- The message that stops the thread is sent once, to the sub-queue of `d`, and nothing is executed
after it. -/
structure Stops (d : P) (s : Active P) : Prop where
  own : ∀ p, .stop ∈ s.mq p → p = d
  count : (s.taken ++ s.mq d).count .stop =
    if s.shutdown = .alive ∨ s.shutdown = .stopping then 0 else 1
  done_iff : s.done = true ↔ .stop ∈ s.called
  halting : s.done = true → s.runner = .testing ∨ s.runner = .ended
  ended : s.runner = .ended → s.done = true
  joined : s.shutdown = .joined → s.runner = .ended

/-- The thread that destroys the logger sends nothing after the message that stops it. -/
structure Quiet (d : P) (s : Active P) : Prop where
  idle : s.shutdown ≠ .alive → s.senders d = .idle
  last : .stop ∈ s.mq d → ∃ messages, s.mq d = messages ++ [.stop]

structure Counts (s : Active P) : Prop where
  returned : ∀ p, s.returned p + (s.senders p).unreturned = s.sent p
  before : ∀ p, s.before p ≤ s.returned p

/-! ### The messages of one thread -/

theorem numberOf_self (p : P) (n : ℕ) : numberOf p (.print p n) = some n := if_pos rfl

theorem numberOf_of_ne {p q : P} (h : q ≠ p) (n : ℕ) : numberOf p (.print q n) = none := if_neg h

@[simp]
theorem numbersOf_append (p : P) (messages messages' : List (Message P)) :
    numbersOf p (messages ++ messages') = numbersOf p messages ++ numbersOf p messages' :=
  List.filterMap_append ..

theorem numbersOf_singleton {p : P} {m : Message P} (h : numberOf p m = none) :
    numbersOf p [m] = [] :=
  List.filterMap_cons_none h

theorem numberOf_eq_some_iff {p : P} {n : ℕ} {m : Message P} :
    numberOf p m = some n ↔ m = .print p n := by
  cases m with
  | print q k => rw [numberOf, Option.ite_none_right_eq_some, Option.some_inj, Message.print.injEq]
  | stop => exact iff_of_false nofun nofun

theorem mem_numbersOf {p : P} {n : ℕ} {messages : List (Message P)} :
    n ∈ numbersOf p messages ↔ .print p n ∈ messages := by
  rw [numbersOf, List.mem_filterMap]
  constructor
  · rintro ⟨message, hmem, hnumber⟩
    rwa [← numberOf_eq_some_iff.mp hnumber]
  · intro hmem
    exact ⟨_, hmem, numberOf_self p n⟩

theorem count_numbersOf (p : P) (n : ℕ) (messages : List (Message P)) :
    (numbersOf p messages).count n = messages.count (.print p n) := by
  rw [numbersOf, List.count_filterMap, List.count_eq_countP]
  apply List.countP_congr
  intro m _
  rw [beq_iff_eq, beq_iff_eq, numberOf_eq_some_iff]

/-! ### What a step takes and leaves -/

section Steps

variable {d : P} {s s' : Active P}

omit [DecidableEq P] in
theorem taken_execute {m : Message P} (hcalling : s.runner = .calling m) :
    (s.execute m).taken = s.taken := by
  rw [taken, taken, called_execute, runner_execute, hcalling, Runner.inCall, Runner.inCall,
    List.append_nil]

omit [DecidableEq P] in
/-- Between two calls only the place in the loop changes. -/
theorem taken_of_loop {runner : Runner P} (hbefore : s.runner.inCall = [])
    (hafter : runner.inCall = []) : ({ s with runner := runner } : Active P).taken = s.taken := by
  rw [taken, taken, hbefore, hafter]

omit [DecidableEq P] in
theorem inCall_test (done : Bool) :
    (if done then Runner.ended else .dequeuing : Runner P).inCall = [] := by
  cases done <;> rfl

theorem delivers_congr (hs : s.Delivers) (htaken : s'.taken = s.taken) (hmq : s'.mq = s.mq)
    (hsent : s'.sent = s.sent) : s'.Delivers := by
  refine ⟨fun p q n => ?_, fun p => ?_⟩
  · rw [hmq]
    exact hs.own p q n
  · rw [htaken, hmq, hsent]
    exact hs.numbers p

theorem delivers_enqueue (hs : s.Delivers) (p : P) (senders : P → Sender) :
    Delivers { s with
      mq := s.mq.push p (.print p (s.sent p))
      sent := Function.update s.sent p (s.sent p + 1)
      senders := senders } := by
  refine ⟨fun p' q n hmem => ?_, fun q => ?_⟩
  · obtain hmem | ⟨rfl, hmem⟩ := MultiQueue.mem_push.mp hmem
    · exact hs.own p' q n hmem
    · cases hmem
      rfl
  · change numbersOf q (s.taken ++ s.mq.push p (.print p (s.sent p)) q) =
      List.range (Function.update s.sent p (s.sent p + 1) q)
    by_cases hq : q = p
    · subst hq
      rw [MultiQueue.push_self, Function.update_self, List.range_succ, ← hs.numbers,
        ← List.append_assoc, numbersOf_append]
      congr 1
      exact List.filterMap_cons_some (numberOf_self q _)
    · rw [MultiQueue.push_of_ne hq, Function.update_of_ne hq]
      exact hs.numbers q

theorem delivers_enqueueStop (hs : s.Delivers) (shutdown : Shutdown) :
    Delivers { s with shutdown := shutdown, mq := s.mq.push d .stop } := by
  refine ⟨fun p q n hmem => ?_, fun p => ?_⟩
  · obtain hmem | ⟨-, hmem⟩ := MultiQueue.mem_push.mp hmem
    · exact hs.own p q n hmem
    · cases hmem
  · change numbersOf p (s.taken ++ s.mq.push d .stop p) = _
    by_cases hp : p = d
    · rw [hp, MultiQueue.push_self, ← List.append_assoc, numbersOf_append,
        numbersOf_singleton rfl, List.append_nil]
      exact hs.numbers d
    · rw [MultiQueue.push_of_ne hp]
      exact hs.numbers p

/-- What is dequeued of one thread is no message of another. -/
theorem numberOf_of_pop (hs : s.Delivers) {p q : P} {m : Message P}
    {mq : MultiQueue P (Message P)} (hpop : s.mq.pop p = some (m, mq)) (hq : q ≠ p) :
    numberOf q m = none := by
  cases m with
  | print p' n =>
      obtain rfl := hs.own p p' n (MultiQueue.mem_of_pop hpop)
      exact numberOf_of_ne (Ne.symm hq) n
  | stop => rfl

omit [DecidableEq P] in
theorem taken_dequeue (hdequeuing : s.runner = .dequeuing) (m : Message P)
    (mq : MultiQueue P (Message P)) :
    ({ s with mq := mq, runner := .calling m } : Active P).taken = s.taken ++ [m] := by
  rw [taken, taken, hdequeuing, Runner.inCall, Runner.inCall, List.append_nil]

theorem delivers_dequeue (hs : s.Delivers) (hdequeuing : s.runner = .dequeuing) {p : P}
    {m : Message P} {mq : MultiQueue P (Message P)} (hpop : s.mq.pop p = some (m, mq)) :
    Delivers { s with mq := mq, runner := .calling m } := by
  refine ⟨fun p' q n hmem => hs.own p' q n (MultiQueue.mem_of_mem_of_pop hpop hmem), fun q => ?_⟩
  rw [taken_dequeue hdequeuing, ← hs.numbers q, List.append_assoc]
  change numbersOf q (s.taken ++ ([m] ++ mq q)) = _
  by_cases hq : q = p
  · rw [hq, MultiQueue.eq_cons_of_pop hpop]
    rfl
  · rw [MultiQueue.eq_of_pop_of_ne hpop hq, numbersOf_append, numbersOf_append,
      numbersOf_singleton (numberOf_of_pop hs hpop hq), List.nil_append, numbersOf_append]

theorem delivers_step (hs : s.Delivers) (h : Step d s s') : s'.Delivers := by
  cases h with
  | send | finish | destroy | join => exact ⟨hs.own, hs.numbers⟩
  | enqueue p => exact delivers_enqueue hs p _
  | enqueueStop => exact delivers_enqueueStop hs _
  | test htesting =>
      have hbefore : s.runner.inCall = [] := by rw [htesting, Runner.inCall]
      exact delivers_congr hs (taken_of_loop hbefore (inCall_test _)) rfl rfl
  | dequeue p m mq hdequeuing hpop => exact delivers_dequeue hs hdequeuing hpop
  | sleep hdequeuing =>
      have hbefore : s.runner.inCall = [] := by rw [hdequeuing, Runner.inCall]
      exact delivers_congr hs (taken_of_loop hbefore rfl) rfl rfl
  | call m hcalling =>
      exact delivers_congr hs (taken_execute hcalling) (mq_execute s m) (sent_execute s m)

/-! ### The message that stops the thread -/

theorem Stops.not_joined (hs : s.Stops d) (hrunner : s.runner ≠ .ended) : s.shutdown ≠ .joined :=
  fun hjoined => hrunner (hs.joined hjoined)

theorem Stops.going (hs : s.Stops d) (hdequeuing : s.runner = .dequeuing) : s.done ≠ true := by
  intro hdone
  obtain hrunner | hrunner := hs.halting hdone <;> cases hdequeuing.symm.trans hrunner

theorem stops_enqueue (hs : s.Stops d) (p : P) (n : ℕ) (sent : P → ℕ) (senders : P → Sender) :
    Stops d { s with mq := s.mq.push p (.print p n), sent := sent, senders := senders } := by
  refine ⟨fun q hmem => ?_, ?_, hs.done_iff, hs.halting, hs.ended, hs.joined⟩
  · obtain hmem | ⟨-, hmem⟩ := MultiQueue.mem_push.mp hmem
    · exact hs.own q hmem
    · cases hmem
  · rw [← hs.count]
    change (s.taken ++ s.mq.push p (.print p n) d).count .stop = _
    by_cases hp : d = p
    · rw [hp, MultiQueue.push_self, ← List.append_assoc, List.count_append,
        List.count_singleton]
      rfl
    · rw [MultiQueue.push_of_ne hp]

theorem stops_enqueueStop (hs : s.Stops d) (hstopping : s.shutdown = .stopping) :
    Stops d { s with shutdown := .joining, mq := s.mq.push d .stop } := by
  refine ⟨fun q hmem => ?_, ?_, hs.done_iff, hs.halting, hs.ended, nofun⟩
  · obtain hmem | ⟨hq, -⟩ := MultiQueue.mem_push.mp hmem
    · exact hs.own q hmem
    · exact hq
  · have hnone : (s.taken ++ s.mq d).count .stop = 0 := by rw [hs.count, if_pos (.inr hstopping)]
    change (s.taken ++ s.mq.push d .stop d).count .stop = 1
    rw [MultiQueue.push_self, ← List.append_assoc, List.count_append, hnone, List.count_singleton_self]

theorem stops_dequeue (hs : s.Stops d) (hdequeuing : s.runner = .dequeuing) {p : P} {m : Message P}
    {mq : MultiQueue P (Message P)} (hpop : s.mq.pop p = some (m, mq)) :
    Stops d { s with mq := mq, runner := .calling m } := by
  have hgoing := hs.going hdequeuing
  refine ⟨fun q hmem => hs.own q (MultiQueue.mem_of_mem_of_pop hpop hmem), ?_, hs.done_iff,
    fun hdone => absurd hdone hgoing, nofun,
    fun hjoined => absurd hjoined (hs.not_joined (by rw [hdequeuing]; exact nofun))⟩
  rw [taken_dequeue hdequeuing, ← hs.count, List.append_assoc]
  change (s.taken ++ ([m] ++ mq d)).count .stop = _
  by_cases hp : d = p
  · rw [hp, MultiQueue.eq_cons_of_pop hpop]
    rfl
  · have hother : m ≠ .stop := by
      rintro rfl
      exact hp (hs.own p (MultiQueue.mem_of_pop hpop)).symm
    rw [MultiQueue.eq_of_pop_of_ne hpop hp, List.count_append, List.count_append, List.count_append,
      List.count_singleton, if_neg (by simpa using hother), Nat.zero_add]

theorem stops_call (hs : s.Stops d) {m : Message P} (hcalling : s.runner = .calling m) :
    (s.execute m).Stops d := by
  refine ⟨?_, ?_, ?_, fun _ => .inl (runner_execute s m), fun hended => ?_, fun hjoined => ?_⟩
  · rw [mq_execute]
    exact hs.own
  · rw [taken_execute hcalling, mq_execute, shutdown_execute]
    exact hs.count
  · rw [done_execute, called_execute, List.mem_append, List.mem_singleton, hs.done_iff, eq_comm]
  · cases (runner_execute s m).symm.trans hended
  · rw [shutdown_execute] at hjoined
    cases hcalling.symm.trans (hs.joined hjoined)

theorem stops_step (hs : s.Stops d) (h : Step d s s') : s'.Stops d := by
  cases h with
  | send | finish => exact ⟨hs.own, hs.count, hs.done_iff, hs.halting, hs.ended, hs.joined⟩
  | enqueue p => exact stops_enqueue hs p _ _ _
  | destroy halive =>
      refine ⟨hs.own, ?_, hs.done_iff, hs.halting, hs.ended, nofun⟩
      exact hs.count.trans (if_pos (.inl halive))
  | enqueueStop hstopping => exact stops_enqueueStop hs hstopping
  | test htesting =>
      have hbefore : s.runner.inCall = [] := by rw [htesting, Runner.inCall]
      refine ⟨hs.own, ?_, hs.done_iff, fun hdone => .inr ?_, fun hended => ?_, fun hjoined => ?_⟩
      · rw [taken_of_loop hbefore (inCall_test _)]
        exact hs.count
      · exact if_pos hdone
      · by_contra hgoing
        cases (if_neg hgoing).symm.trans hended
      · cases htesting.symm.trans (hs.joined hjoined)
  | dequeue p m mq hdequeuing hpop => exact stops_dequeue hs hdequeuing hpop
  | sleep hdequeuing =>
      have hbefore : s.runner.inCall = [] := by rw [hdequeuing, Runner.inCall]
      refine ⟨hs.own, ?_, hs.done_iff, fun _ => .inl rfl, nofun, fun hjoined => ?_⟩
      · rw [taken_of_loop hbefore rfl]
        exact hs.count
      · cases hdequeuing.symm.trans (hs.joined hjoined)
  | call m hcalling => exact stops_call hs hcalling
  | join hjoining hended =>
      refine ⟨hs.own, ?_, hs.done_iff, hs.halting, hs.ended, fun _ => hended⟩
      have hcount := hs.count
      rw [hjoining] at hcount
      exact hcount

/-! ### The thread that destroys the logger -/

theorem Stops.not_alive (hs : s.Stops d) (hmem : .stop ∈ s.mq d) : s.shutdown ≠ .alive := by
  intro halive
  have hnone := hs.count
  rw [if_pos (.inl halive), List.count_eq_zero] at hnone
  exact hnone (List.mem_append_right _ hmem)

theorem quiet_enqueue (hs : s.Quiet d) (hstops : s.Stops d) {p : P}
    (hsending : s.senders p = .sending) (n : ℕ) (sent : P → ℕ) :
    Quiet d { s with
      mq := s.mq.push p (.print p n)
      sent := sent
      senders := Function.update s.senders p .returning } := by
  have hother (hlate : s.shutdown ≠ .alive) : d ≠ p := by
    rintro rfl
    cases hsending.symm.trans (hs.idle hlate)
  constructor
  · intro hlate
    exact (Function.update_of_ne (hother hlate) ..).trans (hs.idle hlate)
  · intro hmem
    obtain hmem | ⟨-, hmem⟩ := MultiQueue.mem_push.mp hmem
    · obtain ⟨messages, hlast⟩ := hs.last hmem
      refine ⟨messages, ?_⟩
      rw [← hlast]
      exact MultiQueue.push_of_ne (hother (hstops.not_alive hmem))
    · cases hmem

theorem quiet_dequeue (hs : s.Quiet d) {p : P} {m : Message P} {mq : MultiQueue P (Message P)}
    (hpop : s.mq.pop p = some (m, mq)) : Quiet d { s with mq := mq, runner := .calling m } := by
  refine ⟨hs.idle, fun (hmem : .stop ∈ mq d) => ?_⟩
  change ∃ messages, mq d = messages ++ [.stop]
  obtain ⟨messages, hlast⟩ := hs.last (MultiQueue.mem_of_mem_of_pop hpop hmem)
  by_cases hp : d = p
  · subst hp
    rw [MultiQueue.eq_cons_of_pop hpop] at hlast
    cases messages with
    | nil =>
        rw [List.nil_append, List.cons.injEq] at hlast
        rw [hlast.2] at hmem
        cases hmem
    | cons first messages =>
        rw [List.cons_append, List.cons.injEq] at hlast
        exact ⟨messages, hlast.2⟩
  · exact ⟨messages, (MultiQueue.eq_of_pop_of_ne hpop hp).trans hlast⟩

theorem quiet_step (hs : s.Quiet d) (hstops : s.Stops d) (h : Step d s s') : s'.Quiet d := by
  cases h with
  | test | sleep => exact ⟨hs.idle, hs.last⟩
  | join hjoining => exact ⟨fun _ => hs.idle (by rw [hjoining]; exact nofun), hs.last⟩
  | destroy _ hidle => exact ⟨fun _ => hidle, hs.last⟩
  | enqueueStop hstopping =>
      refine ⟨fun _ => hs.idle (by rw [hstopping]; exact nofun), fun _ => ⟨s.mq d, ?_⟩⟩
      exact MultiQueue.push_self ..
  | call m => cases m <;> exact ⟨hs.idle, hs.last⟩
  | send p hidle hlive =>
      refine ⟨fun hlate => ?_, hs.last⟩
      have hother : d ≠ p := fun hp => hlate (hlive hp.symm)
      exact (Function.update_of_ne hother ..).trans (hs.idle hlate)
  | enqueue p hsending => exact quiet_enqueue hs hstops hsending _ _
  | finish p =>
      refine ⟨fun hlate => ?_, hs.last⟩
      by_cases hp : d = p
      · rw [hp]
        exact Function.update_self ..
      · exact (Function.update_of_ne hp ..).trans (hs.idle hlate)
  | dequeue p m mq _ hpop => exact quiet_dequeue hs hpop

/-! ### The calls that have returned -/

theorem counts_send (hs : s.Counts) {p : P} (hidle : s.senders p = .idle) :
    Counts { s with senders := Function.update s.senders p .sending } := by
  refine ⟨fun q => ?_, hs.before⟩
  have hcount := hs.returned q
  dsimp only
  by_cases hq : q = p
  · rw [hq, hidle] at hcount
    rw [hq, Function.update_self]
    exact hcount
  · rwa [Function.update_of_ne hq]

theorem counts_enqueue (hs : s.Counts) {p : P} (hsending : s.senders p = .sending)
    (mq : MultiQueue P (Message P)) :
    Counts { s with
      mq := mq
      sent := Function.update s.sent p (s.sent p + 1)
      senders := Function.update s.senders p .returning } := by
  refine ⟨fun q => ?_, hs.before⟩
  have hcount := hs.returned q
  dsimp only
  by_cases hq : q = p
  · rw [hq, hsending] at hcount
    rw [hq, Function.update_self, Function.update_self]
    exact congrArg (· + 1) hcount
  · rwa [Function.update_of_ne hq, Function.update_of_ne hq]

theorem counts_finish (hs : s.Counts) {p : P} (hreturning : s.senders p = .returning) :
    Counts { s with
      returned := Function.update s.returned p (s.returned p + 1)
      senders := Function.update s.senders p .idle } := by
  refine ⟨fun q => ?_, fun q => ?_⟩
  · have hcount := hs.returned q
    dsimp only
    by_cases hq : q = p
    · rw [hq, hreturning] at hcount
      rw [hq, Function.update_self, Function.update_self]
      exact hcount
    · rwa [Function.update_of_ne hq, Function.update_of_ne hq]
  · have hle := hs.before q
    dsimp only
    by_cases hq : q = p
    · rw [hq] at hle ⊢
      rw [Function.update_self]
      exact Nat.le_succ_of_le hle
    · rwa [Function.update_of_ne hq]

theorem counts_step (hs : s.Counts) (h : Step d s s') : s'.Counts := by
  cases h with
  | enqueueStop | test | dequeue | sleep | join => exact ⟨hs.returned, hs.before⟩
  | destroy => exact ⟨hs.returned, fun _ => Nat.le_refl _⟩
  | call m => cases m <;> exact ⟨hs.returned, hs.before⟩
  | send p hidle => exact counts_send hs hidle
  | enqueue p hsending => exact counts_enqueue hs hsending _
  | finish p hreturning => exact counts_finish hs hreturning

end Steps

structure Sound (d : P) (s : Active P) : Prop where
  delivers : s.Delivers
  stops : s.Stops d
  quiet : s.Quiet d
  counts : s.Counts

theorem sound_start (d : P) : Sound d .start where
  delivers := ⟨nofun, fun _ => rfl⟩
  stops := ⟨nofun, rfl, ⟨nofun, nofun⟩, nofun, nofun, nofun⟩
  quiet := ⟨fun _ => rfl, nofun⟩
  counts := ⟨fun _ => rfl, fun _ => Nat.le_refl _⟩

theorem sound_step {d : P} {s s' : Active P} (hs : Sound d s) (h : Step d s s') : Sound d s' :=
  ⟨delivers_step hs.delivers h, stops_step hs.stops h, quiet_step hs.quiet hs.stops h,
    counts_step hs.counts h⟩

theorem sound_of_reachable {d : P} {s : Active P} (h : Reachable d s) : Sound d s := by
  induction h with
  | refl => exact sound_start d
  | tail _ hstep ih => exact sound_step ih hstep

end Active

end Mp2p.Utils
