import Mathlib.Logic.Relation
import Mp2p.Lib.MultiQueue

/-!
# The logger thread

`Active` runs what it is sent on a thread of its own. `Send` only enqueues, the thread takes one
message after the other until the flag `done_` is set, and the destructor sends the message that sets
it and waits for the thread to end. The queue has a sub-queue for each thread that sends, and
`try_dequeue` takes the head of any of them.
-/

namespace Mp2p.Utils

/-- What is sent: the call of `Send` number `number` of a thread, or the lambda that sets `done_`. -/
inductive Message (P : Type) where
  | print (producer : P) (number : ℕ)
  | stop
  deriving DecidableEq, Repr

inductive Sender where
  | idle
  | sending
  | returning
  deriving DecidableEq, Repr

inductive Runner (P : Type) where
  | testing
  | dequeuing
  | calling (message : Message P)
  | ended
  deriving DecidableEq, Repr

inductive Shutdown where
  | alive
  | stopping
  | joining
  | joined
  deriving DecidableEq, Repr

structure Active (P : Type) where
  done : Bool
  mq : MultiQueue P (Message P)
  senders : P → Sender
  runner : Runner P
  shutdown : Shutdown
  /-- How many messages of each thread have been enqueued. -/
  sent : P → ℕ
  /-- How many calls of `Send` of each thread have returned. -/
  returned : P → ℕ
  /-- How many of them had when `~Active` began. -/
  before : P → ℕ
  /-- What has been executed, the first one first. -/
  called : List (Message P)

namespace Active

variable {P : Type}

def start : Active P where
  done := false
  mq := .empty
  senders _ := .idle
  runner := .testing
  shutdown := .alive
  sent _ := 0
  returned _ := 0
  before _ := 0
  called := []

def execute (s : Active P) : Message P → Active P
  | .print p n => { s with called := s.called ++ [.print p n], runner := .testing }
  | .stop => { s with called := s.called ++ [.stop], runner := .testing, done := true }

section Execute

variable (s : Active P) (m : Message P)

theorem called_execute : (s.execute m).called = s.called ++ [m] := by
  cases m <;> rfl

theorem mq_execute : (s.execute m).mq = s.mq := by
  cases m <;> rfl

theorem sent_execute : (s.execute m).sent = s.sent := by
  cases m <;> rfl

theorem runner_execute : (s.execute m).runner = .testing := by
  cases m <;> rfl

theorem shutdown_execute : (s.execute m).shutdown = s.shutdown := by
  cases m <;> rfl

theorem done_execute : (s.execute m).done = true ↔ s.done = true ∨ m = .stop := by
  cases m with
  | print p n => exact (or_iff_left nofun).symm
  | stop => exact iff_of_true rfl (.inr rfl)

end Execute

variable [DecidableEq P]

/-- One step of one thread. `~Active` runs on the thread `d`, which sends nothing else from then on;
`try_dequeue` may also come back with nothing, and the thread sleeps. -/
inductive Step (d : P) (s : Active P) : Active P → Prop where
  | send (p : P) (hidle : s.senders p = .idle) (hlive : p = d → s.shutdown = .alive) :
      Step d s { s with senders := Function.update s.senders p .sending }
  | enqueue (p : P) (hsending : s.senders p = .sending) : Step d s { s with
      mq := s.mq.push p (.print p (s.sent p))
      sent := Function.update s.sent p (s.sent p + 1)
      senders := Function.update s.senders p .returning }
  | finish (p : P) (hreturning : s.senders p = .returning) : Step d s { s with
      returned := Function.update s.returned p (s.returned p + 1)
      senders := Function.update s.senders p .idle }
  | destroy (halive : s.shutdown = .alive) (hidle : s.senders d = .idle) :
      Step d s { s with shutdown := .stopping, before := s.returned }
  | enqueueStop (hstopping : s.shutdown = .stopping) :
      Step d s { s with shutdown := .joining, mq := s.mq.push d .stop }
  | test (htesting : s.runner = .testing) :
      Step d s { s with runner := if s.done then .ended else .dequeuing }
  | dequeue (p : P) (m : Message P) (mq : MultiQueue P (Message P))
      (hdequeuing : s.runner = .dequeuing) (hpop : s.mq.pop p = some (m, mq)) :
      Step d s { s with mq := mq, runner := .calling m }
  | sleep (hdequeuing : s.runner = .dequeuing) : Step d s { s with runner := .testing }
  | call (m : Message P) (hcalling : s.runner = .calling m) : Step d s (s.execute m)
  | join (hjoining : s.shutdown = .joining) (hended : s.runner = .ended) :
      Step d s { s with shutdown := .joined }

def Reachable (d : P) : Active P → Prop := Relation.ReflTransGen (Step d) .start

end Active

end Mp2p.Utils
