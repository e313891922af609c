import Mp2p.Lib.Program

/-!
# One operation that fails

A run in which the operation at some position does not do what it is asked but fails, and everything
else goes on as ever. What it does to the answer and the store when it fails is up to the operation,
an exception included. A postcondition is shown of the run in which nothing fails and, for each
operation in turn, of the run in which that one does.
-/

namespace Program

variable {Op : Type} {Ans : Op → Type} {ε α β σ : Type}

section Fail

variable (exec : (o : Op) → σ → Ans o × σ) (fail : (o : Op) → σ → Except ε (Ans o) × σ)

def ops : Program Op Ans ε α → σ → List Op
  | .pure _, _ => []
  | .throw _, _ => []
  | .op o next, s => o :: (next (exec o s).1).ops (exec o s).2

/-- The run in which the operation at this position fails. -/
def failAt : Program Op Ans ε α → ℕ → σ → Except ε α × σ
  | .pure a, _, s => (.ok a, s)
  | .throw e, _, s => (.error e, s)
  | .op o next, 0, s => match fail o s with
      | (.ok a, s') => (next a).run exec s'
      | (.error e, s') => (.error e, s')
  | .op o next, n + 1, s => (next (exec o s).1).failAt n (exec o s).2

/-- The postcondition holds when nothing fails, and when one of the operations that may fail does,
exactly if that one is benign. -/
structure Tolerates (fallible benign : Op → Prop) (Q : σ → Prop) (p : Program Op Ans ε α) (s : σ) :
    Prop where
  run : Q (p.run exec s).2
  fails : ∀ n o, (p.ops exec s)[n]? = some o → fallible o →
    (Q (p.failAt exec fail n s).2 ↔ benign o)

variable {exec fail} {fallible benign : Op → Prop} {Q : σ → Prop} {p : Program Op Ans ε α}
  {f : α → Program Op Ans ε β} {s : σ}

theorem tolerates_pure {a : α} (h : Q s) :
    Tolerates exec fail fallible benign Q (.pure a : Program Op Ans ε α) s where
  run := h
  fails _ _ ho := nomatch ho

theorem tolerates_throw {e : ε} (h : Q s) :
    Tolerates exec fail fallible benign Q (.throw e : Program Op Ans ε α) s where
  run := h
  fails _ _ ho := nomatch ho

/-- The run with a failure at the first operation, and all others behind it. -/
theorem tolerates_op {o : Op} {next : Ans o → Program Op Ans ε α}
    (hfirst : fallible o → (Q ((Program.op o next).failAt exec fail 0 s).2 ↔ benign o))
    (hnext : Tolerates exec fail fallible benign Q (next (exec o s).1) (exec o s).2) :
    Tolerates exec fail fallible benign Q (.op o next) s where
  run := hnext.run
  fails n o' ho hfallible := by
    cases n with
    | zero =>
        cases ho
        exact hfirst hfallible
    | succ n => exact hnext.fails n o' ho hfallible

/-- Benign operations that preserve an invariant, whether they fail or not, may come first. -/
theorem tolerates_bind {P : Op → Prop} {I : σ → Prop} (hbenign : ∀ o, P o → benign o)
    (hexec : ∀ o, P o → ∀ s, I s → I (exec o s).2) (hfail : ∀ o, P o → ∀ s, I s → I (fail o s).2)
    (hQ : ∀ s, I s → Q s) (hp : p.All P)
    (hf : ∀ a s, I s → Tolerates exec fail fallible benign Q (f a) s) (hs : I s) :
    Tolerates exec fail fallible benign Q (p >>= f) s := by
  induction p generalizing s with
  | pure a => exact hf a s hs
  | throw e => exact tolerates_throw (hQ s hs)
  | op o next ih =>
      apply tolerates_op _ (ih _ (hp.2 _) (hexec o hp.1 s hs))
      intro _
      refine iff_of_true ?_ (hbenign o hp.1)
      have hafter := hfail o hp.1 s hs
      rw [failAt]
      cases hfails : fail o s with
      | mk result s' =>
          rw [hfails] at hafter
          cases result with
          | error e => exact hQ s' hafter
          | ok a => exact (ih a (hp.2 a) hafter).run

theorem tolerates_of_all {P : Op → Prop} {I : σ → Prop} (hbenign : ∀ o, P o → benign o)
    (hexec : ∀ o, P o → ∀ s, I s → I (exec o s).2) (hfail : ∀ o, P o → ∀ s, I s → I (fail o s).2)
    (hQ : ∀ s, I s → Q s) (hp : p.All P) (hs : I s) :
    Tolerates exec fail fallible benign Q p s := by
  have h : Tolerates exec fail fallible benign Q (p >>= Pure.pure) s :=
    tolerates_bind hbenign hexec hfail hQ hp (fun _ s hs => tolerates_pure (hQ s hs)) hs
  rwa [bind_pure] at h

end Fail

end Program
