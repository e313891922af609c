import Mathlib.Order.Lattice
import Mathlib.Order.MinMax
import Mathlib.Tactic.Common

/-!
# Runs that need fuel

A computation with a loop is given fuel and stops with an error of its own when that runs out. Such a
computation either ends the same way with every sufficient amount of fuel, or is stuck with every
amount. Both are kept by sequencing, so what a run comes to is settled without counting its rounds.
-/

namespace Fuel

variable {ε α β σ : Type} {stuck : ε}

/-- With enough fuel the run comes to this result, and with less it is stuck. -/
structure Ends (stuck : ε) (run : ℕ → Except ε α × σ) (result : Except ε α × σ) : Prop where
  or_stuck : ∀ fuel, (run fuel).1 = .error stuck ∨ run fuel = result
  eventually : ∃ rounds, ∀ fuel, rounds < fuel → run fuel = result

def Never (stuck : ε) (run : ℕ → Except ε α × σ) : Prop := ∀ fuel, (run fuel).1 = .error stuck

def Returns (run : ℕ → Except ε α × σ) : Prop :=
  ∃ rounds, ∀ fuel, rounds < fuel → ∃ a, (run fuel).1 = .ok a

def andThen (run : ℕ → Except ε α × σ) (next : α → σ → ℕ → Except ε β × σ) (fuel : ℕ) :
    Except ε β × σ :=
  match run fuel with
  | (.ok a, s) => next a s fuel
  | (.error e, s) => (.error e, s)

variable {run : ℕ → Except ε α × σ} {next : α → σ → ℕ → Except ε β × σ} {a : α} {e : ε} {s : σ}

theorem Ends.const (result : Except ε α × σ) : Ends stuck (fun _ => result) result :=
  ⟨fun _ => .inr rfl, 0, fun _ _ => rfl⟩

theorem Ends.of_rounds {result failed : Except ε α × σ} {rounds : ℕ}
    (h : ∀ fuel, run fuel = if fuel ≤ rounds then failed else result)
    (hfailed : failed.1 = .error stuck) : Ends stuck run result := by
  refine ⟨fun fuel => ?_, rounds, fun fuel hfuel => ?_⟩
  · rw [h fuel]
    split_ifs
    · exact .inl hfailed
    · exact .inr rfl
  · rw [h fuel, if_neg (Nat.not_le_of_lt hfuel)]

theorem andThen_of_stuck {fuel : ℕ} (h : (run fuel).1 = .error stuck) :
    (andThen run next fuel).1 = .error stuck := by
  rw [andThen]
  cases hrun : run fuel with
  | mk outcome s' =>
      rw [hrun] at h
      rw [show outcome = .error stuck from h]

theorem andThen_of_ok {fuel : ℕ} (h : run fuel = (.ok a, s)) :
    andThen run next fuel = next a s fuel := by
  rw [andThen, h]

theorem andThen_of_error {fuel : ℕ} (h : run fuel = (.error e, s)) :
    andThen run next fuel = (.error e, s) := by
  rw [andThen, h]

theorem Ends.andThen {result : Except ε β × σ} (h : Ends stuck run (.ok a, s))
    (hnext : Ends stuck (next a s) result) : Ends stuck (andThen run next) result := by
  obtain ⟨rounds, hrounds⟩ := h.eventually
  obtain ⟨more, hmore⟩ := hnext.eventually
  refine ⟨fun fuel => ?_, max rounds more, fun fuel hfuel => ?_⟩
  · obtain hstuck | hrun := h.or_stuck fuel
    · exact .inl (andThen_of_stuck hstuck)
    · rw [andThen_of_ok hrun]
      exact hnext.or_stuck fuel
  · rw [max_lt_iff] at hfuel
    rw [andThen_of_ok (hrounds fuel hfuel.1)]
    exact hmore fuel hfuel.2

theorem Ends.andThen_error (h : Ends stuck run (.error e, s)) :
    Ends stuck (Fuel.andThen run next) (.error e, s) := by
  obtain ⟨rounds, hrounds⟩ := h.eventually
  refine ⟨fun fuel => ?_, rounds, fun fuel hfuel => andThen_of_error (hrounds fuel hfuel)⟩
  obtain hstuck | hrun := h.or_stuck fuel
  · exact .inl (andThen_of_stuck hstuck)
  · exact .inr (andThen_of_error hrun)

theorem Never.andThen (h : Never stuck run) : Never stuck (Fuel.andThen run next) := fun fuel =>
  andThen_of_stuck (h fuel)

theorem Ends.andThen_never (h : Ends stuck run (.ok a, s)) (hnext : Never stuck (next a s)) :
    Never stuck (Fuel.andThen run next) := by
  intro fuel
  obtain hstuck | hrun := h.or_stuck fuel
  · exact andThen_of_stuck hstuck
  · rw [andThen_of_ok hrun]
    exact hnext fuel

/-! ### What a run comes to -/

/-- A run ends with an error for some fuel exactly when the error is its result. -/
theorem Ends.forall_ne_iff {result : Except ε α × σ} (h : Ends stuck run result) (hne : e ≠ stuck) :
    (∀ fuel, (run fuel).1 ≠ .error e) ↔ result.1 ≠ .error e := by
  constructor
  · intro hrun
    obtain ⟨rounds, hrounds⟩ := h.eventually
    rw [← hrounds (rounds + 1) (Nat.lt_succ_self rounds)]
    exact hrun _
  · intro hresult fuel
    obtain hstuck | hrun := h.or_stuck fuel
    · rw [hstuck]
      intro heq
      exact hne (Except.error.inj heq).symm
    · rwa [hrun]

theorem Ends.returns_iff {result : Except ε α × σ} (h : Ends stuck run result) :
    Returns run ↔ ∃ a, result.1 = .ok a := by
  obtain ⟨rounds, hrounds⟩ := h.eventually
  constructor
  · rintro ⟨bound, hreturns⟩
    have hfuel : rounds < max rounds bound + 1 := Nat.lt_succ_of_le (le_max_left _ _)
    rw [← hrounds _ hfuel]
    exact hreturns _ (Nat.lt_succ_of_le (le_max_right _ _))
  · intro hresult
    refine ⟨rounds, fun fuel hfuel => ?_⟩
    rwa [hrounds fuel hfuel]

theorem Never.forall_ne (h : Never stuck run) (hne : e ≠ stuck) (fuel : ℕ) :
    (run fuel).1 ≠ .error e := by
  rw [h fuel]
  intro heq
  exact hne (Except.error.inj heq).symm

theorem Never.not_returns (h : Never stuck run) : ¬Returns run := by
  rintro ⟨rounds, hreturns⟩
  obtain ⟨a, ha⟩ := hreturns (rounds + 1) (Nat.lt_succ_self rounds)
  rw [h] at ha
  cases ha

/-- The result is not this error exactly when `safe` holds, and a value exactly when `served`
does. -/
structure Outcome (fault : ε) (result : Except ε α) (safe served : Prop) : Prop where
  ne_iff : result ≠ .error fault ↔ safe
  ok_iff : (∃ a, result = .ok a) ↔ served

/-- The same of a run with any fuel, of which one that never ends has neither. -/
def Settled (stuck fault : ε) (run : ℕ → Except ε α × σ) (safe served : Prop) : Prop :=
  Never stuck run ∧ safe ∧ ¬served ∨
    ∃ result, Ends stuck run result ∧ Outcome fault result.1 safe served

section Outcomes

variable {fault : ε} {safe served : Prop}

theorem outcome_ok (a : α) (hsafe : safe) (hserved : served) :
    Outcome fault (.ok a) safe served :=
  ⟨iff_of_true nofun hsafe, iff_of_true ⟨a, rfl⟩ hserved⟩

theorem not_returned : ¬∃ a : α, Except.error e = .ok a := by
  rintro ⟨a, ha⟩
  cases ha

theorem outcome_error (hne : e ≠ fault) (hsafe : safe) (hserved : ¬served) :
    Outcome (α := α) fault (.error e) safe served :=
  ⟨iff_of_true (fun h => hne (Except.error.inj h)) hsafe, iff_of_false not_returned hserved⟩

theorem outcome_fault (hsafe : ¬safe) (hserved : ¬served) :
    Outcome (α := α) fault (.error fault) safe served :=
  ⟨iff_of_false (fun h => h rfl) hsafe, iff_of_false not_returned hserved⟩

theorem Settled.forall_ne_iff (h : Settled stuck fault run safe served) (hne : fault ≠ stuck) :
    (∀ fuel, (run fuel).1 ≠ .error fault) ↔ safe := by
  obtain ⟨hnever, hsafe, -⟩ | ⟨result, hends, houtcome⟩ := h
  · exact iff_of_true (hnever.forall_ne hne) hsafe
  · exact (hends.forall_ne_iff hne).trans houtcome.ne_iff

theorem Settled.returns_iff (h : Settled stuck fault run safe served) : Returns run ↔ served := by
  obtain ⟨hnever, -, hserved⟩ | ⟨result, hends, houtcome⟩ := h
  · exact iff_of_false hnever.not_returns hserved
  · exact hends.returns_iff.trans houtcome.ok_iff

theorem Never.settled (h : Never stuck run) (hsafe : safe) (hserved : ¬served) :
    Settled stuck fault run safe served :=
  .inl ⟨h, hsafe, hserved⟩

theorem Ends.settled {result : Except ε α × σ} (h : Ends stuck run result)
    (houtcome : Outcome fault result.1 safe served) : Settled stuck fault run safe served :=
  .inr ⟨result, h, houtcome⟩

/-- A continuation that never ends or ends with another error does not serve. -/
theorem Ends.settled_refused {s' : σ} (h : Ends stuck run (.ok a, s))
    (hnext : Never stuck (next a s) ∨ Ends stuck (next a s) (.error e, s')) (hne : e ≠ fault)
    (hsafe : safe) (hserved : ¬served) :
    Settled stuck fault (Fuel.andThen run next) safe served := by
  obtain hnever | herror := hnext
  · exact (h.andThen_never hnever).settled hsafe hserved
  · exact (h.andThen herror).settled (outcome_error hne hsafe hserved)

end Outcomes

end Fuel
