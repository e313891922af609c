import Mathlib.Tactic.Common

/-!
# Programs over a shared store

A program is a tree of operations: it asks for one, gets an answer, and goes on as the answer says.
Nothing in the tree fixes how operations are answered, so one program can be run alone, every
operation answered by a function of the store, or in small steps among others.
-/

/-- A program that asks for operations `o : Op`, each answered by an `Ans o`. -/
inductive Program (Op : Type) (Ans : Op → Type) (ε α : Type) where
  | pure (a : α)
  | throw (e : ε)
  | op (o : Op) (next : Ans o → Program Op Ans ε α)

namespace Program

variable {Op : Type} {Ans : Op → Type} {ε α β σ : Type}

protected def bind : Program Op Ans ε α → (α → Program Op Ans ε β) → Program Op Ans ε β
  | .pure a, f => f a
  | .throw e, _ => .throw e
  | .op o next, f => .op o fun a => (next a).bind f

instance : Monad (Program Op Ans ε) where
  pure := .pure
  bind := .bind

def perform (o : Op) : Program Op Ans ε (Ans o) := .op o .pure

def ofExcept : Except ε α → Program Op Ans ε α
  | .ok a => .pure a
  | .error e => .throw e

def ofOption (e : ε) : Option α → Program Op Ans ε α
  | some a => .pure a
  | none => .throw e

@[simp] theorem pure_bind (a : α) (f : α → Program Op Ans ε β) :
    (pure a : Program Op Ans ε α) >>= f = f a := rfl

@[simp] theorem throw_bind (e : ε) (f : α → Program Op Ans ε β) :
    Program.throw e >>= f = .throw e := rfl

@[simp] theorem op_bind (o : Op) (next : Ans o → Program Op Ans ε α)
    (f : α → Program Op Ans ε β) :
    Program.op o next >>= f = .op o fun a => next a >>= f := rfl

@[simp] theorem perform_bind (o : Op) (f : Ans o → Program Op Ans ε β) :
    perform o >>= f = .op o f := rfl

instance : LawfulMonad (Program Op Ans ε) := LawfulMonad.mk' _
  (by
    intro α p
    induction p with
    | pure a => rfl
    | throw e => rfl
    | op o next ih => exact congrArg (Program.op o) (funext ih))
  (fun _ _ => rfl)
  (by
    intro α β γ p f g
    induction p with
    | pure a => rfl
    | throw e => rfl
    | op o next ih => exact congrArg (Program.op o) (funext ih))

/-! ### Running alone -/

section Run

variable (exec : (o : Op) → σ → Ans o × σ)

def run : Program Op Ans ε α → σ → Except ε α × σ
  | .pure a, s => (.ok a, s)
  | .throw e, s => (.error e, s)
  | .op o next, s => (next (exec o s).1).run (exec o s).2

/-- The postcondition `Q` holds of the outcome and the store it is reached in. -/
def wp (p : Program Op Ans ε α) (s : σ) (Q : Except ε α → σ → Prop) : Prop :=
  Q (p.run exec s).1 (p.run exec s).2

variable {exec} {p : Program Op Ans ε α} {f : α → Program Op Ans ε β} {s : σ}

theorem run_bind : (p >>= f).run exec s = match p.run exec s with
    | (.ok a, s') => (f a).run exec s'
    | (.error e, s') => (.error e, s') := by
  induction p generalizing s with
  | pure a => rfl
  | throw e => rfl
  | op o next ih => exact ih _

theorem run_ofOption (e : ε) (x : Option α) :
    (ofOption e x : Program Op Ans ε α).run exec s = (x.elim (.error e) .ok, s) := by
  cases x <;> rfl

theorem run_ofExcept (x : Except ε α) :
    (ofExcept x : Program Op Ans ε α).run exec s = (x, s) := by
  cases x <;> rfl

theorem wp_pure {a : α} {Q : Except ε α → σ → Prop} (h : Q (.ok a) s) :
    (pure a : Program Op Ans ε α).wp exec s Q := h

theorem wp_throw {e : ε} {Q : Except ε α → σ → Prop} (h : Q (.error e) s) :
    (Program.throw e : Program Op Ans ε α).wp exec s Q := h

theorem wp_mono {Q R : Except ε α → σ → Prop} (h : p.wp exec s Q) (hQR : ∀ r s, Q r s → R r s) :
    p.wp exec s R := hQR _ _ h

/-- **Sequencing.** What the first program establishes when it returns is what the second starts
from; when it throws the second does not run. -/
theorem wp_bind {Q : Except ε β → σ → Prop}
    (h : p.wp exec s fun r s' => match r with
      | .ok a => (f a).wp exec s' Q
      | .error e => Q (.error e) s') : (p >>= f).wp exec s Q := by
  induction p generalizing s with
  | pure a => exact h
  | throw e => exact h
  | op o next ih => exact ih _ h

theorem wp_ofOption {e : ε} {x : Option α} {Q : Except ε α → σ → Prop}
    (hsome : ∀ a, x = some a → Q (.ok a) s) (hnone : x = none → Q (.error e) s) :
    (ofOption e x : Program Op Ans ε α).wp exec s Q := by
  cases x with
  | none => exact hnone rfl
  | some a => exact hsome a rfl

end Run

/-! ### The operations a program may ask for -/

def All (P : Op → Prop) : Program Op Ans ε α → Prop
  | .pure _ => True
  | .throw _ => True
  | .op o next => P o ∧ ∀ a, (next a).All P

section All

variable {P : Op → Prop} {p : Program Op Ans ε α} {f : α → Program Op Ans ε β}

theorem all_pure (a : α) : (pure a : Program Op Ans ε α).All P := trivial

theorem all_throw (e : ε) : (Program.throw e : Program Op Ans ε α).All P := trivial

theorem all_perform {o : Op} (h : P o) : (perform o : Program Op Ans ε (Ans o)).All P :=
  ⟨h, fun _ => trivial⟩

theorem all_ofOption (e : ε) (x : Option α) : (ofOption e x : Program Op Ans ε α).All P := by
  cases x <;> trivial

theorem all_ofExcept (x : Except ε α) : (ofExcept x : Program Op Ans ε α).All P := by
  cases x <;> trivial

theorem all_bind (hp : p.All P) (hf : ∀ a, (f a).All P) : (p >>= f).All P := by
  induction p with
  | pure a => exact hf a
  | throw e => trivial
  | op o next ih => exact ⟨hp.1, fun a => ih a (hp.2 a)⟩

theorem all_mono {Q : Op → Prop} (hPQ : ∀ o, P o → Q o) (hp : p.All P) : p.All Q := by
  induction p with
  | pure a => trivial
  | throw e => trivial
  | op o next ih => exact ⟨hPQ o hp.1, fun a => ih a (hp.2 a)⟩

/-- What every allowed operation preserves, a run preserves. -/
theorem wp_of_invariant {exec : (o : Op) → σ → Ans o × σ} {I : σ → Prop}
    (hexec : ∀ o, P o → ∀ s, I s → I (exec o s).2) (hp : p.All P) {s : σ} (hs : I s) :
    p.wp exec s fun _ s' => I s' := by
  induction p generalizing s with
  | pure a => exact hs
  | throw e => exact hs
  | op o next ih => exact ih _ (hp.2 _) (hexec o hp.1 s hs)

/-- What every allowed operation leaves alone, a run leaves alone. -/
theorem wp_of_all {exec : (o : Op) → σ → Ans o × σ} {γ : Type} {view : σ → γ}
    (hexec : ∀ o, P o → ∀ s, view (exec o s).2 = view s) (hp : p.All P) (s : σ) :
    p.wp exec s fun _ s' => view s' = view s := by
  induction p generalizing s with
  | pure a => exact rfl
  | throw e => exact rfl
  | op o next ih => exact (ih _ (hp.2 _) _).trans (hexec o hp.1 s)

end All

end Program
